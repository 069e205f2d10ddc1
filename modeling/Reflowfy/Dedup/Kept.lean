import Reflowfy.Dedup.Claims
import Reflowfy.RecordIdentity
import Reflowfy.Paging.Fallible
import Reflowfy.Paging.Loop
import Mathlib.Data.List.FinRange

namespace Reflowfy

namespace Records

-- No transaction has rows of its own in the table.
def Settled (table : Records) : Prop := ∀ h row, table h = some row → row.tx = none

-- Free, or held by this job.
def Winnable (table : Records) (job_id : JobId) (h : RecordHash) : Prop :=
  ∀ row, table h = some row → row.job_id = job_id

instance (table : Records) (job_id : JobId) : DecidablePred (table.Winnable job_id) := fun h =>
  match hrow : table h with
  | none => .isTrue fun row hr => by rw [hrow] at hr; cases hr
  | some row => decidable_of_iff (row.job_id = job_id)
      ⟨fun heq r hr => by rw [hrow] at hr; cases hr; exact heq, fun h => h row hrow⟩

-- The table with rows for those of the hashes that were free.
def inserts (tx : Option TaskId) (job_id : JobId) (now : Int) (hashes : List RecordHash)
    (table : Records) : Records :=
  fun h => if h ∈ hashes ∧ table h = none then some ⟨job_id, now, tx⟩ else table h

end Records

namespace ClaimPc

-- A call with nobody else at the table: a row or a statement at a time, up to its return.
def alone (tx : TaskId) (job_id : JobId) (now : Int) : Records × ClaimPc →
    (Records × ClaimPc) ⊕ (Records × List RecordHash)
  | (records, done won) => .inr (records, won)
  | (records, pc) => match pc.step tx job_id now records with
      | some next => .inl next
      | none => .inl (records, pc)

end ClaimPc

-- What a call of `_claim_records` goes by. `record_hash` is `compute_record_hash` for the
-- job's pipeline, destination and params; `job_hashes` are what the upgrade guard looks for.
structure ClaimCall where
  record_hash : Value → Except Raised RecordHash
  dedup_key : Option DedupKey
  runtime_params : Value
  honor_legacy_hash : Bool
  processed_content : List (ContentHash × JobId)
  job_hashes : List ContentHash

def ClaimCall.hashes (call : ClaimCall) (transformed_records : List Value) :
    Except Raised (List RecordHash) :=
  transformed_records.mapM fun record => record_identity record call.dedup_key
    call.runtime_params >>= call.record_hash

-- What `_claim_records` leaves in the table and what it gives back.
def ClaimsRecords (call : ClaimCall) (tx : TaskId) (job_id : JobId) (now : Int) (table : Records)
    (transformed_records : List Value)
    (out : Records × Except Raised (List Value × List RecordHash)) : Prop :=
  if call.honor_legacy_hash && held_by_other_job call.processed_content call.job_hashes job_id then
    out = (table, .ok ([], []))
  else
    match call.hashes transformed_records with
    | .error e => out = (table, .error e)
    | .ok hashes => ∃ table' won,
        Paging.Returns (ClaimPc.alone tx job_id now)
          (table, .claim_record_hashes hashes) (table', won) ∧
          out = (table', .ok (keep_records won [] (transformed_records.zip hashes), won))

variable {tx : TaskId} {job_id : JobId} {now : Int} {table : Records} {hashes : List RecordHash}

section Claim

open ClaimPc Paging

theorem alone_step {pc pc' : ClaimPc} {records' : Records}
    (hstep : pc.step tx job_id now records = some (records', pc')) :
    alone tx job_id now (records, pc) = .inl (records', pc') := by
  cases pc with
  | done won => cases hstep
  | insert rows inserted taken won parts => simp only [alone, hstep]
  | own taken won parts => simp only [alone, hstep]
  | commit won => simp only [alone, hstep]

theorem inserts_snoc (table : Records) (hs : List RecordHash) {h : RecordHash}
    (hfree : table h = none) (hnew : h ∉ hs) :
    (table.inserts (some tx) job_id now hs).insert tx job_id now h = table.inserts
    (some tx) job_id now (hs ++ [h]) := by
  funext k
  by_cases hk : k = h
  · subst hk
    rw [Records.insert_self, Records.inserts, if_pos ⟨by simp, hfree⟩]
  · rw [Records.insert_of_ne _ hk]
    simp [Records.inserts, hk]

theorem inserts_pass (table : Records) (hs : List RecordHash) {h : RecordHash}
    (htaken : table h ≠ none) :
    table.inserts (some tx) job_id now hs = table.inserts (some tx) job_id now (hs ++ [h]) := by
  funext k
  by_cases hk : k = h
  · subst hk
    simp [Records.inserts, htaken]
  · simp [Records.inserts, hk]

-- The rows of one part: the free ones are inserted, the others stand in the way.
theorem returns_rows (hsettled : table.Settled) {rows : List RecordHash}
    {out : Records × List RecordHash}
    (past inserted taken won : List RecordHash) (parts : List (List RecordHash))
    (hnodup : (past ++ rows).Nodup)
    (hrest : Returns (alone tx job_id now) (table.inserts (some tx) job_id now (past ++ rows),
      insert [] (inserted ++ rows.filter (table · = none))
        (taken ++ rows.filter (table · ≠ none)) won parts) out) :
    Returns (alone tx job_id now)
      (table.inserts (some tx) job_id now past, insert rows inserted taken won parts) out := by
  induction rows generalizing past inserted taken with
  | nil => simpa using hrest
  | cons h rows ih =>
      have hnew : h ∉ past :=
        fun hmem => (List.nodup_append.mp hnodup).2.2 h hmem h List.mem_cons_self rfl
      have hshow : table.inserts (some tx) job_id now past h = table h := by
        simp [Records.inserts, hnew]
      rw [List.append_cons] at hnodup hrest
      cases hrow : table h with
      | none =>
          have hstep : (insert (h :: rows) inserted taken won parts).step tx job_id now
              (table.inserts (some tx) job_id now past) =
              some (table.inserts (some tx) job_id now (past ++ [h]),
                  insert rows (inserted ++ [h]) taken won parts) := by
            simp only [step, hshow, hrow, inserts_snoc table past hrow hnew]
          apply returns_of_inl (alone_step hstep)
          apply ih _ _ _ hnodup
          simpa [hrow] using hrest
      | some row =>
          have hstep : (insert (h :: rows) inserted taken won parts).step tx job_id now
              (table.inserts (some tx) job_id now past) =
              some (table.inserts (some tx) job_id now (past ++ [h]),
                  insert rows inserted (taken ++ [h]) won parts) := by
            rw [← inserts_pass table past (by simp [hrow])]
            simp [step, hshow, hrow, hsettled h row hrow]
          apply returns_of_inl (alone_step hstep)
          apply ih _ _ _ hnodup
          simpa [hrow] using hrest

-- What one part adds to the hashes won: those it inserts, then those the job has.
def part_won (job_id : JobId) (table : Records) (part : List RecordHash) : List RecordHash :=
  part.filter (table · = none) ++ part.filter fun h => (table h).any (·.job_id = job_id)

theorem own_inserts (hsettled : table.Settled) (past part : List RecordHash) :
    (table.inserts (some tx) job_id now (past ++ part)).own tx job_id
    (part.filter (table · ≠ none)) =
      part.filter fun h => (table h).any (·.job_id = job_id) := by
  rw [Records.own, List.filter_filter]
  apply List.filter_congr
  intro h _
  cases hrow : table h with
  | none => simp
  | some row => simp [Records.inserts, hrow, hsettled h row hrow]

theorem returns_parts (tx : TaskId) (job_id : JobId) (now : Int) (hsettled : table.Settled)
    (past won : List RecordHash) (parts : List (List RecordHash))
    (hnodup : (past ++ parts.flatten).Nodup) :
    Returns (alone tx job_id now) (table.inserts (some tx) job_id now past, nextPart won parts)
      ((table.inserts (some tx) job_id now (past ++ parts.flatten)).commit tx,
        won ++ parts.flatMap (part_won job_id table)) := by
  induction parts generalizing past won with
  | nil =>
      apply returns_of_inl (alone_step rfl)
      apply returns_of_inr
      simp [alone]
  | cons part parts ih =>
      rw [List.flatten_cons, ← List.append_assoc] at hnodup
      have hpart : (past ++ part).Nodup := (List.nodup_append.mp hnodup).1
      have hnext := ih (past ++ part) (won ++ part_won job_id table part) hnodup
      rw [List.append_assoc, List.append_assoc, ← List.flatten_cons, ← List.flatMap_cons] at hnext
      apply returns_rows hsettled past [] [] won parts hpart
      by_cases htaken : part.filter (table · ≠ none) = []
      · -- every row is inserted, so there is nothing to ask for
        have hown : (part.filter fun h => (table h).any (·.job_id = job_id)) = [] := by
          rw [← @own_inserts tx _ now _ hsettled past, htaken]
          rfl
        apply returns_of_inl
          (alone_step (by simp only [step, List.nil_append, htaken, if_true]; rfl))
        simpa [part_won, hown] using hnext
      · apply returns_of_inl
          (alone_step (by simp only [step, List.nil_append, htaken, if_false]; rfl))
        apply returns_of_inl (alone_step rfl)
        rw [own_inserts hsettled]
        simpa [part_won] using hnext

theorem mem_part_won {part : List RecordHash} {h : RecordHash} :
    h ∈ part_won job_id table part ↔ h ∈ part ∧ table.Winnable job_id h := by
  cases hrow : table h <;> simp [part_won, Records.Winnable, hrow]

theorem nodup_part_won {part : List RecordHash} (hnodup : part.Nodup) :
    (part_won job_id table part).Nodup := by
  refine List.nodup_append.mpr ⟨hnodup.filter _, hnodup.filter _, ?_⟩
  rintro h hfree k hheld rfl
  have hnone := List.of_mem_filter hfree
  have hsome := List.of_mem_filter hheld
  simp_all

theorem nodup_won {parts : List (List RecordHash)} (hnodup : parts.flatten.Nodup) :
    (parts.flatMap (part_won job_id table)).Nodup := by
  obtain ⟨heach, hdisjoint⟩ := List.nodup_flatten.mp hnodup
  refine List.nodup_flatMap.mpr
    ⟨fun part hpart => nodup_part_won (heach part hpart), hdisjoint.imp ?_⟩
  intro part part' hparts h hwon hwon'
  exact hparts (mem_part_won.mp hwon).1 (mem_part_won.mp hwon').1

theorem inserts_nil (tx : Option TaskId) (table : Records) :
    table.inserts tx job_id now [] = table := by
  funext h
  simp [Records.inserts]

theorem commit_inserts (hsettled : table.Settled) (hashes : List RecordHash) :
    (table.inserts (some tx) job_id now (fromkeys hashes)).commit tx =
    table.inserts none job_id now hashes := by
  funext h
  cases hrow : table h with
  | none => by_cases hmem : h ∈ hashes <;> simp [Records.commit, Records.inserts, hrow, hmem]
  | some row => simp [Records.commit, Records.inserts, hrow, hsettled h row hrow]

-- The whole call: it wins what it could win, and inserts what was free.
theorem claim_returns (tx : TaskId) (job_id : JobId) (now : Int) (hsettled : table.Settled)
    (hashes : List RecordHash) :
    ∃ won, Returns (alone tx job_id now) (table, claim_record_hashes hashes)
      (table.inserts none job_id now hashes, won) ∧
      won.Nodup ∧ ∀ h, h ∈ won ↔ h ∈ hashes ∧ table.Winnable job_id h := by
  by_cases hnone : fromkeys hashes = []
  · have hempty : hashes = [] := List.eq_nil_iff_forall_not_mem.mpr fun h hmem => by
      have := mem_fromkeys.mpr hmem
      simp [hnone] at this
    subst hempty
    refine ⟨[], returns_of_inr ?_, List.nodup_nil, by simp⟩
    simp [claim_record_hashes, alone, fromkeys, inserts_nil]
  · have hflat : (Paging.slices CLAIM_CHUNK_SIZE (fromkeys hashes)).flatten = fromkeys hashes :=
      Paging.slices_flatten (by decide) _
    have hnodup : (Paging.slices CLAIM_CHUNK_SIZE (fromkeys hashes)).flatten.Nodup := by
      rw [hflat]
      exact nodup_fromkeys hashes
    refine ⟨(Paging.slices CLAIM_CHUNK_SIZE (fromkeys hashes)).flatMap (part_won job_id table), ?_,
      nodup_won hnodup, ?_⟩
    · have hreturns := returns_parts tx job_id now hsettled [] [] _ hnodup
      rw [inserts_nil, List.nil_append, List.nil_append, hflat, commit_inserts hsettled] at hreturns
      rw [claim_record_hashes, if_neg hnone]
      exact hreturns
    · intro h
      have hparts : h ∈ hashes ↔
          ∃ part ∈ Paging.slices CLAIM_CHUNK_SIZE (fromkeys hashes), h ∈ part := by
        rw [← List.mem_flatten, hflat, mem_fromkeys]
      simp only [List.mem_flatMap, mem_part_won, hparts, ← and_assoc, exists_and_right]

end Claim

section Kept

-- The first positions of the hashes that were free or held by the job.
def kept_positions (table : Records) (job_id : JobId) (hashes : List RecordHash) :
    List (Fin hashes.length) :=
  (List.finRange hashes.length).filter fun i => table.Winnable job_id hashes[i] ∧
    hashes[i] ∉ hashes.take i

theorem keep_records_eq {Record : Type} {won seen : List RecordHash} (pre : List RecordHash)
    {records : List Record}
    (hlen : records.length = hashes.length) (hseen : ∀ h ∈ won, h ∈ seen ↔ h ∈ pre) :
    (keep_records won seen (records.zip hashes)).map some =
      ((List.finRange hashes.length).filter fun i : Fin hashes.length =>
        hashes[i] ∈ won ∧ hashes[i] ∉ pre ++ hashes.take i).map
        fun i : Fin hashes.length => records[i.val]? := by
  induction hashes generalizing pre seen records with
  | nil => simp [keep_records]
  | cons h hashes ih =>
      cases records with
      | nil => cases hlen
      | cons record records =>
          have htail : ∀ seen', (∀ k ∈ won, k ∈ seen' ↔ k ∈ pre ++ [h]) →
              (keep_records won seen' (records.zip hashes)).map some =
                ((List.finRange hashes.length).filter fun i : Fin hashes.length =>
                  hashes[i] ∈ won ∧ hashes[i] ∉ pre ++ h :: hashes.take i).map
                  fun i : Fin hashes.length => records[i.val]? := by
            intro seen' hseen'
            rw [ih _ (by simpa using hlen) hseen']
            simp only [List.append_assoc, List.singleton_append]
          have hfin : List.finRange (h :: hashes).length = 0 ::
              (List.finRange hashes.length).map Fin.succ :=
            List.finRange_succ
          rw [hfin, List.filter_cons, List.filter_map]
          by_cases hkeep : h ∈ won ∧ h ∉ seen
          · have hnew : h ∉ pre := fun hmem => hkeep.2 ((hseen h hkeep.1).mpr hmem)
            have hrest := htail (h :: seen) fun k hk => by simp [hseen k hk, or_comm]
            simpa [keep_records, hkeep, hnew, Function.comp_def] using hrest
          · have hold : h ∈ won → h ∈ pre := fun hmem => (hseen h hmem).mp (by tauto)
            have hrest := htail seen fun k hk => by
              rw [hseen k hk, List.mem_append, List.mem_singleton]
              exact ⟨.inl, fun hk' => hk'.elim id fun heq => hold (heq ▸ hk) |> (heq ▸ ·)⟩
            have hskip : ¬(h ∈ won ∧ h ∉ pre) := fun hand => hand.2 (hold hand.1)
            simpa [keep_records, hkeep, hskip, Function.comp_def] using hrest

theorem keep_records_positions {won : List RecordHash} {transformed_records : List Value}
    (hlen : transformed_records.length = hashes.length)
    (hwon : ∀ h, h ∈ won ↔ h ∈ hashes ∧ table.Winnable job_id h) :
    (keep_records won [] (transformed_records.zip hashes)).map some =
      (kept_positions table job_id hashes).map fun i => transformed_records[i.val]? := by
  rw [keep_records_eq [] hlen fun _ _ => Iff.rfl]
  congr 1
  apply List.filter_congr
  intro i _
  simp [hwon]

-- Every hash that could be won is kept at the first of its positions.
theorem mem_kept_hashes {h : RecordHash} :
    h ∈ (kept_positions table job_id hashes).map (hashes[·]) ↔ h ∈ hashes ∧
      table.Winnable job_id h := by
  constructor
  · intro hmem
    obtain ⟨i, hi, rfl⟩ := List.mem_map.mp hmem
    have hkept := List.of_mem_filter hi
    simp only [decide_eq_true_eq] at hkept
    exact ⟨List.getElem_mem _, hkept.1⟩
  · rintro ⟨hmem, hwinnable⟩
    have hlt : hashes.idxOf h < hashes.length := List.idxOf_lt_length_of_mem hmem
    have hget : hashes[hashes.idxOf h] = h := List.getElem_idxOf hlt
    refine List.mem_map.mpr
      ⟨⟨hashes.idxOf h, hlt⟩, List.mem_filter.mpr ⟨List.mem_finRange _, ?_⟩, hget⟩
    simp only [Fin.getElem_fin, hget, decide_eq_true_eq]
    refine ⟨hwinnable, fun hearlier => ?_⟩
    exact absurd ((List.mem_take_iff_idxOf_lt hmem).mp hearlier) (Nat.lt_irrefl _)

theorem nodup_kept_hashes : ((kept_positions table job_id hashes).map (hashes[·])).Nodup := by
  have hnodup : (kept_positions table job_id hashes).Nodup := (List.nodup_finRange _).filter _
  refine hnodup.map_on ?_
  intro i hi j hj heq
  have hfirst : ∀ i j : Fin hashes.length, j ∈ kept_positions table job_id hashes →
      hashes[i] = hashes[j] → j ≤ i := by
    intro i j hj heq
    by_contra hlt
    have hkept := List.of_mem_filter hj
    simp only [decide_eq_true_eq] at hkept
    exact hkept.2 (heq ▸ List.mem_take_iff_getElem.mpr ⟨i, by omega, rfl⟩)
  exact le_antisymm (hfirst j i hi heq.symm) (hfirst i j hj heq)

theorem settled_inserts (job_id : JobId) (now : Int) (hashes : List RecordHash)
    (hsettled : table.Settled) :
    (table.inserts none job_id now hashes).Settled := by
  intro h row hrow
  rw [Records.inserts] at hrow
  split at hrow
  · cases hrow
    rfl
  · exact hsettled h row hrow

theorem winnable_inserts (now : Int) (hashes : List RecordHash) {h : RecordHash} :
    (table.inserts none job_id now hashes).Winnable job_id h ↔ table.Winnable job_id h := by
  cases hrow : table h with
  | none => by_cases hmem : h ∈ hashes <;> simp [Records.Winnable, Records.inserts, hrow, hmem]
  | some row => simp [Records.Winnable, Records.inserts, hrow]

theorem inserts_again {now' : Int} :
    (table.inserts none job_id now hashes).inserts none job_id now' hashes =
    table.inserts none job_id now hashes := by
  funext h
  by_cases hmem : h ∈ hashes
  · cases hrow : table h <;> simp [Records.inserts, hrow, hmem]
  · simp [Records.inserts, hmem]

-- A part at a time, the DELETE comes to the rows of all the hashes.
theorem release_parts_eq (hashes : List RecordHash) (records : Records) :
    records.release_parts hashes job_id = records.release_record_hashes hashes job_id := by
  have hparts : ∀ (parts : List (List RecordHash)) (records : Records),
      parts.foldl (fun records part => records.release_record_hashes part job_id) records =
        records.release_record_hashes parts.flatten job_id := by
    intro parts
    induction parts with
    | nil =>
        intro records
        funext h
        cases hrow : records h <;> simp [Records.release_record_hashes, hrow, Option.filter]
    | cons part parts ih =>
        intro records
        rw [List.foldl_cons, ih, List.flatten_cons]
        funext h
        cases hrow : records h with
        | none => simp [Records.release_record_hashes, hrow]
        | some row =>
            simp only [Records.release_record_hashes, hrow, Option.filter,
              List.contains_eq_mem, List.mem_append]
            grind
  rw [Records.release_parts, hparts, Paging.slices_flatten (by decide) _]
  funext h
  simp [Records.release_record_hashes]

end Kept

-- What a call keeps of records with these hashes, and what it leaves behind.
structure Keeps (call : ClaimCall) (job_id : JobId) (now : Int) (table table' : Records)
    (transformed_records kept : List Value) (hashes claims : List RecordHash) : Prop where
  records : kept.map some = (kept_positions table job_id hashes).map fun i =>
    transformed_records[i.val]?
  distinct : ((kept_positions table job_id hashes).map (hashes[·])).Nodup
  unique : claims.Nodup
  exactly : ∀ h, h ∈ claims ↔ h ∈ (kept_positions table job_id hashes).map (hashes[·])
  nothing : kept = [] ↔ claims = []
  rows : ∀ h, table' h = if h ∈ hashes ∧ table h = none then some ⟨job_id, now, none⟩ else table h
  -- the same call after a crash that skipped the release
  again : ∀ tx' now', ∃ claims',
    (∀ out, ClaimsRecords call tx' job_id now' table' transformed_records out ↔
    out = (table', .ok (kept, claims'))) ∧ ∀ h, h ∈ claims' ↔ h ∈ claims
  released : ∀ h, table'.release_parts claims job_id h =
    if h ∈ hashes ∧ (table' h).any (·.job_id = job_id) then none else table' h

section Claimed

variable {call : ClaimCall} {transformed_records : List Value}

theorem claimsRecords_iff (tx : TaskId) (job_id : JobId) (now : Int)
    (hoff : call.honor_legacy_hash = false) (hsettled : table.Settled)
    (hhashes : call.hashes transformed_records = .ok hashes) :
    ∃ won, won.Nodup ∧ (∀ h, h ∈ won ↔ h ∈ hashes ∧ table.Winnable job_id h) ∧
      ∀ out, ClaimsRecords call tx job_id now table transformed_records out ↔
        out = (table.inserts none job_id now hashes,
          .ok (keep_records won [] (transformed_records.zip hashes), won)) := by
  obtain ⟨won, hreturns, hnodup, hwon⟩ := claim_returns tx job_id now hsettled hashes
  refine ⟨won, hnodup, hwon, fun out => ?_⟩
  simp only [ClaimsRecords, hoff, Bool.false_and, Bool.false_eq_true, if_false, hhashes]
  constructor
  · rintro ⟨table', won', hreturns', rfl⟩
    cases hreturns.unique hreturns'
    rfl
  · rintro rfl
    exact ⟨_, won, hreturns, rfl⟩

theorem release_claims {claims : List RecordHash} (hsettled : table.Settled)
    (hclaims : ∀ h, h ∈ claims ↔ h ∈ hashes ∧ table.Winnable job_id h) (h : RecordHash) :
    (table.inserts none job_id now hashes).release_parts claims job_id h =
      if h ∈ hashes ∧ ((table.inserts none job_id now hashes) h).any (·.job_id = job_id) then none
      else table.inserts none job_id now hashes h := by
  rw [release_parts_eq, Records.release_record_hashes]
  cases hrow : (table.inserts none job_id now hashes) h with
  | none => simp
  | some row =>
      have htx := settled_inserts job_id now hashes hsettled h row hrow
      by_cases hjob : row.job_id = job_id
      · have hwinnable : table.Winnable job_id h := by
          rw [← winnable_inserts now hashes]
          intro row' hrow'
          rw [hrow] at hrow'
          cases hrow'
          exact hjob
        by_cases hmem : h ∈ hashes <;> simp [hclaims, hmem, hwinnable, hjob, htx]
      · simp [hjob]

-- Nothing is kept when nothing is won.
theorem keep_records_nil_iff {won : List RecordHash}
    (hlen : transformed_records.length = hashes.length)
    (hwon : ∀ h, h ∈ won ↔ h ∈ hashes ∧ table.Winnable job_id h) :
    keep_records won [] (transformed_records.zip hashes) = [] ↔ won = [] := by
  rw [← List.map_eq_nil_iff (f := some), keep_records_positions hlen hwon, List.map_eq_nil_iff,
    ← List.map_eq_nil_iff (f := (hashes[·])), List.eq_nil_iff_forall_not_mem,
      List.eq_nil_iff_forall_not_mem]
  simp only [mem_kept_hashes, hwon]

end Claimed

section Identity

-- What the hashes are of: of each record, in order, what `record_identity` says of it.

variable {call : ClaimCall} {transformed_records : List Value}

theorem hashes_eq_ok : call.hashes transformed_records = .ok hashes ↔
    List.Forall₂ (fun record h => ∃ identity, record_identity record call.dedup_key
      call.runtime_params = .ok identity ∧
      call.record_hash identity = .ok h) transformed_records hashes := by
  rw [ClaimCall.hashes, Paging.mapM_eq_ok]
  simp only [Paging.bind_eq_ok]

-- No `dedup_key`: the whole record.
theorem record_identity_record (record runtime_params : Value) :
    record_identity record none runtime_params = .ok (to_json_safe record) := rfl

-- A name: the record's value under it, whatever its other fields hold.
theorem record_identity_field {name : String} {record runtime_params identity : Value} :
    record_identity record (some (.field name)) runtime_params = .ok identity ↔
      ∃ entries k v, record = .dict entries ∧ entries.find? (·.1 = .str name) = some (k, v) ∧
        to_json_safe v = identity := by
  simp only [record_identity, Paging.map_eq_ok]
  constructor
  · rintro ⟨v, hv, rfl⟩
    cases record with
    | dict entries =>
        cases hfind : entries.find? (·.1 = .str name) with
        | none => simp only [field, hfind, reduceCtorEq] at hv
        | some entry =>
            simp only [field, hfind, Except.ok.injEq] at hv
            exact ⟨entries, entry.1, v, rfl, by rw [hfind, ← hv], rfl⟩
    | _ => cases hv
  · rintro ⟨entries, k, v, rfl, hfind, rfl⟩
    exact ⟨v, by simp only [field, hfind], rfl⟩

-- A function: what it makes of the record and the runtime params.
theorem record_identity_function {key : Value → Value → Except Raised Value}
    {record runtime_params identity : Value} :
    record_identity record (some (.function key)) runtime_params = .ok identity ↔
      ∃ v, key record runtime_params = .ok v ∧ to_json_safe v = identity :=
  Paging.map_eq_ok

-- A record that lacks the field fails the call: it is not sent unchecked.
theorem hashes_error_of_missing {name : String} {entries : List (Key × Value)}
    (hkey : call.dedup_key = some (.field name)) (hmem : .dict entries ∈ transformed_records)
    (hmissing : ∀ entry ∈ entries, entry.1 ≠ .str name) :
    ∃ e, call.hashes transformed_records = .error e := by
  cases hhashes : call.hashes transformed_records with
  | error e => exact ⟨e, rfl⟩
  | ok hashes =>
      obtain ⟨h, -, identity, hidentity, -⟩ :=
        Paging.forall₂_mem_right (hashes_eq_ok.mp hhashes).flip _ hmem
      rw [hkey] at hidentity
      obtain ⟨entries', k, v, heq, hfind, -⟩ := record_identity_field.mp hidentity
      cases heq
      exact absurd (by simpa using List.find?_some hfind)
        (hmissing (k, v) (List.mem_of_find?_eq_some hfind))

end Identity

-- What the dedup of a job's records keeps. Where a record has no hash, the call fails and
-- claims nothing.
theorem claim_keeps (call : ClaimCall) (tx : TaskId) (job_id : JobId) (now : Int)
    (transformed_records : List Value)
    (hoff : call.honor_legacy_hash = false) (hsettled : table.Settled) :
    (∀ e, call.hashes transformed_records = .error e →
      ∀ out, ClaimsRecords call tx job_id now table transformed_records out ↔
        out = (table, .error e)) ∧
    ∀ hashes, call.hashes transformed_records = .ok hashes →
      ∃ table' kept claims,
        (∀ out, ClaimsRecords call tx job_id now table transformed_records out ↔
          out = (table', .ok (kept, claims))) ∧
          Keeps call job_id now table table' transformed_records kept hashes claims := by
  constructor
  · intro e he out
    simp [ClaimsRecords, hoff, he]
  · intro hashes hhashes
    have hlen : transformed_records.length = hashes.length :=
      (Paging.mapM_eq_ok.mp hhashes).length_eq
    obtain ⟨won, hnodup, hwon, hcall⟩ := claimsRecords_iff tx job_id now hoff hsettled hhashes
    have hkept := keep_records_positions hlen hwon
    refine ⟨_, _, won, hcall,
      ⟨hkept, nodup_kept_hashes, hnodup, fun h => (hwon h).trans mem_kept_hashes.symm,
      keep_records_nil_iff hlen hwon, fun h => rfl, fun tx' now' => ?_,
        release_claims hsettled hwon⟩⟩
    obtain ⟨won', -, hwon', hagain⟩ := claimsRecords_iff tx' job_id now' hoff
      (settled_inserts job_id now hashes hsettled) hhashes
    simp only [winnable_inserts] at hwon'
    rw [inserts_again] at hagain
    have hsame : keep_records won' [] (transformed_records.zip hashes) =
        keep_records won [] (transformed_records.zip hashes) :=
      List.map_injective_iff.mpr (Option.some_injective _)
        ((keep_records_positions hlen hwon').trans hkept.symm)
    rw [hsame] at hagain
    exact ⟨won', hagain, fun h => (hwon' h).trans (hwon h).symm⟩

-- Integers are their own hashes, and job 9 holds 2.
def intCall : ClaimCall where
  record_hash v := match v with
    | .int n => .ok n.toNat
    | _ => .error (.other "TypeError")
  dedup_key := none
  runtime_params := .dict []
  honor_legacy_hash := false
  processed_content := []
  job_hashes := []

def heldByNine : Records := fun h => if h = 2 then some ⟨9, 0, none⟩ else none

theorem claim_keeps_four : ∃ table' kept claims,
    (∀ out, ClaimsRecords intCall 1 7 5 heldByNine [.int 1, .int 2, .int 1, .int 3] out ↔
      out = (table', .ok (kept, claims))) ∧
      Keeps intCall 7 5 heldByNine table' [.int 1, .int 2, .int 1, .int 3] kept
        [1, 2, 1, 3] claims := by
  refine (claim_keeps intCall 1 7 5 [.int 1, .int 2, .int 1, .int 3] rfl ?_).2 [1, 2, 1, 3] rfl
  intro h row hrow
  simp only [heldByNine] at hrow
  split at hrow
  · cases hrow
    rfl
  · cases hrow

end Reflowfy
