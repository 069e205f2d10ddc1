import Reflowfy.ContentDedup
import Mathlib.Data.List.Nodup
import Mathlib.Logic.Relation

namespace Reflowfy

@[simp] theorem mem_fromkeys {hashes : List RecordHash} {h : RecordHash} :
    h ∈ fromkeys hashes ↔ h ∈ hashes := by
  induction hashes with
  | nil => rfl
  | cons x hashes ih =>
      simp only [fromkeys, List.mem_cons, List.mem_filter, ih, decide_eq_true_eq]
      by_cases hx : h = x <;> simp [hx]

theorem nodup_fromkeys (hashes : List RecordHash) : (fromkeys hashes).Nodup := by
  induction hashes with
  | nil => exact List.nodup_nil
  | cons x hashes ih => exact List.nodup_cons.mpr ⟨by simp, ih.filter _⟩

-- The record loop keeps the first of the records it holds, and none that it has kept before.
theorem mem_keep {won seen hashes : List RecordHash} {h : RecordHash} :
    h ∈ keep won seen hashes ↔ h ∈ hashes ∧ h ∈ won ∧ h ∉ seen := by
  induction hashes generalizing seen with
  | nil => simp [keep]
  | cons x hashes ih =>
      by_cases hx : won.contains x && !seen.contains x
      · simp only [keep, hx, if_true, List.mem_cons, ih]
        simp only [Bool.and_eq_true, List.contains_iff_mem, Bool.not_eq_true',
          ← Bool.not_eq_true] at hx
        grind
      · simp only [keep, hx, Bool.false_eq_true, if_false, ih, List.mem_cons]
        simp only [Bool.and_eq_true, List.contains_iff_mem, Bool.not_eq_true',
          ← Bool.not_eq_true] at hx
        grind

namespace Records

variable {records : Records} {tx d : TaskId} {job_id : JobId} {now : Int} {h k : RecordHash}
    {row : ProcessedRecord}

theorem insert_self (records : Records) :
    records.insert tx job_id now h h = some ⟨job_id, now, some tx⟩ :=
  Function.update_self ..

theorem insert_of_ne (records : Records) (hk : k ≠ h) :
    records.insert tx job_id now h k = records k :=
  Function.update_of_ne hk ..

-- A claim is never taken over: what a key shows stays behind an INSERT.
theorem insert_of_some (hfree : records h = none) (hrow : records k = some row) :
    records.insert tx job_id now h k = some row := by
  rw [insert_of_ne records fun heq => ?_]
  · exact hrow
  · rw [heq, hfree] at hrow
    cases hrow

theorem holder_insert (records : Records) :
    (records.insert tx job_id now h).holder k = if k = h then some tx else records.holder k := by
  by_cases hk : k = h
  · subst hk
    rw [if_pos rfl, holder, insert_self]
    rfl
  · rw [if_neg hk, holder, insert_of_ne records hk]
    rfl

theorem holder_commit (records : Records) :
    (records.commit tx).holder k = if records.holder k = some tx then
    none else records.holder k := by
  cases hrow : records k with
  | none => simp [holder, commit, hrow]
  | some row => by_cases htx : row.tx = some tx <;> simp [holder, commit, hrow, htx]

theorem holder_rollback (records : Records) :
    (records.rollback tx).holder k = if records.holder k = some tx then
    none else records.holder k := by
  cases hrow : records k with
  | none => simp [holder, rollback, hrow]
  | some row => by_cases htx : row.tx = some tx <;> simp [holder, rollback, hrow,
      Option.filter, htx]

end Records

namespace ClaimPc

-- The keys the transaction has yet to come to.
def rest : ClaimPc → List RecordHash
  | insert rows _ _ _ parts => rows ++ parts.flatten
  | own _ _ parts => parts.flatten
  | commit _ | done _ => []

@[simp] theorem rest_insert (rows inserted taken won : List RecordHash)
    (parts : List (List RecordHash)) :
    (insert rows inserted taken won parts).rest = rows ++ parts.flatten := rfl

@[simp] theorem rest_own (taken won : List RecordHash) (parts : List (List RecordHash)) :
    (own taken won parts).rest = parts.flatten := rfl

@[simp] theorem rest_commit (won : List RecordHash) : (commit won).rest = [] := rfl

@[simp] theorem rest_done (won : List RecordHash) : (done won).rest = [] := rfl

@[simp] theorem rest_nextPart (won : List RecordHash) (parts : List (List RecordHash)) :
    (nextPart won parts).rest = parts.flatten := by
  cases parts <;> rfl

@[simp] theorem rest_claim_record_hashes (hashes : List RecordHash) :
    (claim_record_hashes hashes).rest = fromkeys hashes := by
  unfold claim_record_hashes
  split
  · rename_i hnone
    rw [hnone]
    rfl
  · rw [rest_nextPart, Paging.slices_flatten (by decide) _]

-- A call with something to claim begins with the INSERT of the first part.
theorem claim_record_hashes_of_ne_nil (hashes : List RecordHash) (hne : fromkeys hashes ≠ []) :
    ∃ rows parts, claim_record_hashes hashes = insert rows [] [] [] parts ∧
      rows ++ parts.flatten = fromkeys hashes := by
  have hflat : (Paging.slices CLAIM_CHUNK_SIZE (fromkeys hashes)).flatten = fromkeys hashes :=
    Paging.slices_flatten (by decide) _
  unfold claim_record_hashes
  rw [if_neg hne]
  cases hparts : Paging.slices CLAIM_CHUNK_SIZE (fromkeys hashes) with
  | nil =>
      rw [hparts] at hflat
      exact absurd hflat.symm hne
  | cons part parts => exact ⟨part, parts, rfl, by rw [← List.flatten_cons, ← hparts, hflat]⟩

-- What one step of the transaction does.
inductive Steps (tx : TaskId) (job_id : JobId) (now : Int) (records : Records) : ClaimPc →
    Records → ClaimPc → Prop
  | inserts {h rows inserted taken won parts} (hfree : records h = none) :
      Steps tx job_id now records (insert (h :: rows) inserted taken won parts)
        (records.insert tx job_id now h)
        (insert rows (inserted ++ [h]) taken won parts)
  | passes {h rows inserted taken won parts row} (hrow : records h = some row)
      (hfree : row.tx = none ∨ row.tx = some tx) :
      Steps tx job_id now records (insert (h :: rows) inserted taken won parts) records
        (insert rows inserted (taken ++ [h]) won parts)
  | won_all {inserted won parts} :
      Steps tx job_id now records (insert [] inserted [] won parts) records
        (nextPart (won ++ inserted) parts)
  | asks {inserted taken won parts} :
      Steps tx job_id now records (insert [] inserted taken won parts) records
        (own taken (won ++ inserted) parts)
  | owns {taken won parts} :
      Steps tx job_id now records (own taken won parts) records
        (nextPart (won ++ records.own tx job_id taken) parts)
  | commits {won} : Steps tx job_id now records (commit won) (records.commit tx) (done won)

theorem steps_of_step {tx : TaskId} {job_id : JobId} {now : Int} {records records' : Records}
    {pc pc' : ClaimPc} (hs : pc.step tx job_id now records = some (records', pc')) :
      Steps tx job_id now records pc records' pc' := by
  cases pc with
  | insert rows inserted taken won parts =>
      cases rows with
      | cons h rows =>
          cases hrow : records h with
          | none =>
              simp only [step, hrow, Option.some.injEq, Prod.mk.injEq] at hs
              obtain ⟨rfl, rfl⟩ := hs
              exact .inserts hrow
          | some row =>
              simp only [step, hrow, Option.ite_none_left_eq_some, Option.some.injEq,
                Prod.mk.injEq] at hs
              obtain ⟨hfree, rfl, rfl⟩ := hs
              apply Steps.passes hrow
              cases htx : row.tx with
              | none => exact .inl rfl
              | some other => exact .inr (by simpa [htx] using hfree)
      | nil =>
          simp only [step, Option.some.injEq, Prod.mk.injEq] at hs
          obtain ⟨rfl, rfl⟩ := hs
          by_cases htaken : taken = []
          · subst htaken
            exact .won_all
          · rw [if_neg htaken]
            exact .asks
  | own taken won parts =>
      cases hs
      exact .owns
  | commit won =>
      cases hs
      exact .commits
  | done won => cases hs

-- A step that leaves the table as it is.
def Passes (tx : TaskId) (job_id : JobId) (now : Int) (records : Records)
    (pc pc' : ClaimPc) : Prop :=
  pc.step tx job_id now records = some (records, pc')

section Passes

variable {tx : TaskId} {job_id : JobId} {now : Int} {records : Records}

theorem passes_key {h : RecordHash} {rows inserted taken won : List RecordHash}
    {parts : List (List RecordHash)} (hcommitted : records.committed h = true) :
    Passes tx job_id now records (insert (h :: rows) inserted taken won parts)
      (insert rows inserted (taken ++ [h]) won parts) := by
  obtain ⟨row, hrow, htx⟩ := (Option.any_eq_true _ _).mp hcommitted
  simp [Passes, step, hrow, Option.isNone_iff_eq_none.mp htx]

theorem passes_keys (rows inserted won : List RecordHash) (parts : List (List RecordHash))
    {us : List RecordHash} (hus : ∀ u ∈ us, records.committed u = true) (taken : List RecordHash) :
    ∃ taken', Relation.ReflTransGen (Passes tx job_id now records)
      (insert (us ++ rows) inserted taken won parts)
      (insert rows inserted taken' won parts) := by
  induction us generalizing taken with
  | nil => exact ⟨taken, .refl⟩
  | cons u us ih =>
      obtain ⟨taken', hrest⟩ := ih (fun v hv => hus v (List.mem_cons_of_mem u hv)) (taken ++ [u])
      exact ⟨taken', hrest.head (passes_key (hus u List.mem_cons_self))⟩

theorem passes_part (inserted taken won part : List RecordHash) (parts : List (List RecordHash)) :
    ∃ won', Relation.ReflTransGen (Passes tx job_id now records)
      (insert [] inserted taken won (part :: parts))
      (insert part [] [] won' parts) := by
  by_cases htaken : taken = []
  · exact ⟨won ++ inserted, .single (by simp [Passes, step, htaken, nextPart])⟩
  · have hasks : Passes tx job_id now records (insert [] inserted taken won (part :: parts))
        (own taken (won ++ inserted) (part :: parts)) := by
      simp [Passes, step, htaken]
    exact ⟨won ++ inserted ++ records.own tx job_id taken,
      (Relation.ReflTransGen.single hasks).tail rfl⟩

-- The first key past `us` stands among the rows at hand, or in a part to follow.
theorem rows_or_parts {rows rest us vs : List RecordHash} {x : RecordHash}
    (h : rows ++ rest = us ++ x :: vs) :
    (∃ as, rows = us ++ x :: as ∧ as ++ rest = vs) ∨ ∃ bs, us = rows ++ bs ∧
    rest = bs ++ x :: vs := by
  rcases List.append_eq_append_iff.mp h with ⟨bs, hus, hrest⟩ | ⟨as, hrows, has⟩
  · exact .inr ⟨bs, hus, hrest⟩
  · cases as with
    | nil => exact .inr ⟨[], by simpa using hrows.symm, by simpa using has.symm⟩
    | cons y as =>
        obtain ⟨rfl, hvs⟩ := List.cons_eq_cons.mp has
        exact .inl ⟨as, hrows, hvs.symm⟩

-- Undisturbed, the transaction passes the committed keys up to the first that is not.
theorem passes_to (tx : TaskId) (job_id : JobId) (now : Int) {x : RecordHash}
    {rows us vs : List RecordHash}
    {parts : List (List RecordHash)} (inserted taken won : List RecordHash)
    (hrest : rows ++ parts.flatten = us ++ x :: vs) (hus : ∀ u ∈ us, records.committed u = true) :
    ∃ rows' inserted' taken' won' parts', rows' ++ parts'.flatten = vs ∧
      Relation.ReflTransGen (Passes tx job_id now records) (insert rows inserted taken won parts)
        (insert (x :: rows') inserted' taken' won' parts') := by
  induction parts generalizing rows us inserted taken won with
  | nil =>
      obtain rfl : rows = us ++ x :: vs := by simpa using hrest
      obtain ⟨taken', hkeys⟩ := passes_keys (x :: vs) inserted won [] hus taken
      exact ⟨vs, inserted, taken', won, [], by simp, hkeys⟩
  | cons part parts ih =>
      rcases rows_or_parts hrest with ⟨as, rfl, has⟩ | ⟨bs, rfl, hbs⟩
      · obtain ⟨taken', hkeys⟩ := passes_keys (x :: as) inserted won (part :: parts) hus taken
        exact ⟨as, inserted, taken', won, part :: parts, has, hkeys⟩
      · -- the part at hand is passed as a whole
        obtain ⟨taken', hkeys⟩ := passes_keys [] inserted won (part :: parts)
          (fun u hu => hus u (List.mem_append_left bs hu)) taken
        obtain ⟨won', hpart⟩ := passes_part inserted taken' won part parts
        obtain ⟨rows', inserted', taken'', won'', parts', heq, hto⟩ := ih [] [] won'
          (List.flatten_cons ▸ hbs)
          fun u hu => hus u (List.mem_append_right rows hu)
        rw [List.append_nil] at hkeys
        exact ⟨rows', inserted', taken'', won'', parts', heq, (hkeys.trans hpart).trans hto⟩

end Passes

end ClaimPc

end Reflowfy
