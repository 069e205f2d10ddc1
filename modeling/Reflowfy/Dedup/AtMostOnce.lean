import Reflowfy.Interleaving.Runs
import Reflowfy.Dedup.Transitions

namespace Reflowfy

open Interleaving

namespace Records

variable {records records' : Records} {tx : TaskId} {job_id : JobId} {now : Int} {h : RecordHash}
    {row : ProcessedRecord}

theorem commit_of_ne (hrow : records h = some row) (htx : row.tx ≠ some tx) :
    records.commit tx h = some row := by
  simp [commit, hrow, htx]

theorem commit_of_eq (hrow : records h = some row) (htx : row.tx = some tx) :
    records.commit tx h = some { row with tx := none } := by
  simp [commit, hrow, htx]

theorem rollback_of_ne (hrow : records h = some row) (htx : row.tx ≠ some tx) :
    records.rollback tx h = some row := by
  simp [rollback, hrow, htx, Option.filter]

-- A release takes the job's own committed claims, and no other.
theorem release_of_not (hrow : records h = some row) {hashes : List RecordHash}
    (hnot : h ∈ hashes → row.job_id = job_id → row.tx ≠ none) :
    records.release_record_hashes hashes job_id h = some row := by
  simp only [release_record_hashes, hrow, Option.filter]
  by_cases hmem : h ∈ hashes <;> by_cases hjob : row.job_id = job_id <;> simp_all

theorem purge_of_recent (hrow : records h = some row) {cutoff : Int} {selected : List RecordHash}
    (hrecent : h ∈ selected → row.tx = none → cutoff ≤ row.created_at) :
    records.purge_expired_content cutoff selected h = some row := by
  simp only [purge_expired_content, hrow, Option.filter]
  by_cases hmem : h ∈ selected <;> by_cases htx : row.tx = none <;> simp_all

theorem mem_own {taken : List RecordHash} (hmem : h ∈ records.own tx job_id taken) :
    ∃ row, records h = some row ∧ row.job_id = job_id ∧ (row.tx = none ∨ row.tx = some tx) := by
  obtain ⟨row, hrow, hown⟩ := (Option.any_eq_true _ _).mp (List.mem_filter.mp hmem).2
  simp only [Bool.and_eq_true, decide_eq_true_eq, Bool.or_eq_true,
    Option.isNone_iff_eq_none] at hown
  exact ⟨row, hrow, hown.1, hown.2⟩

end Records

-- What is no transaction's, or another one's, stays as it is.
theorem ClaimPc.Steps.keeps {tx : TaskId} {job_id : JobId} {now : Int} {records records' : Records}
    {pc pc' : ClaimPc}
    {h : RecordHash} {row : ProcessedRecord} (hsteps : pc.Steps tx job_id now records records' pc')
    (hrow : records h = some row) (htx : row.tx ≠ some tx) : records' h = some row := by
  cases hsteps with
  | inserts hfree => exact Records.insert_of_some hfree hrow
  | passes | won_all | asks | owns => exact hrow
  | commits => exact Records.commit_of_ne hrow htx

namespace ClaimPc

-- Rows of the job, seen by the transaction.
def Won (records : Records) (tx : TaskId) (job_id : JobId) (hashes : List RecordHash) : Prop :=
  ∀ h ∈ hashes, ∃ row, records h = some row ∧ row.job_id = job_id ∧
    (row.tx = none ∨ row.tx = some tx)

variable {tx : TaskId} {job_id : JobId} {now : Int} {records records' : Records} {pc pc' : ClaimPc}

theorem won_commit {won : List RecordHash} (h : Won records tx job_id won) :
    ∀ k ∈ won, ∃ row, records.commit tx k = some row ∧ row.job_id = job_id ∧ row.tx = none := by
  intro k hk
  obtain ⟨row, hrow, hjob, htx⟩ := h k hk
  by_cases hown : row.tx = some tx
  · exact ⟨_, Records.commit_of_eq hrow hown, hjob, rfl⟩
  · exact ⟨row, Records.commit_of_ne hrow hown, hjob, htx.resolve_right hown⟩

theorem won_steps (hsteps : pc.Steps tx job_id now records records' pc')
    (h : Won records tx job_id pc.gained) :
    Won records' tx job_id pc'.gained := by
  cases hsteps with
  | @inserts k rows inserted taken won parts hfree =>
      intro h' hh'
      rw [gained, ← List.append_assoc, List.mem_append, List.mem_singleton] at hh'
      rcases hh' with hold | rfl
      · obtain ⟨row, hrow, hrest⟩ := h h' hold
        exact ⟨row, Records.insert_of_some hfree hrow, hrest⟩
      · exact ⟨_, Records.insert_self records, rfl, .inr rfl⟩
  | passes | asks => exact h
  | won_all =>
      rw [gained_nextPart]
      exact h
  | owns =>
      intro h' hh'
      rw [gained_nextPart, List.mem_append] at hh'
      rcases hh' with hold | hown
      · exact h h' hold
      · exact Records.mem_own hown
  | commits =>
      intro h' hh'
      obtain ⟨row, hrow, hjob, htx⟩ := won_commit h h' hh'
      exact ⟨row, hrow, hjob, .inl htx⟩

end ClaimPc

namespace DedupSystem

def Completed (s : DedupSystem) (job_id : JobId) : Prop :=
  ∃ row ∈ s.store.jobs, row.job_id = job_id ∧ row.state = .completed

-- The job whose row the key shows, and any whose delivery goes on with it as its own.
def HeldBy (s : DedupSystem) (h : RecordHash) (job_id : JobId) : Prop :=
  (∃ row, s.store.records h = some row ∧ row.job_id = job_id) ∨
    ∃ d, (s.procs d).job_id = job_id ∧ h ∈ (s.procs d).pc.claims

-- What an event brings to a destination.
def sends (s : DedupSystem) : DedupEvent → List (JobId × RecordHash)
  | .go d choice =>
      match (s.procs d).pc, choice with
      | .send slice, .ok => slice.kept.map ((s.procs d).job_id, ·)
      | .send slice, .wrote h => if h ∈ slice.kept then [((s.procs d).job_id, h)] else []
      | _, _ => []
  | _ => []

structure SendsAtMostOnce (cfg : Config) (Ok : DedupSystem → DedupEvent → Prop) : Prop where
  one_holder : ∀ s, Reach (step cfg) Initial Ok s → ∀ h j j', HeldBy s h j → HeldBy s h j' → j = j'
  stays_claimed : ∀ s, Reach (step cfg) Initial Ok s → ∀ j h, Completed s j →
    (j, h) ∈ s.store.delivered →
    ∃ row, s.store.records h = some row ∧ row.job_id = j
  no_other : ∀ s, Reach (step cfg) Initial Ok s → ∀ j h, Completed s j →
    (j, h) ∈ s.store.delivered →
    ∀ s', Path (step cfg) Ok s s' → ∀ e j', (j', h) ∈ sends s' e → j' = j

-- The calls that are statements of the database.
def statement : RecordsPc → Bool
  | .claim | .blocked | .held _ _ | .claiming _ _ _ | .release _ _ _ | .report _ _ _ => true
  | _ => false

def Served (s : DedupSystem) : DedupEvent → Prop
  | .go d (.raised _ _) => statement (s.procs d).pc = false
  | _ => True

-- The sweeps leave the claims that are there.
def Unswept (s : DedupSystem) : DedupEvent → Prop
  | .purge_expired_content cutoff selected =>
      ∀ h ∈ selected, ∀ row, s.store.records h = some row → row.tx = none → cutoff ≤ row.created_at
  | _ => True

-- A release gives up what its job has not delivered, and what no other delivery of
-- the job goes on with.
def Exclusive (s : DedupSystem) : DedupEvent → Prop
  | .go d .ok => ∀ slice by_ stats, (s.procs d).pc = .release slice by_ stats → ∀ h ∈ slice.won,
      ((s.procs d).job_id, h) ∉ s.store.delivered ∧
        ∀ d', d' ≠ d → (s.procs d').job_id = (s.procs d).job_id → h ∉ (s.procs d').pc.claims
  | _ => True

-- A delivered record is claimed by the job that delivered it.
def Kept (store : DedupStore) : Prop :=
  ∀ j h, (j, h) ∈ store.delivered → ∃ row, store.records h = some row ∧
    row.job_id = j ∧ row.tx = none

-- So is what a delivery goes on with; within its own transaction it may be uncommitted.
def Owned (store : DedupStore) (d : TaskId) (p : RecordsDelivery) : Prop :=
  ∀ h ∈ p.pc.claims, ∃ row, store.records h = some row ∧ row.job_id = p.job_id ∧
    (row.tx = none ∨ (p.pc.inTransaction = true ∧ row.tx = some d))

variable {cfg : Config} {s s' : DedupSystem} {e : DedupEvent}

theorem kept_initial (h : Initial s) : s.Holds Kept Owned := by
  obtain ⟨-, hdelivered, -, hidle⟩ := h
  refine ⟨fun j k hk => ?_, fun d k hk => ?_⟩
  · rw [hdelivered] at hk
    cases hk
  · rw [hidle d] at hk
    cases hk

theorem Owned.quiet {store : DedupStore} {d : TaskId} {job_id : JobId} {pc pc' : RecordsPc}
    (h : Owned store d ⟨job_id, pc⟩) (hquiet : pc.Quiet pc') : Owned store d ⟨job_id, pc'⟩ := by
  intro k hk
  obtain ⟨hmem, hopen⟩ := hquiet.claims k hk
  obtain ⟨row, hrow, hjob, htx⟩ := h k hmem
  exact ⟨row, hrow, hjob, htx.imp_right fun ho => ⟨hopen ho.1, ho.2⟩⟩

-- Where the table keeps the rows, other deliveries keep what they own.
theorem Owned.mono {store store' : DedupStore} {d : TaskId} {p : RecordsDelivery}
    (h : Owned store d p)
    (hrows : ∀ k ∈ p.pc.claims, ∀ row, store.records k = some row → row.job_id = p.job_id →
      (row.tx = none ∨ row.tx = some d) → store'.records k = some row) : Owned store' d p := by
  intro k hk
  obtain ⟨row, hrow, hjob, htx⟩ := h k hk
  exact ⟨row, hrows k hk row hrow hjob (htx.imp_right And.right), hjob, htx⟩

theorem Kept.mono {store store' : DedupStore} (h : Kept store)
    (hdelivered : store'.delivered = store.delivered)
    (hrows : ∀ j k, (j, k) ∈ store.delivered → ∀ row, store.records k = some row →
      row.job_id = j → row.tx = none →
      store'.records k = some row) : Kept store' := by
  intro j k hk
  rw [hdelivered] at hk
  obtain ⟨row, hrow, hjob, htx⟩ := h j k hk
  exact ⟨row, hrows j k hk row hrow hjob htx, hjob, htx⟩

theorem Kept.deliver {store : DedupStore} {job_id : JobId}
    {hashes : List RecordHash} (h : Kept store)
    (howned : ∀ k ∈ hashes, ∃ row, store.records k = some row ∧
      row.job_id = job_id ∧ row.tx = none) :
    Kept (store.deliver job_id hashes) := by
  intro j k hk
  rcases List.mem_append.mp hk with hnew | hold
  · obtain ⟨k', hk', heq⟩ := List.mem_map.mp hnew
    cases heq
    exact howned k hk'
  · exact h j k hold

-- What the transaction has won is the job's, and committed with the transaction.
theorem owned_claims {store : DedupStore} {d : TaskId} {job_id : JobId}
    {records : List RecordHash} {now : Int}
    {table : Records} {pc pc' : ClaimPc} (hsteps : pc.Steps d job_id now store.records table pc')
    (h : Owned store d ⟨job_id, .claiming records now pc⟩) :
    Owned { store with records := table } d ⟨job_id, RecordsPc.claimed records now pc'⟩ := by
  have hwon : ClaimPc.Won store.records d job_id pc.gained := by
    intro k hk
    obtain ⟨row, hrow, hjob, htx⟩ := h k hk
    exact ⟨row, hrow, hjob, htx.imp_right And.right⟩
  have hopen : (∀ won, pc' ≠ .done won) → Owned { store with records := table } d
      ⟨job_id, RecordsPc.claimed records now pc'⟩ := by
    intro hnot
    rw [RecordsPc.claimed_of_ne_done hnot]
    intro k hk
    obtain ⟨row, hrow, hjob, htx⟩ := ClaimPc.won_steps hsteps hwon k hk
    exact ⟨row, hrow, hjob, htx.imp_right fun htx => ⟨rfl, htx⟩⟩
  cases hsteps with
  | inserts | passes | asks => exact hopen (by simp)
  | won_all | owns => exact hopen fun won => ClaimPc.nextPart_ne_done _ won _
  | @commits won =>
      rcases RecordsPc.claimed_done records now won with ⟨-, hend⟩ | hgo
      · rw [hend]
        exact fun k hk => absurd hk List.not_mem_nil
      · rw [hgo]
        intro k hk
        obtain ⟨row, hrow, hjob, htx⟩ := ClaimPc.won_commit hwon k hk
        exact ⟨row, hrow, hjob, .inl htx⟩

-- The records to send are among those won.
theorem kept_owned {store : DedupStore} {d : TaskId} {job_id : JobId}
    {slice : Slice} {k : RecordHash}
    (h : Owned store d ⟨job_id, .send slice⟩) (hk : k ∈ slice.kept) :
    ∃ row, store.records k = some row ∧ row.job_id = job_id ∧ row.tx = none := by
  obtain ⟨row, hrow, hjob, htx⟩ := h k (mem_keep.mp hk).2.1
  exact ⟨row, hrow, hjob, htx.resolve_right fun ho => by cases ho.1⟩

theorem owned_go {d : TaskId} {job_id : JobId} {choice : WorkChoice}
    {store : DedupStore} {pc : RecordsPc}
    (h : s.Holds Kept Owned) (hok : Exclusive s (.go d choice)) (hjob : (s.procs d).job_id = job_id)
    (hworks : (s.procs d).pc.Works cfg d job_id s.store choice store pc) :
    (s.set d store ⟨job_id, pc⟩).Holds Kept Owned := by
  have hown : Owned s.store d ⟨job_id, (s.procs d).pc⟩ := hjob ▸ h.2 d
  generalize hpc : (s.procs d).pc = pc₀ at hworks hown
  cases hworks with
  | skip hquiet => exact Pool.Holds.set h h.1 (hown.quiet hquiet) fun _ _ hj => hj
  | row stmt _ hquiet => exact Pool.Holds.set h h.1 (hown.quiet hquiet) fun _ _ hj => hj
  | guarded => exact Pool.Holds.set h h.1 (fun k hk => absurd hk List.not_mem_nil) fun _ _ hj => hj
  | claims hsteps =>
      refine Pool.Holds.set h ?_ (owned_claims hsteps hown) fun j hj hj' => ?_
      · exact h.1.mono rfl fun j k _ row hrow _ htx => hsteps.keeps hrow (by simp [htx])
      · refine hj'.mono fun k _ row hrow _ htx => hsteps.keeps hrow ?_
        rcases htx with htx | htx <;> simp [htx, hj]
  | aborts hquiet =>
      have hended : ∀ store, Owned store d ⟨job_id, .ended⟩ :=
        fun _ k hk => absurd hk List.not_mem_nil
      refine Pool.Holds.set h ?_ ((hended _).quiet hquiet) fun j hj hj' => ?_
      · exact h.1.mono rfl fun j k _ row hrow _ htx => Records.rollback_of_ne hrow (by simp [htx])
      · refine hj'.mono fun k _ row hrow _ htx => Records.rollback_of_ne hrow ?_
        rcases htx with htx | htx <;> simp [htx, hj]
  | @wrote slice k hkept =>
      refine Pool.Holds.set h (h.1.deliver fun k' hk' => ?_)
        (fun k' hk' => hown k' hk') fun _ _ hj => hj
      obtain rfl := List.mem_singleton.mp hk'
      exact kept_owned hown hkept
  | @sent slice =>
      exact Pool.Holds.set h (h.1.deliver fun k hk => kept_owned hown hk)
        (fun k hk => absurd hk List.not_mem_nil)
        fun _ _ hj => hj
  | @releases slice by_ stats =>
      have hclaims : ∀ store, Owned store d ⟨job_id, RecordsPc.reportBy slice stats by_⟩ := by
        intro store k hk
        rw [RecordsPc.claims_reportBy] at hk
        cases hk
      have hexcl := hok slice by_ stats hpc
      rw [hjob] at hexcl
      refine Pool.Holds.set h ?_ (hclaims _) fun j hj hj' => ?_
      · refine h.1.mono rfl fun j k hk row hrow hrowjob _ =>
          Records.release_of_not hrow fun hmem hsame => ?_
        rw [← hrowjob, hsame] at hk
        exact absurd hk (hexcl k hmem).1
      · refine hj'.mono fun k hk row hrow hrowjob _ =>
          Records.release_of_not hrow fun hmem hsame => ?_
        exact absurd hk ((hexcl k hmem).2 j hj (hrowjob.symm.trans hsame))
  | reports => exact Pool.Holds.set h h.1 (fun k hk => absurd hk List.not_mem_nil) fun _ _ hj => hj

theorem owned_step (h : s.Holds Kept Owned) (hswept : Unswept s e) (hok : Exclusive s e)
    (hs : step cfg s e = some s') : s'.Holds Kept Owned := by
  cases e with
  | tick now =>
      simp only [step, Option.ite_none_right_eq_some, Option.some.injEq] at hs
      obtain ⟨-, rfl⟩ := hs
      exact Pool.Holds.store h h.1 fun _ _ hj => hj
  | deliver d job_id =>
      simp only [step, Option.ite_none_right_eq_some, Option.some.injEq] at hs
      obtain ⟨-, rfl⟩ := hs
      exact Pool.Holds.set h h.1 (fun k hk => absurd hk List.not_mem_nil) fun _ _ hj => hj
  | go d choice =>
      obtain ⟨⟨store, pc⟩, hgo, rfl⟩ := Option.map_eq_some_iff.mp hs
      exact owned_go h hok rfl (RecordsPc.works_of_go hgo)
  | manage run stmt =>
      simp only [step, Option.ite_none_right_eq_some, Option.some.injEq] at hs
      obtain ⟨-, rfl⟩ := hs
      exact Pool.Holds.store h h.1 fun _ _ hj => hj
  | purge_executions run | purge_processed_content selected =>
      cases hs
      exact Pool.Holds.store h h.1 fun _ _ hj => hj
  | purge_expired_content cutoff selected =>
      cases hs
      refine Pool.Holds.store h (h.1.mono rfl fun j k _ row hrow _ htx => ?_) fun j p hj =>
        hj.mono fun k _ row hrow _ _ => ?_
      all_goals exact Records.purge_of_recent hrow fun hmem htx => hswept k hmem row hrow htx

theorem owned_reach (hr : Reach (step cfg) Initial (fun s e => Unswept s e ∧ Exclusive s e) s) :
    s.Holds Kept Owned :=
  hr.invariant (fun _ => kept_initial) fun _ _ _ _ h hok hs => owned_step h hok.1 hok.2 hs

-- Whoever holds a record holds it through the one row of its key.
theorem holder_row (h : s.Holds Kept Owned) {k : RecordHash} {j : JobId} (hheld : HeldBy s k j) :
    ∃ row, s.store.records k = some row ∧ row.job_id = j := by
  rcases hheld with hrow | ⟨d, rfl, hd⟩
  · exact hrow
  · obtain ⟨row, hrow, hjob, -⟩ := h.2 d k hd
    exact ⟨row, hrow, hjob⟩

theorem held_of_sends {k : RecordHash} {j : JobId} (hsends : (j, k) ∈ sends s e) :
    HeldBy s k j := by
  have hkept : ∀ d slice, (s.procs d).pc = .send slice → k ∈ slice.kept →
      HeldBy s k (s.procs d).job_id := by
    intro d slice hpc hk
    refine .inr ⟨d, rfl, ?_⟩
    rw [hpc]
    exact (mem_keep.mp hk).2.1
  unfold sends at hsends
  split at hsends
  · split at hsends
    · rename_i hpc
      obtain ⟨k', hk', heq⟩ := List.mem_map.mp hsends
      cases heq
      exact hkept _ _ hpc hk'
    · rename_i hpc
      split at hsends
      · rename_i hmem
        cases List.mem_singleton.mp hsends
        exact hkept _ _ hpc hmem
      · cases hsends
    · cases hsends
  · cases hsends

theorem sends_at_most_once (cfg : Config) : SendsAtMostOnce cfg fun s e => Unswept s e ∧
    Exclusive s e := by
  refine ⟨fun s hr h j j' hj hj' => ?_, fun s hr j h _ hdelivered => ?_,
    fun s hr j h _ hdelivered s' hp e j' hsends => ?_⟩
  · obtain ⟨row, hrow, hjob⟩ := holder_row (owned_reach hr) hj
    obtain ⟨row', hrow', hjob'⟩ := holder_row (owned_reach hr) hj'
    rw [hrow] at hrow'
    cases hrow'
    exact hjob.symm.trans hjob'
  · obtain ⟨row, hrow, hjob, -⟩ := (owned_reach hr).1 j h hdelivered
    exact ⟨row, hrow, hjob⟩
  · have hinv := owned_reach (hr.path hp)
    have hstill : (j, h) ∈ s'.store.delivered := hp.invariant
      (I := fun s => (j, h) ∈ s.store.delivered)
      (fun _ _ _ hmem _ hs => delivered_step hs _ hmem) hdelivered
    obtain ⟨row, hrow, hjob, -⟩ := hinv.1 j h hstill
    obtain ⟨row', hrow', hjob'⟩ := holder_row hinv (held_of_sends hsends)
    rw [hrow] at hrow'
    cases hrow'
    exact hjob'.symm.trans hjob

-- Two jobs wait for a worker.
def twoJobs : DedupSystem where
  store :=
    { clock := 0, jobs := [.create_job 0 0 0,
      .create_job 1 1 0], processed_content := [], records := fun _ => none
      delivered := [], produced := [] }
  procs := fun _ => ⟨0, .idle⟩

-- Delivery `d` of the job comes to the destination with one record, the claim taking `n` steps.
def claimedRun (d : TaskId) (job_id : JobId) (n : ℕ) : List DedupEvent :=
  [.deliver d job_id, .go d .ok, .go d (.fetched [7] [])] ++ List.replicate (n + 2) (.go d .ok)

-- Of deliveries 0 and 1, the only ones, none releases what its job has delivered or what the
-- other one holds for the same job.
def exclusive (s : DedupSystem) : DedupEvent → Bool
  | .go d .ok => match (s.procs d).pc with
      | .release slice _ _ => slice.won.all fun h => !s.store.delivered.contains
          ((s.procs d).job_id, h) &&
          (List.range 2).all fun d' => d' == d || (s.procs d').job_id != (s.procs d).job_id ||
            !(s.procs d').pc.claims.contains h
      | _ => true
  | .purge_expired_content _ _ => false
  | _ => true

def ofTwo : DedupEvent → Bool
  | .deliver d _ | .go d _ => d < 2
  | _ => true

def IdleBehind (s : DedupSystem) : Prop := ∀ d, 2 ≤ d → (s.procs d).pc = .idle

theorem idleBehind_step (he : ofTwo e = true) (h : IdleBehind s) (hs : step cfg s e = some s') :
    IdleBehind s' := by
  have hset : ∀ {i : TaskId} {store : DedupStore} {p : RecordsDelivery}, i < 2 →
      IdleBehind (s.set i store p) := by
    intro i store p hi d hd
    rw [Pool.set_procs_of_ne s _ _ (Nat.ne_of_gt (Nat.lt_of_lt_of_le hi hd))]
    exact h d hd
  cases e with
  | deliver d job_id =>
      simp only [step, Option.ite_none_right_eq_some, Option.some.injEq] at hs
      rw [← hs.2]
      exact hset (of_decide_eq_true he)
  | go d choice =>
      obtain ⟨out, -, rfl⟩ := Option.map_eq_some_iff.mp hs
      exact hset (of_decide_eq_true he)
  | tick | manage =>
      simp only [step, Option.ite_none_right_eq_some, Option.some.injEq] at hs
      rw [← hs.2]
      exact h
  | purge_executions | purge_expired_content | purge_processed_content =>
      cases hs
      exact h

theorem of_exclusive (hidle : IdleBehind s) (h : exclusive s e = true) : Unswept s e ∧
    Exclusive s e := by
  cases e with
  | go d choice =>
      refine ⟨trivial, ?_⟩
      cases choice
      case ok =>
        intro slice by_ stats hpc k hk
        simp only [exclusive, hpc, List.all_eq_true, Bool.and_eq_true, Bool.not_eq_true',
          Bool.or_eq_true, beq_iff_eq,
          bne_iff_ne, List.mem_range, List.contains_eq_mem, decide_eq_false_iff_not] at h
        refine ⟨(h k hk).1, fun d' hne hjob => ?_⟩
        rcases Nat.lt_or_ge d' 2 with hlt | hle
        · exact ((h k hk).2 d' hlt).resolve_left fun hor => hor.elim hne (absurd hjob)
        · rw [hidle d' hle]
          exact List.not_mem_nil
      all_goals trivial
  | purge_expired_content => cases h
  | _ => exact ⟨trivial, trivial⟩

-- Two jobs share a record. The second one drops it, claims another, and releases that one when
-- its send fails; the first one sends.
def releasedRun : List DedupEvent :=
  claimedRun 0 0 3 ++ [.deliver 1 1, .go 1 .ok, .go 1 (.fetched [7, 8] [])] ++
    List.replicate 7 (.go 1 .ok) ++
    [.go 1 (.raised "down" ""), .go 1 .ok, .go 1 .ok, .go 0 .ok, .go 0 .ok]

theorem sends_at_most_once_released :
    ∃ s, Reach (step Config.defaults) Initial (fun s e => Unswept s e ∧ Exclusive s e) s ∧
    s.store.jobs.map (·.state) = [.completed, .failed] ∧ s.store.delivered = [(0, 7)] ∧
    (s.store.records 7).map (·.job_id) = some 0 ∧ s.store.records 8 = none := by
  obtain ⟨s, hr, htest⟩ := Reach.replay_within (step Config.defaults) Initial
    (fun s e => Unswept s e ∧ Exclusive s e)
    exclusive IdleBehind (fun _ _ => of_exclusive) (s := twoJobs)
      ⟨fun _ => rfl, rfl, rfl, fun _ => rfl⟩ (fun _ _ => rfl)
    releasedRun (fun e he _ _ h hs =>
      idleBehind_step (List.all_eq_true.mp (by decide : releasedRun.all ofTwo = true) e he) h hs)
    (fun s => decide (s.store.jobs.map (·.state) = [.completed, .failed] ∧
      s.store.delivered = [(0, 7)] ∧
      (s.store.records 7).map (·.job_id) = some 0 ∧ s.store.records 8 = none)) (by decide)
  exact ⟨s, hr, of_decide_eq_true htest⟩

-- A delivery loses its lease while it sends; the next one fails, and releases the claim
-- they share, before the first one is through.
def sharedRun : List DedupEvent :=
  claimedRun 0 0 3 ++ [.tick (301 * second),
    .manage [0] (.reclaim_expired_leases (301 * second))] ++
    claimedRun 1 0 4 ++ [.go 1 (.raised "down" ""), .go 1 .ok, .go 1 .ok, .go 0 .ok, .go 0 .ok]

def attended (s : DedupSystem) : DedupEvent → Bool
  | .go d (.raised _ _) => !statement (s.procs d).pc
  | .purge_expired_content _ _ => false
  | _ => true

theorem of_attended (h : attended s e = true) : Served s e ∧ Unswept s e := by
  cases e with
  | go d choice =>
      cases choice with
      | raised => exact ⟨by simpa [attended, Served] using h, trivial⟩
      | _ => exact ⟨trivial, trivial⟩
  | purge_expired_content => cases h
  | _ => exact ⟨trivial, trivial⟩

theorem sent_unclaimed : ¬∀ cfg : Config, SendsAtMostOnce cfg fun s e =>
    Served s e ∧ Unswept s e := by
  intro honce
  obtain ⟨s, hr, -, htest⟩ := Reach.replay (step Config.defaults) Initial
    (fun s e => Served s e ∧ Unswept s e)
    attended (fun _ _ => of_attended) (s := twoJobs)
      ⟨fun _ => rfl, rfl, rfl, fun _ => rfl⟩ sharedRun
    (fun s => s.store.jobs.any (fun row => row.job_id == 0 && row.state == .completed) &&
      s.store.delivered.contains (0, 7) && (s.store.records 7).isNone) (by decide)
  simp only [Bool.and_eq_true, List.any_eq_true, beq_iff_eq, List.contains_iff_mem,
    Option.isNone_iff_eq_none] at htest
  obtain ⟨⟨⟨row, hrow, hid, hstate⟩, hdelivered⟩, hnone⟩ := htest
  obtain ⟨claim, hclaim, -⟩ := (honce Config.defaults).stays_claimed s hr 0 7
    ⟨row, hrow, hid, hstate⟩ hdelivered
  rw [hnone] at hclaim
  cases hclaim

end DedupSystem

end Reflowfy
