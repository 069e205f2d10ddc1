import Reflowfy.Dedup.AtMostOnce
import Reflowfy.Manager.Effects

namespace Reflowfy

open Interleaving

namespace ClaimPc

variable {tx : TaskId} {job_id : JobId} {now : Int} {records records' : Records}
    {pc pc' : ClaimPc} {h : RecordHash}

-- A record that the transaction is past and has not won has shown it a row.
theorem passed_of_steps (hsteps : pc.Steps tx job_id now records records' pc')
    (hrest : h ∉ pc'.rest) (hgained : h ∉ pc'.gained) : (h ∉ pc.rest ∧ h ∉ pc.gained) ∨
      ∃ row, records h = some row ∧ (row.tx = none ∨ row.tx = some tx) := by
  cases hsteps with
  | @inserts k rows inserted taken won parts hfree =>
      simp only [gained, rest_insert, List.mem_append, List.mem_singleton, not_or] at hrest hgained
      simp [gained, hrest, hgained]
  | @passes k rows inserted taken won parts row hrow hfree =>
      by_cases hk : h = k
      · subst hk
        exact .inr ⟨row, hrow, hfree⟩
      · refine .inl ⟨?_, hgained⟩
        simp only [rest_insert, List.mem_append, not_or] at hrest
        simp [hk, hrest]
  | won_all =>
      rw [rest_nextPart] at hrest
      rw [gained_nextPart] at hgained
      exact .inl ⟨hrest, hgained⟩
  | asks => exact .inl ⟨hrest, hgained⟩
  | owns =>
      rw [rest_nextPart] at hrest
      rw [gained_nextPart, List.mem_append, not_or] at hgained
      exact .inl ⟨hrest, hgained.1⟩
  | commits => exact .inl ⟨hrest, hgained⟩

-- A row that the transaction has seen is there until its end, and then committed.
theorem seen_of_steps (hsteps : pc.Steps tx job_id now records records' pc') {row : ProcessedRecord}
    (hrow : records h = some row) (htx : row.tx = none ∨ row.tx = some tx) :
    ∃ row', records' h = some row' ∧
      (row'.tx = none ∨ ((∀ won, pc' ≠ done won) ∧ row'.tx = some tx)) := by
  cases hsteps with
  | inserts hfree => exact ⟨row, Records.insert_of_some hfree hrow,
      htx.imp_right fun htx => ⟨by simp, htx⟩⟩
  | passes | asks => exact ⟨row, hrow, htx.imp_right fun htx => ⟨by simp, htx⟩⟩
  | won_all | owns => exact ⟨row, hrow, htx.imp_right fun htx =>
      ⟨fun won => nextPart_ne_done _ won _, htx⟩⟩
  | commits =>
      by_cases hown : row.tx = some tx
      · exact ⟨_, Records.commit_of_eq hrow hown, .inl rfl⟩
      · exact ⟨row, Records.commit_of_ne hrow hown, .inl (htx.resolve_right hown)⟩

-- It inserts rows of its job, and changes the job of none.
theorem job_of_steps (hsteps : pc.Steps tx job_id now records records' pc') {row' : ProcessedRecord}
    (hrow' : records' h = some row') : (∃ row, records h = some row ∧ row.job_id = row'.job_id) ∨
      row'.job_id = job_id ∧ ∃ rows inserted taken won parts, pc = insert (h :: rows) inserted
        taken won parts := by
  cases hsteps with
  | @inserts k rows inserted taken won parts hfree =>
      by_cases hk : h = k
      · subst hk
        rw [Records.insert_self] at hrow'
        cases hrow'
        exact .inr ⟨rfl, rows, inserted, taken, won, parts, rfl⟩
      · rw [Records.insert_of_ne _ hk] at hrow'
        exact .inl ⟨row', hrow', rfl⟩
  | passes | won_all | asks | owns => exact .inl ⟨row', hrow', rfl⟩
  | commits =>
      obtain ⟨row, hrow, rfl⟩ := Option.map_eq_some_iff.mp hrow'
      refine .inl ⟨row, hrow, ?_⟩
      split <;> rfl

end ClaimPc

theorem RecordsPc.mem_dropped_claimed {records : List RecordHash} {now : Int} {pc : ClaimPc}
    {h : RecordHash} :
    h ∈ (claimed records now pc).dropped ↔ h ∈ records ∧ h ∉ pc.rest ∧ h ∉ pc.gained := by
  cases pc with
  | done won =>
      rcases claimed_done records now won with ⟨-, hend⟩ | hgo
      · rw [hend]
        simp [dropped, JobStats.duplicate, JobStats.sent, ClaimPc.gained]
      · rw [hgo]
        simp [dropped, ClaimPc.gained]
  | _ => simp [claimed, dropped]

namespace DedupStore

def Delivered (s : DedupStore) (h : RecordHash) : Prop := ∃ j, (j, h) ∈ s.delivered

def Unfinished (s : DedupStore) (job_id : JobId) : Prop :=
  ∃ row ∈ s.jobs, row.job_id = job_id ∧ row.state.unfinished = true

-- The row of the record is the job's, committed or not.
def Claims (s : DedupStore) (job_id : JobId) (h : RecordHash) : Prop :=
  ∃ claim, s.records h = some claim ∧ claim.job_id = job_id

end DedupStore

namespace DedupSystem

-- Claims from before are those of jobs that are still to be done.
def Fresh (s : DedupSystem) : Prop := Initial s ∧ ∀ j h, s.store.Claims j h → s.store.Unfinished j

-- Once every job is finished, what the successful ones produced has been delivered.
def LosesNothing (cfg : Config) (Ok : DedupSystem → DedupEvent → Prop) : Prop :=
  ∀ s, Reach (step cfg) Fresh Ok s → (∀ row ∈ s.store.jobs, row.state.unfinished = false) →
    ∀ j h, (∃ row ∈ s.store.jobs, row.job_id = j ∧ row.state.succeeded = true) →
      (j, h) ∈ s.store.produced →
      s.store.Delivered h

-- Nobody has delivered the record, and some delivery goes on without it, or some job that
-- had it was reported to have succeeded.
def Relied (s : DedupSystem) (h : RecordHash) : Prop :=
  ((∃ j, (j, h) ∈ s.store.produced) ∨ ∃ d, h ∈ (s.procs d).pc.dropped) ∧ ¬s.store.Delivered h

-- What happens to a claim after its INSERT. While another delivery relies on it, it is
-- neither released nor swept; and its job, unfinished when it claims, is not brought to an
-- end before the record is delivered, except by a report of success with the claim.
-- The upgrade guard, which looks at no record, drops no job.
def Honoured (cfg : Config) (s : DedupSystem) : DedupEvent → Prop
  | .go d .ok =>
      match (s.procs d).pc with
      | .held _ job_hashes => held_by_other_job s.store.processed_content job_hashes
          (s.procs d).job_id = false
      | .claiming _ _ (.insert (_ :: _) _ _ _ _) => s.store.Unfinished (s.procs d).job_id
      | .release slice _ _ => ∀ h ∈ slice.won, ∀ claim, s.store.records h = some claim →
          claim.job_id = (s.procs d).job_id → claim.tx = none → ¬s.Relied h
      | .report slice stats _ => ∀ h, s.store.Claims (s.procs d).job_id h →
          (stats.success = true → h ∉ slice.won) →
          s.store.Delivered h
      | _ => True
  | .manage run stmt => ∀ job_id ∈ run, ∀ h, s.store.Claims job_id h → ¬s.store.Delivered h →
      ∀ row ∈ s.store.jobs, row.job_id = job_id → row.state.unfinished = true →
        (stmt.onJob cfg s.store.clock row).state.unfinished = true
  | .purge_executions run => ∀ job_id ∈ run, s.store.Unfinished job_id →
      ∀ h, s.store.Claims job_id h →
      s.store.Delivered h
  | .purge_expired_content cutoff selected => ∀ h ∈ selected, ∀ claim,
      s.store.records h = some claim →
      claim.created_at < cutoff → claim.tx = none → ¬s.Relied h
  | _ => True

-- A job that holds an undelivered record is at it; and what successful jobs had is
-- delivered, or claimed.
structure Accounted (store : DedupStore) : Prop where
  holder : ∀ j h, store.Claims j h → store.Delivered h ∨ store.Unfinished j
  produced : ∀ j h, (j, h) ∈ store.produced → store.Delivered h ∨
    ∃ claim, store.records h = some claim ∧ claim.tx = none

-- So is what a delivery goes on without; within its own transaction it may be its own claim.
structure Reported (store : DedupStore) (d : TaskId) (p : RecordsDelivery) : Prop where
  told : p.pc.Told store p.job_id
  dropped : ∀ h ∈ p.pc.dropped, store.Delivered h ∨ ∃ claim, store.records h = some claim ∧
    (claim.tx = none ∨ (p.pc.inTransaction = true ∧ claim.tx = some d))

variable {cfg : Config} {s s' : DedupSystem} {e : DedupEvent} {store store' : DedupStore}

theorem accounted_initial (h : Fresh s) : s.Holds Accounted Reported := by
  obtain ⟨⟨-, -, hproduced, hidle⟩, hclaims⟩ := h
  refine ⟨⟨fun j k hk => .inr (hclaims j k hk), fun j k hk => ?_⟩, fun d => ⟨?_, fun k hk => ?_⟩⟩
  · rw [hproduced] at hk
    cases hk
  · rw [hidle d]
    trivial
  · rw [hidle d] at hk
    cases hk

theorem delivered_mono {k : RecordHash} (hdelivered : ∀ x ∈ store.delivered, x ∈ store'.delivered)
    (h : store.Delivered k) : store'.Delivered k := by
  obtain ⟨j, hj⟩ := h
  exact ⟨j, hdelivered _ hj⟩

theorem told_mono {pc : RecordsPc} {job_id : JobId}
    (hdelivered : ∀ x ∈ store.delivered, x ∈ store'.delivered)
    (h : pc.Told store job_id) : pc.Told store' job_id := by
  cases pc with
  | report slice stats caught => exact fun hsuccess k hk => hdelivered _ (h hsuccess k hk)
  | _ => exact h

-- Deliveries are never undone, and rows of records that a delivery relies on stay.
theorem Reported.mono {d : TaskId} {p : RecordsDelivery} (h : Reported store d p)
    (hdelivered : ∀ x ∈ store.delivered, x ∈ store'.delivered)
    (hrows : ∀ k ∈ p.pc.dropped, ¬store.Delivered k → ∀ claim, store.records k = some claim →
      (claim.tx = none ∨ claim.tx = some d) → store'.records k = some claim) :
        Reported store' d p where
  told := told_mono hdelivered h.told
  dropped k hk := by
    by_cases hdone : store.Delivered k
    · exact .inl (delivered_mono hdelivered hdone)
    · obtain ⟨claim, hclaim, htx⟩ := (h.dropped k hk).resolve_left hdone
      exact .inr ⟨claim, hrows k hk hdone claim hclaim (htx.imp_right And.right), htx⟩

theorem Reported.quiet {d : TaskId} {job_id : JobId} {pc pc' : RecordsPc}
    (h : Reported store d ⟨job_id, pc⟩)
    (hquiet : pc.Quiet pc') : Reported store d ⟨job_id, pc'⟩ where
  told := hquiet.told store job_id h.told
  dropped k hk := by
    obtain ⟨hold, hopen⟩ := hquiet.dropped k hk
    rcases h.dropped k hold with hdone | ⟨claim, hclaim, htx⟩
    · exact .inl hdone
    · exact .inr ⟨claim, hclaim, htx.imp_right fun ho => ⟨hopen ho.1, ho.2⟩⟩

-- The store, when no row is added, and the rows of what is relied on stay.
theorem Accounted.mono (h : Accounted store) (hproduced : store'.produced = store.produced)
    (hdelivered : ∀ x ∈ store.delivered, x ∈ store'.delivered)
    (hholder : ∀ j k, store'.Claims j k → store.Claims j k)
    (hjobs : ∀ j k, store.Claims j k → ¬store.Delivered k → store.Unfinished j →
      store'.Unfinished j)
    (hrows : ∀ j k, (j, k) ∈ store.produced → ¬store.Delivered k →
      ∀ claim, store.records k = some claim → claim.tx = none →
      store'.records k = some claim) : Accounted store' where
  holder j k hk := by
    by_cases hdone : store.Delivered k
    · exact .inl (delivered_mono hdelivered hdone)
    · have hold := hholder j k hk
      exact .inr (hjobs j k hold hdone ((h.holder j k hold).resolve_left hdone))
  produced j k hk := by
    rw [hproduced] at hk
    by_cases hdone : store.Delivered k
    · exact .inl (delivered_mono hdelivered hdone)
    · obtain ⟨claim, hclaim, htx⟩ := (h.produced j k hk).resolve_left hdone
      exact .inr ⟨claim, hrows j k hk hdone claim hclaim htx, htx⟩

-- A statement on rows leaves a job unfinished that it does not finish.
theorem unfinished_map {j : JobId} {f : Job → Job} (created : List Job)
    (hjobs : store'.jobs = store.jobs.map f ++ created) (hid : ∀ row, (f row).job_id = row.job_id)
    (hstate : ∀ row ∈ store.jobs, row.job_id = j → row.state.unfinished = true →
      (f row).state.unfinished = true)
    (h : store.Unfinished j) : store'.Unfinished j := by
  obtain ⟨row, hrow, hj, hunfinished⟩ := h
  refine ⟨f row, ?_, (hid row).trans hj, hstate row hrow hj hunfinished⟩
  rw [hjobs]
  exact List.mem_append_left _ (List.mem_map_of_mem hrow)

theorem unfinished_exec {stmt : Stmt} {j : JobId} (hstate : ∀ row ∈ store.jobs, row.job_id = j →
    row.state.unfinished = true → (stmt.onJob cfg store.clock row).state.unfinished = true)
      (h : store.Unfinished j) :
    (store.exec cfg stmt).Unfinished j :=
  unfinished_map [] (List.append_nil _).symm (fun _ => Stmt.onJob_job_id ..) hstate h

theorem unfinished_of_claim {stmt : JobStmt} (hstmt : stmt = .claim_job ∨ stmt = .heartbeat_job)
    {row : Job} {now : Int}
    (h : row.state.unfinished = true) : (stmt.set now row).state.unfinished = true := by
  rcases hstmt with rfl | rfl
  · rw [JobStmt.set, Job.claim_job_state]
    split
    · rfl
    · exact h
  · rw [JobStmt.set, Job.heartbeat_job_state]
    exact h

theorem onJob_of_ne {job_id : JobId} {stmt : JobStmt} {row : Job} {now : Int}
    (h : row.job_id ≠ job_id) :
    (Stmt.job job_id stmt).onJob cfg now row = row := if_neg h

-- What a transaction has come to and not won has shown it a row, and that stays.
theorem reported_claims {d : TaskId} {job_id : JobId} {records : List RecordHash}
    {now : Int} {table : Records}
    {pc pc' : ClaimPc} (hsteps : pc.Steps d job_id now store.records table pc')
    (h : Reported store d ⟨job_id, .claiming records now pc⟩) :
    Reported { store with records := table } d ⟨job_id, RecordsPc.claimed records now pc'⟩ where
  told := RecordsPc.told_claimed now (List.Subset.trans hsteps.named_subset h.told)
  dropped k hk := by
    obtain ⟨hmem, hrest, hgained⟩ := RecordsPc.mem_dropped_claimed.mp hk
    have hseen : store.Delivered k ∨ ∃ claim, store.records k = some claim ∧
        (claim.tx = none ∨ claim.tx = some d) := by
      rcases ClaimPc.passed_of_steps hsteps hrest hgained with hpast | hrow
      · rcases h.dropped k (List.mem_filter.mpr ⟨hmem, by simpa using hpast⟩) with
          hdone | ⟨claim, hclaim, htx⟩
        · exact .inl hdone
        · exact .inr ⟨claim, hclaim, htx.imp_right And.right⟩
      · exact .inr hrow
    rcases hseen with hdone | ⟨claim, hclaim, htx⟩
    · exact .inl hdone
    · obtain ⟨claim', hclaim', htx'⟩ := ClaimPc.seen_of_steps hsteps hclaim htx
      refine .inr ⟨claim', hclaim', htx'.imp_right fun ⟨hopen, hown⟩ => ⟨?_, hown⟩⟩
      rw [RecordsPc.claimed_of_ne_done hopen]
      rfl

-- The claims of a transaction are its job's, which is unfinished when it makes them.
theorem accounted_claims {d : TaskId} {job_id : JobId} {table : Records} {pc pc' : ClaimPc}
    {now : Int} (hsteps : pc.Steps d job_id now store.records table pc') (h : Accounted store)
    (hworking : ∀ k rows inserted taken won parts, pc = .insert
      (k :: rows) inserted taken won parts →
      store.Unfinished job_id) : Accounted { store with records := table } where
  holder j k hk := by
    obtain ⟨claim, hclaim, rfl⟩ := hk
    rcases ClaimPc.job_of_steps hsteps hclaim with
      ⟨old, hold, hjob⟩ | ⟨hjob, rows, inserted, taken, won, parts, hpc⟩
    · exact h.holder _ k ⟨old, hold, hjob⟩
    · rw [hjob]
      exact .inr (hworking k rows inserted taken won parts hpc)
  produced j k hk := by
    rcases h.produced j k hk with hdone | ⟨claim, hclaim, htx⟩
    · exact .inl hdone
    · exact .inr ⟨claim, hsteps.keeps hclaim (by simp [htx]), htx⟩

-- A report ends its job: what that claims beyond what it has sent has been delivered. What
-- it had and did not send, it has dropped.
theorem accounted_reports {d : TaskId} {job_id : JobId} {slice : Slice}
    {stats : JobStats} {caught : Bool}
    (h : Accounted store) (hown : Reported store d ⟨job_id, .report slice stats caught⟩)
    (hok : ∀ k, store.Claims job_id k → (stats.success = true → k ∉ slice.won) →
      store.Delivered k) :
    Accounted ((store.exec cfg (.job job_id (.update_job_in_db stats))).produce job_id
      (if stats.success then slice.records else [])) where
  holder j k hk := by
    by_cases hj : j = job_id
    · subst hj
      by_cases hwon : stats.success = true ∧ k ∈ slice.won
      · exact .inl ⟨j, hown.told hwon.1 k hwon.2⟩
      · exact .inl (hok k hk fun hsuccess hmem => hwon ⟨hsuccess, hmem⟩)
    · rcases h.holder j k hk with hdone | hunfinished
      · exact .inl hdone
      · exact .inr (unfinished_exec
          (fun row _ hrow hstate => by rwa [onJob_of_ne (hrow.trans_ne hj)]) hunfinished)
  produced j k hk := by
    rcases List.mem_append.mp hk with hnew | hold
    · obtain ⟨k', hk', heq⟩ := List.mem_map.mp hnew
      cases heq
      split at hk'
      · rename_i hsuccess
        by_cases hwon : k ∈ slice.won
        · exact .inl ⟨job_id, hown.told hsuccess k hwon⟩
        · have hdropped : k ∈ (RecordsPc.report slice stats caught).dropped := by
            rw [RecordsPc.dropped, if_pos hsuccess]
            exact List.mem_filter.mpr ⟨hk', by simpa using hwon⟩
          rcases hown.dropped k hdropped with hdone | ⟨claim, hclaim, htx⟩
          · exact .inl hdone
          · exact .inr ⟨claim, hclaim, htx.resolve_right fun hopen => by cases hopen.1⟩
      · cases hk'
    · exact h.produced j k hold

theorem accounted_go {d : TaskId} {job_id : JobId} {choice : WorkChoice} {pc : RecordsPc}
    (h : s.Holds Accounted Reported)
    (hok : Honoured cfg s (.go d choice)) (hjob : (s.procs d).job_id = job_id)
    (hworks : (s.procs d).pc.Works cfg d job_id s.store choice store pc) :
    (s.set d store ⟨job_id, pc⟩).Holds Accounted Reported := by
  have hown : Reported s.store d ⟨job_id, (s.procs d).pc⟩ := hjob ▸ h.2 d
  have hrelied : ∀ j k, k ∈ (s.procs j).pc.dropped → ¬s.store.Delivered k → s.Relied k :=
    fun j k hk hdone => ⟨.inr ⟨j, hk⟩, hdone⟩
  have hmine := hrelied d
  generalize hpc : (s.procs d).pc = pc₀ at hworks hown hmine
  cases hworks with
  | skip hquiet => exact Pool.Holds.set h h.1 (hown.quiet hquiet) fun _ _ hj => hj
  | row stmt hstmt hquiet =>
      refine Pool.Holds.set h
        (h.1.mono rfl (fun _ hx => hx) (fun _ _ hk => hk) (fun j k _ _ => unfinished_exec
        fun row _ _ hrow => ?_) fun _ _ _ _ _ hclaim _ => hclaim) ?_ fun j _ hj =>
          hj.mono (fun _ hx => hx) fun _ _ _ _ hclaim _ => hclaim
      · by_cases hid : row.job_id = job_id
        · rw [Stmt.onJob, if_pos hid]
          exact unfinished_of_claim hstmt hrow
        · rwa [onJob_of_ne hid]
      · exact (hown.quiet hquiet).mono (fun _ hx => hx) fun _ _ _ _ hclaim _ => hclaim
  | @guarded records job_hashes hguard =>
      simp only [Honoured, hpc, hjob] at hok
      rw [hok] at hguard
      cases hguard
  | @claims records now claims table claims' hsteps =>
      refine Pool.Holds.set h (accounted_claims hsteps h.1 ?_) (reported_claims hsteps hown)
        fun j hj hj' => ?_
      · rintro k rows inserted taken won parts rfl
        simp only [Honoured, hpc, hjob] at hok
        exact hok
      · refine hj'.mono (fun _ hx => hx) fun k _ _ claim hclaim htx => hsteps.keeps hclaim ?_
        rcases htx with htx | htx <;> simp [htx, hj]
  | aborts hquiet =>
      have hended : ∀ store, Reported store d ⟨job_id, .ended⟩ :=
        fun _ => ⟨trivial, fun k hk => absurd hk List.not_mem_nil⟩
      refine Pool.Holds.set h
        (h.1.mono rfl (fun _ hx => hx) (fun j k hk => ?_) (fun _ _ _ _ hrow => hrow)
        fun j k _ _ claim hclaim htx => Records.rollback_of_ne hclaim (by simp [htx]))
          ((hended _).quiet hquiet) fun j hj hj' => ?_
      · obtain ⟨claim, hclaim, hid⟩ := hk
        exact ⟨claim, (Option.filter_eq_some_iff.mp hclaim).1, hid⟩
      · refine hj'.mono (fun _ hx => hx) fun k _ _ claim hclaim htx =>
          Records.rollback_of_ne hclaim ?_
        rcases htx with htx | htx <;> simp [htx, hj]
  | @wrote slice k hkept =>
      have hdelivered : ∀ x ∈ s.store.delivered, x ∈ (s.store.deliver job_id [k]).delivered :=
        fun x hx => List.mem_append_right _ hx
      exact Pool.Holds.set h (h.1.mono rfl hdelivered (fun _ _ hk => hk) (fun _ _ _ _ hrow => hrow)
        fun _ _ _ _ _ hclaim _ => hclaim)
            (hown.mono hdelivered fun _ _ _ _ hclaim _ => hclaim) fun j _ hj =>
          hj.mono hdelivered fun _ _ _ _ hclaim _ => hclaim
  | @sent slice =>
      have hdelivered : ∀ x ∈ s.store.delivered,
          x ∈ (s.store.deliver job_id slice.kept).delivered :=
        fun x hx => List.mem_append_right _ hx
      refine Pool.Holds.set h (h.1.mono rfl hdelivered (fun _ _ hk => hk) (fun _ _ _ _ hrow => hrow)
        fun _ _ _ _ _ hclaim _ => hclaim)
            ⟨fun _ k hk => ?_, ?_⟩ fun j _ hj =>
          hj.mono hdelivered fun _ _ _ _ hclaim _ => hclaim
      · -- what the delivery has won it has kept, and so sent
        have hkept : k ∈ slice.kept := mem_keep.mpr ⟨hown.told hk, hk, List.not_mem_nil⟩
        exact List.mem_append_left _ (List.mem_map_of_mem hkept)
      · exact (hown.mono hdelivered fun _ _ _ _ hclaim _ => hclaim).dropped
  | @releases slice by_ stats =>
      simp only [Honoured, hpc, hjob] at hok
      have hkeeps : ∀ k, s.Relied k → ∀ claim, s.store.records k = some claim →
          s.store.records.release_record_hashes slice.won job_id k = some claim :=
        fun k hk claim hclaim => Records.release_of_not hclaim fun hmem hid htx =>
          hok k hmem claim hclaim hid htx hk
      refine Pool.Holds.set h
        (h.1.mono rfl (fun _ hx => hx) (fun j k hk => ?_) (fun _ _ _ _ hrow => hrow)
        fun j k hk hdone claim hclaim _ => hkeeps k ⟨.inl ⟨j, hk⟩, hdone⟩ claim hclaim)
            ⟨?_, fun k hk => ?_⟩ fun j _ hj =>
          hj.mono (fun _ hx => hx) fun k hk hdone claim hclaim _ =>
            hkeeps k (hrelied j k hk hdone) claim hclaim
      · obtain ⟨claim, hclaim, hid⟩ := hk
        exact ⟨claim, (Option.filter_eq_some_iff.mp hclaim).1, hid⟩
      · exact RecordsPc.told_reportBy hown.told
      · rw [RecordsPc.dropped_reportBy] at hk
        by_cases hdone : s.store.Delivered k
        · exact .inl hdone
        · obtain ⟨claim, hclaim, htx⟩ := (hown.dropped k hk).resolve_left hdone
          exact .inr ⟨claim, hkeeps k (hmine k hk hdone) claim hclaim,
            .inl (htx.resolve_right fun hopen => by cases hopen.1)⟩
  | @reports slice stats caught =>
      refine Pool.Holds.set h (accounted_reports h.1 hown ?_)
          ⟨trivial, fun k hk => absurd hk List.not_mem_nil⟩ fun j _ hj =>
        hj.mono (fun _ hx => hx) fun _ _ _ _ hclaim _ => hclaim
      simp only [Honoured, hpc, hjob] at hok
      exact hok

-- A statement of the environment leaves every delivery where it is.
theorem holds_environment (h : s.Holds Accounted Reported) (haccounted : Accounted store)
    (hdelivered : store.delivered = s.store.delivered)
    (hrows : ∀ k, s.Relied k → ∀ claim, s.store.records k = some claim →
      store.records k = some claim) : Pool.Holds Accounted Reported { s with store } :=
  ⟨haccounted, fun d => (h.2 d).mono (fun _ hx => hdelivered ▸ hx) fun k hk hdone claim hclaim _ =>
    hrows k ⟨.inr ⟨d, hk⟩, hdone⟩ claim hclaim⟩

theorem accounted_step (h : s.Holds Accounted Reported) (hok : Honoured cfg s e)
    (hs : step cfg s e = some s') :
    s'.Holds Accounted Reported := by
  cases e with
  | tick now =>
      simp only [step, Option.ite_none_right_eq_some, Option.some.injEq] at hs
      obtain ⟨-, rfl⟩ := hs
      exact holds_environment h ⟨h.1.holder, h.1.produced⟩ rfl fun _ _ _ hclaim => hclaim
  | deliver d job_id =>
      simp only [step, Option.ite_none_right_eq_some, Option.some.injEq] at hs
      obtain ⟨-, rfl⟩ := hs
      exact Pool.Holds.set h h.1 ⟨trivial, fun k hk => absurd hk List.not_mem_nil⟩ fun _ _ hj => hj
  | go d choice =>
      obtain ⟨⟨store, pc⟩, hgo, rfl⟩ := Option.map_eq_some_iff.mp hs
      exact accounted_go h hok rfl (RecordsPc.works_of_go hgo)
  | manage run stmt =>
      simp only [step, Option.ite_none_right_eq_some, Option.some.injEq] at hs
      obtain ⟨-, rfl⟩ := hs
      refine holds_environment h
          (h.1.mono rfl (fun _ hx => hx) (fun _ _ hk => hk) (fun j k hk hdone =>
        unfinished_map (stmt.created s.store.clock) rfl
          (fun row => ?_) fun row hrow hid hstate => ?_)
        fun _ _ _ _ _ hclaim _ => hclaim) rfl fun _ _ _ hclaim => hclaim
      · split
        · exact Stmt.onJob_job_id ..
        · rfl
      · split
        · rename_i hrun
          rw [List.contains_iff_mem, hid] at hrun
          exact hok j hrun k hk hdone row hrow hid hstate
        · exact hstate
  | purge_executions run =>
      cases hs
      refine holds_environment h
        (h.1.mono rfl (fun _ hx => hx) (fun _ _ hk => hk) (fun j k hk hdone hunfinished => ?_)
        fun _ _ _ _ _ hclaim _ => hclaim) rfl fun _ _ _ hclaim => hclaim
      have hout : j ∉ run := fun hrun => hdone (hok j hrun hunfinished k hk)
      obtain ⟨row, hrow, rfl, hstate⟩ := hunfinished
      exact ⟨row, List.mem_filter.mpr ⟨hrow, by simpa using hout⟩, rfl, hstate⟩
  | purge_expired_content cutoff selected =>
      cases hs
      have hkeeps : ∀ k, s.Relied k → ∀ claim, s.store.records k = some claim →
          s.store.records.purge_expired_content cutoff selected k = some claim :=
        fun k hk claim hclaim => Records.purge_of_recent hclaim fun hmem htx => by
          by_contra hexpired
          exact hok k hmem claim hclaim (Int.not_le.mp hexpired) htx hk
      refine holds_environment h
        (h.1.mono rfl (fun _ hx => hx) (fun j k hk => ?_) (fun _ _ _ _ hrow => hrow)
        fun j k hk hdone claim hclaim _ => hkeeps k ⟨.inl ⟨j, hk⟩, hdone⟩ claim hclaim) rfl hkeeps
      obtain ⟨claim, hclaim, hid⟩ := hk
      exact ⟨claim, (Option.filter_eq_some_iff.mp hclaim).1, hid⟩
  | purge_processed_content selected =>
      cases hs
      exact holds_environment h ⟨h.1.holder, h.1.produced⟩ rfl fun _ _ _ hclaim => hclaim

theorem loses_nothing (cfg : Config) : LosesNothing cfg (Honoured cfg) := by
  intro s hr hfinished j h _ hproduced
  have hinv : s.Holds Accounted Reported :=
    hr.invariant (fun _ => accounted_initial) fun _ _ _ _ h hok hs => accounted_step h hok hs
  rcases hinv.1.produced j h hproduced with hdelivered | ⟨claim, hclaim, -⟩
  · exact hdelivered
  · rcases hinv.1.holder claim.job_id h ⟨claim, hclaim, rfl⟩ with
      hdelivered | ⟨row, hrow, -, hunfinished⟩
    · exact hdelivered
    · rw [hfinished row hrow] at hunfinished
      cases hunfinished

-- The second job drops the record of the first one, whose send then fails.
def droppedRun : List DedupEvent :=
  claimedRun 0 0 3 ++ [.deliver 1 1, .go 1 .ok, .go 1 (.fetched [7] [])] ++
    List.replicate 6 (.go 1 .ok) ++
    [.go 0 (.raised "down" ""), .go 0 .ok, .go 0 .ok]

theorem fresh_twoJobs : Fresh twoJobs := by
  refine ⟨⟨fun _ => rfl, rfl, rfl, fun _ => rfl⟩, fun j h hclaims => ?_⟩
  obtain ⟨claim, hclaim, -⟩ := hclaims
  cases hclaim

section Run

-- What a delivery may still insert.
def ahead : RecordsPc → List RecordHash
  | .held records _ => records
  | .claiming _ _ claims => claims.rest
  | _ => []

-- Only these records have rows, or will have.
def Within (hashes : List RecordHash) (s : DedupSystem) : Prop :=
  (∀ h ∉ hashes, s.store.records h = none) ∧ ∀ d, ahead (s.procs d).pc ⊆ hashes

-- Deliveries whose calls all return, and whose sources give these records.
def plain (hashes : List RecordHash) : DedupEvent → Bool
  | .deliver _ _ | .go _ .ok => true
  | .go _ (.fetched records _) => records.all hashes.contains
  | _ => false

variable {hashes : List RecordHash}

theorem within_claims {tx : TaskId} {job_id : JobId} {now : Int} {records records' : Records}
    {pc pc' : ClaimPc}
    (hsteps : pc.Steps tx job_id now records records' pc') (hrows : ∀ h ∉ hashes, records h = none)
    (hrest : pc.rest ⊆ hashes) : (∀ h ∉ hashes, records' h = none) ∧ pc'.rest ⊆ hashes := by
  cases hsteps with
  | @inserts k rows _ _ _ _ hfree =>
      obtain ⟨hk, hrest⟩ := List.cons_subset.mp hrest
      refine ⟨fun h hh => ?_, hrest⟩
      have hne : h ≠ k := by
        rintro rfl
        exact hh hk
      rw [Records.insert_of_ne _ hne]
      exact hrows h hh
  | passes => exact ⟨hrows, (List.cons_subset.mp hrest).2⟩
  | won_all | owns => exact ⟨hrows, by simpa using hrest⟩
  | asks => exact ⟨hrows, hrest⟩
  | commits => exact ⟨fun h hh => by rw [Records.commit, hrows h hh]; rfl, List.nil_subset _⟩

theorem ahead_claimed (records : List RecordHash) (now : Int) (pc : ClaimPc) :
    ahead (RecordsPc.claimed records now pc) ⊆ pc.rest := by
  cases pc with
  | done won =>
      simp only [RecordsPc.claimed]
      split <;> exact List.nil_subset _
  | _ => exact List.Subset.refl _

theorem within_go {d : TaskId} {job_id : JobId} {s s' : DedupStore} {pc pc' : RecordsPc}
    {choice : WorkChoice}
    (hplain : plain hashes (.go d choice) = true) (hrows : ∀ h ∉ hashes, s.records h = none)
    (hahead : ahead pc ⊆ hashes) (h : pc.go cfg d job_id s choice = some (s', pc')) :
    (∀ h ∉ hashes, s'.records h = none) ∧ ahead pc' ⊆ hashes := by
  cases choice with
  | ok =>
      cases pc with
      | claim | blocked =>
          cases h
          refine ⟨hrows, ?_⟩
          split <;> exact List.nil_subset _
      | held records job_hashes =>
          cases h
          refine ⟨hrows, ?_⟩
          split
          · exact List.nil_subset _
          · intro k hk
            rw [ahead, ClaimPc.rest_claim_record_hashes] at hk
            exact hahead (mem_fromkeys.mp hk)
      | claiming records now claims =>
          obtain ⟨⟨table, claims'⟩, hstep, heq⟩ := Option.map_eq_some_iff.mp h
          cases heq
          obtain ⟨hrows', hrest⟩ := within_claims (ClaimPc.steps_of_step hstep) hrows hahead
          exact ⟨hrows', List.Subset.trans (ahead_claimed records now claims') hrest⟩
      | release slice by_ stats =>
          cases h
          refine ⟨fun k hk => by simp [Records.release_record_hashes, hrows k hk], ?_⟩
          cases by_ <;> exact List.nil_subset _
      | health_check | send | report | closing => cases h; exact ⟨hrows, List.nil_subset _⟩
      | idle | fetch | ended => cases h
  | fetched records job_hashes =>
      cases pc with
      | fetch =>
          cases h
          refine ⟨hrows, ?_⟩
          split
          · exact List.nil_subset _
          · intro k hk
            exact List.contains_iff_mem.mp (List.all_eq_true.mp hplain k hk)
      | release _ by_ _ => cases by_ <;> cases h
      | report _ _ caught | closing _ caught => cases caught <;> cases h
      | _ => cases h
  | _ => cases hplain

theorem within_step (hplain : plain hashes e = true) (h : Within hashes s)
    (hs : step cfg s e = some s') :
    Within hashes s' := by
  cases e with
  | deliver d job_id =>
      simp only [step, Option.ite_none_right_eq_some, Option.some.injEq] at hs
      obtain ⟨-, rfl⟩ := hs
      exact ⟨h.1, Pool.forall_set (B := fun _ (p : RecordsDelivery) => ahead p.pc ⊆ hashes)
        (List.nil_subset _) fun k _ => h.2 k⟩
  | go d choice =>
      obtain ⟨⟨store, pc⟩, hgo, rfl⟩ := Option.map_eq_some_iff.mp hs
      obtain ⟨hrows, hahead⟩ := within_go hplain h.1 (h.2 d) hgo
      exact ⟨hrows, Pool.forall_set (B := fun _ (p : RecordsDelivery) => ahead p.pc ⊆ hashes)
        hahead fun k _ => h.2 k⟩
  | _ => cases hplain

-- Where only these records have rows: nobody claims for a finished job, releases, or reports
-- with a claim of its job undelivered that it does not hold itself.
def honoured (hashes : List RecordHash) (s : DedupSystem) (e : DedupEvent) : Bool :=
  plain hashes e && match e with
    | .go d .ok => match (s.procs d).pc with
        | .held _ job_hashes => !held_by_other_job s.store.processed_content job_hashes
            (s.procs d).job_id
        | .claiming _ _ (.insert (_ :: _) _ _ _ _) =>
            s.store.jobs.any fun row => row.job_id == (s.procs d).job_id && row.state.unfinished
        | .release _ _ _ => false
        | .report slice stats _ => hashes.all fun h =>
            (s.store.records h).all (·.job_id != (s.procs d).job_id) ||
              (stats.success && slice.won.contains h) ||
              s.store.delivered.any (·.2 == h)
        | _ => true
    | _ => true

theorem of_honoured (hwithin : Within hashes s) (h : honoured hashes s e = true) :
    Honoured cfg s e := by
  simp only [honoured, Bool.and_eq_true] at h
  obtain ⟨hplain, h⟩ := h
  cases e with
  | go d choice =>
      cases choice
      case ok =>
        simp only [Honoured]
        split
        · rename_i hpc
          simpa [hpc] using h
        · rename_i hpc
          simp only [hpc, List.any_eq_true, Bool.and_eq_true, beq_iff_eq] at h
          exact h
        · rename_i hpc
          simp [hpc] at h
        · rename_i slice stats caught hpc
          rintro k ⟨claim, hclaim, hid⟩ hwon
          have hmem : k ∈ hashes := by
            by_contra hnot
            rw [hwithin.1 k hnot] at hclaim
            cases hclaim
          simp only [hpc, List.all_eq_true, Bool.or_eq_true, Bool.and_eq_true,
            List.any_eq_true, beq_iff_eq,
            List.contains_iff_mem] at h
          rcases h k hmem with (hother | ⟨hsuccess, hmine⟩) | ⟨⟨j, k'⟩, hdelivered, rfl⟩
          · simp [hclaim, hid] at hother
          · exact absurd hmine (hwon hsuccess)
          · exact ⟨j, hdelivered⟩
        · trivial
      all_goals trivial
  | deliver => trivial
  | _ => cases hplain

-- The second job drops the record of the first one, which then sends it.
theorem loses_nothing_dropped :
    ∃ s, Reach (step Config.defaults) Fresh (Honoured Config.defaults) s ∧
    s.store.jobs.map (·.state) = [.completed, .deduplicated] ∧ (1, 7) ∈ s.store.produced ∧
    s.store.delivered = [(0, 7)] := by
  let es := claimedRun 0 0 3 ++ [.deliver 1 1, .go 1 .ok, .go 1 (.fetched [7] [])] ++
    List.replicate 7 (.go 1 .ok) ++
    [.go 0 .ok, .go 0 .ok]
  obtain ⟨s, hr, htest⟩ := Reach.replay_within (step Config.defaults) Fresh
    (Honoured Config.defaults) (honoured [7])
    (Within [7]) (fun _ _ => of_honoured) (s := twoJobs) fresh_twoJobs
      ⟨fun _ _ => rfl, fun _ => List.nil_subset _⟩ es
    (fun e he _ _ h hs =>
      within_step (List.all_eq_true.mp (by decide : es.all (plain [7]) = true) e he) h hs)
    (fun s => decide (s.store.jobs.map (·.state) = [.completed, .deduplicated] ∧
      (1, 7) ∈ s.store.produced ∧
      s.store.delivered = [(0, 7)])) (by decide)
  exact ⟨s, hr, of_decide_eq_true htest⟩

end Run

theorem record_lost : ¬∀ cfg : Config, LosesNothing cfg fun s e => Served s e ∧ Unswept s e := by
  intro hloses
  obtain ⟨s, hr, -, htest⟩ := Reach.replay (step Config.defaults) Fresh
    (fun s e => Served s e ∧ Unswept s e)
    attended (fun _ _ => of_attended) (s := twoJobs) fresh_twoJobs droppedRun
    (fun s => s.store.jobs.all (fun row => !row.state.unfinished) &&
      s.store.jobs.any (fun row => row.job_id == 1 && row.state.succeeded) &&
        s.store.produced.contains (1, 7) &&
      s.store.delivered.isEmpty) (by decide)
  simp only [Bool.and_eq_true, List.all_eq_true, Bool.not_eq_true', List.any_eq_true, beq_iff_eq,
    List.contains_iff_mem, List.isEmpty_iff] at htest
  obtain ⟨⟨⟨hfinished, row, hrow, hid, hstate⟩, hproduced⟩, hnone⟩ := htest
  obtain ⟨j, hj⟩ := hloses Config.defaults s hr hfinished 1 7 ⟨row, hrow, hid, hstate⟩ hproduced
  rw [hnone] at hj
  cases hj

end DedupSystem

end Reflowfy
