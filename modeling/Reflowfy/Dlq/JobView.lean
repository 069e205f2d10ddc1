import Reflowfy.Dlq.Ownership

namespace Reflowfy.DLQScheduler

open Interleaving

-- How far the call that owns a job is with it.
inductive Phase
  | free
  | taken (job : DLQJob)
  | running (job : DLQJob)
  | written (write : JobWrite)
  | failed (error_msg : String)
  | handled (loaded : DLQJob) (write : JobWrite)

def JobWrite.completed : JobWrite → Bool
  | .update job => job.status = .completed
  | .archive _ => false

namespace Phase

-- The call has the row locked no longer.
def unlocked : Phase → Bool
  | free | failed _ | handled _ _ => true
  | _ => false

-- The call has run the job, and has not committed that yet.
def completed : Phase → Bool
  | written write => write.completed
  | _ => false

-- A failure that no commit has counted yet.
def owed : Phase → ℕ
  | written write => if write.completed then 0 else 1
  | failed _ => 1
  | handled _ _ => 1
  | _ => 0

end Phase

-- What the tables and the logs have about one job.
structure JobData where
  scheduled : Bool
  row : Option DLQJob
  archive : Option DLQJobArchive
  failures : ℕ
  started : ℕ
  dispatched : List ℕ
  cancelled : Bool

def JobData.write (d : JobData) : JobWrite → JobData
  | .update job => { d with row := some job }
  | .archive row => { d with row := none, archive := some row }

structure JobView where
  data : JobData
  phase : Phase

-- One job, as the calls that pass it by change it. `counted` and `final` say which of the
-- steps below are left out: those that lose a failure, and those that undo a success.
inductive JobStep (counted final : Prop) : JobView → JobView → Prop
  | schedule {d : JobData} {ph : Phase} {job : DLQJob} (hnew : d.scheduled = false)
      (hcount : job.retry_count = 0)
      (hpending : job.status = .pending) (hmax : counted → 1 ≤ job.max_retries) :
      JobStep counted final ⟨d, ph⟩ ⟨{ d with scheduled := true, row := some job }, ph⟩
  | take {d : JobData} {job : DLQJob} (hrow : d.row = some job) (hpending : job.status = .pending) :
      JobStep counted final ⟨d, .free⟩ ⟨d, .taken job⟩
  | start {d : JobData} {job : DLQJob} :
      JobStep counted final ⟨d, .taken job⟩ ⟨{ d with started := d.started + 1 }, .running job⟩
  | lock {d : JobData} {job : DLQJob} (hrow : d.row = some job) (hpending : job.status = .pending) :
      JobStep counted final ⟨d, .free⟩ ⟨{ d with started := d.started + 1 }, .running job⟩
  | returned {d : JobData} {job : DLQJob} {id : ℕ} {now : Int} :
      JobStep counted final ⟨d, .running job⟩
        ⟨{ d with dispatched := id :: d.dispatched },
          .written (.update (job.mark_completed id now))⟩
  | raised {d : JobData} {job : DLQJob} {error_msg : String} {now : Int} {write : JobWrite}
      (hwrite : job.handle_job_failure error_msg now = some write) :
      JobStep counted final ⟨d, .running job⟩
        ⟨{ d with failures := d.failures + 1 }, .written write⟩
  | commit {d : JobData} {write : JobWrite} :
      JobStep counted final ⟨d, .written write⟩ ⟨d.write write, .free⟩
  | completed {d : JobData} {job : DLQJob} {id : ℕ} {now : Int} :
      JobStep counted final ⟨d, .running job⟩
        ⟨{ d with
            row := some (job.mark_completed id now)
            dispatched := id :: d.dispatched }, .free⟩
  | rejected {d : JobData} {job : DLQJob} {error_msg : String} :
      JobStep counted final ⟨d, .running job⟩
        ⟨{ d with failures := d.failures + 1 }, .failed error_msg⟩
  | reload {d : JobData} {job : DLQJob} {error_msg : String} {now : Int} {write : JobWrite}
      (hrow : d.row = some job)
      (hwrite : job.handle_job_failure error_msg now = some write) :
      JobStep counted final ⟨d, .failed error_msg⟩ ⟨d, .handled job write⟩
  | gone {d : JobData} {error_msg : String} (hgone : counted → d.row = none) :
      JobStep counted final ⟨d, .failed error_msg⟩ ⟨d, .free⟩
  | recorded {d : JobData} {loaded new current : DLQJob} (hrow : d.row = some current) :
      JobStep counted final ⟨d, .handled loaded (.update new)⟩
        ⟨{ d with row := some (loaded.flush new current) }, .free⟩
  | archived {d : JobData} {loaded : DLQJob} {row : DLQJobArchive} (hnew : d.archive = none) :
      JobStep counted final ⟨d, .handled loaded (.archive row)⟩
        ⟨{ d with row := none, archive := some row }, .free⟩
  | stale {d : JobData} {loaded : DLQJob} {write : JobWrite}
      (hstale : d.row = none ∨ d.archive.isSome) :
      JobStep counted final ⟨d, .handled loaded write⟩ ⟨d, .free⟩
  | cancel {d : JobData} {ph : Phase} {job : DLQJob} (hrow : d.row = some job)
      (hunlocked : ph.unlocked)
      (hfinal : final → ph = .free ∧ job.status = .pending) :
      JobStep counted final ⟨d, ph⟩ ⟨{ d with row := some job.cancel, cancelled := true }, ph⟩
  | undo {d : JobData} {ph : Phase} (hcounted : ¬ counted) (hfinal : final → ph.completed = false) :
      JobStep counted final ⟨d, ph⟩ ⟨d, .free⟩
  | overflow {d : JobData} {job : DLQJob} (hcounted : ¬ counted) :
      JobStep counted final ⟨d, .running job⟩ ⟨{ d with failures := d.failures + 1 }, .free⟩
  | lost {v v' : JobView} (hcounted : ¬ counted) (hfinal : ¬ final) : JobStep counted final v v'

section View

variable (k : JobId)

def phaseIn (group rest : Jobs) (done : JobWrites) : Phase :=
  match done.lookup k with
  | some write => .written write
  | none =>
      match group.lookup k with
      | some job => .running job
      | none => ((rest.lookup k).map Phase.taken).getD .free

def DlqPc.phase : DlqPc → Phase
  | .batch groups done => phaseIn k [] groups.flatten done
  | .dispatch group groups done => phaseIn k group groups.flatten done
  | .manual_dispatch k' job => if k' = k then .running job else .free
  | .failed k' error_msg => if k' = k then .failed error_msg else .free
  | .handled k' loaded write => if k' = k then .handled loaded write else .free
  | _ => .free

def DlqStore.owner (s : DlqStore) : Option TaskId := (s.locks k).or (s.handling k)

def DlqStore.data (s : DlqStore) : JobData where
  scheduled := k < s.next_id
  row := s.jobs k
  archive := s.archive k
  failures := s.failures.count k
  started := s.started.count k
  dispatched := (s.dispatched.filter fun d => k ∈ d.dlq_job_ids).map Dispatched.execution_id
  cancelled := k ∈ s.cancelled

def DlqSystem.phase (s : DlqSystem) : Phase :=
  ((s.store.owner k).map fun i => (s.procs i).phase k).getD .free

def DlqSystem.view (s : DlqSystem) : JobView := ⟨s.store.data k, s.phase k⟩

end View

-- A rescheduling that a datetime can hold.
def DLQJob.fits (job : DLQJob) (now : Int) : Prop :=
  job.retry_count + 1 < job.max_retries →
    now + calculate_backoff (job.retry_count + 1) * minute ≤ DATETIME_MAX

-- No failure of the group is lost to its backoff.
def DlqPc.fits (s : DlqStore) : DlqPc → Prop
  | .dispatch group _ _ => ∀ p ∈ group, p.2.fits s.clock
  | .failed k _ => ∀ job ∈ s.jobs k, job.fits s.clock
  | _ => True

-- The open transaction has nothing to undo but failures.
def DlqPc.unfinished : DlqPc → Prop
  | .batch _ done => ∀ p ∈ done, p.2.completed = false
  | .dispatch _ _ done => ∀ p ∈ done, p.2.completed = false
  | _ => True

def DispatchOutcome.saved : DispatchOutcome → Bool
  | returned _ | raised _ => true
  | _ => false

def DispatchOutcome.raises : DispatchOutcome → Bool
  | raised _ => true
  | _ => false

-- The steps that count every failure: no statement fails, no pod dies, no backoff is out of
-- a datetime's range.
def Counted (s : DlqSystem) : DlqEvent → Prop
  | .schedule _ _ _ max_retries => 1 ≤ max_retries
  | .go i => (s.procs i).fits s.store
  | .outcome i outcome => outcome.saved ∧ (outcome.raises → (s.procs i).fits s.store)
  | .abort _ => False
  | _ => True

-- When a cancel writes, no call has committed another status since its SELECT, and none has
-- given up the lock of the row with a failure still to commit.
def DlqPc.undisturbed (s : DlqStore) : DlqPc → Prop
  | .cancelling k loaded => s.handling k = none ∧ ∀ job ∈ s.jobs k, job.status = loaded.1.status
  | _ => True

-- The steps that keep a success: none is rolled back, and nothing comes between the two
-- statements of a cancel.
def Final (s : DlqSystem) : DlqEvent → Prop
  | .go i => (s.procs i).undisturbed s.store
  | .outcome i outcome => outcome.saved ∧
      (outcome.raises → (s.procs i).unfinished ∨ (s.procs i).fits s.store)
  | .abort i => (s.procs i).unfinished
  | _ => True

variable {c f : Prop} {s : DlqSystem} {i j : TaskId} {k : JobId}

-- A job is passed by, or makes a step.
def Moves (c f : Prop) (v v' : JobView) : Prop := v' = v ∨ JobStep c f v v'

structure Base (s : DlqSystem) : Prop where
  apart : Apart s.store
  owned : ∀ i, Owned s.store i (s.procs i)

section Owner

theorem notMem_keys_nil {α : Type} (k : JobId) :
    k ∉ ([] : List (JobId × α)).map Prod.fst := List.not_mem_nil

theorem phaseIn_free {group rest : Jobs} {done : JobWrites} (hgroup : k ∉ group.map Prod.fst)
    (hrest : k ∉ rest.map Prod.fst) (hdone : k ∉ done.map Prod.fst) :
      phaseIn k group rest done = .free := by
  simp only [phaseIn, lookup_eq_none_of_notMem hgroup, lookup_eq_none_of_notMem hrest,
    lookup_eq_none_of_notMem hdone]
  rfl

theorem phase_free {pc : DlqPc} (hheld : k ∉ pc.held) (hwindow : k ∉ pc.window) :
    pc.phase k = .free := by
  cases pc with
  | batch groups done =>
      simp only [DlqPc.held, List.mem_append, not_or] at hheld
      exact phaseIn_free (notMem_keys_nil k) hheld.1 hheld.2
  | dispatch group groups done =>
      simp only [DlqPc.held, List.mem_append, not_or] at hheld
      exact phaseIn_free hheld.1.1 hheld.1.2 hheld.2
  | manual_dispatch k' job => exact if_neg fun h => hheld (by simp [DlqPc.held, h])
  | failed k' error_msg => exact if_neg fun h => hwindow (by simp [DlqPc.window, h])
  | handled k' loaded write => exact if_neg fun h => hwindow (by simp [DlqPc.window, h])
  | _ => rfl

theorem owner_eq_some_iff {s : DlqStore} (hapart : Apart s) :
    s.owner k = some i ↔ s.locks k = some i ∨ s.handling k = some i := by
  unfold DlqStore.owner
  rcases hapart k with h | h
  · simp [h]
  · cases hlock : s.locks k <;> simp [h]

theorem Base.owner_iff (h : Base s) : s.store.owner k = some i ↔ k ∈ (s.procs i).held ∨
    k ∈ (s.procs i).window := by
  rw [owner_eq_some_iff h.apart, (h.owned i).locked k, (h.owned i).handling k]

theorem Base.phase_of_owner (h : s.store.owner k = some i) : s.phase k = (s.procs i).phase k := by
  simp [DlqSystem.phase, h]

-- A job that nobody else owns is where the call of `i` has it.
theorem Base.phase_mine (h : Base s) (hmine : ∀ j, j ≠ i → s.store.owner k ≠ some j) :
    s.phase k = (s.procs i).phase k := by
  cases howner : s.store.owner k with
  | some j =>
      have hji : j = i := by
        by_contra hne
        exact hmine j hne howner
      rw [Base.phase_of_owner howner, hji]
  | none =>
      have hnot : ¬(k ∈ (s.procs i).held ∨ k ∈ (s.procs i).window) := by
        rw [← h.owner_iff, howner]
        exact nofun
      rw [not_or] at hnot
      rw [phase_free hnot.1 hnot.2]
      simp [DlqSystem.phase, howner]

-- What a step of `i` does to the jobs, given what it does to those that are its own or
-- nobody's, and to those of the others.
theorem Base.set (h : Base s) {store : DlqStore} {pc : DlqPc} (hapart : Apart store)
    (hown : Owned store i pc) (hsame : ∀ j, j ≠ i → OwnsSame j s.store store)
    (hothers : ∀ j k, j ≠ i → s.store.owner k = some j →
      Moves c f ⟨s.store.data k, (s.procs j).phase k⟩ ⟨store.data k, (s.procs j).phase k⟩)
    (hmine : ∀ k, (∀ j, j ≠ i → s.store.owner k ≠ some j) →
      Moves c f ⟨s.store.data k, (s.procs i).phase k⟩ ⟨store.data k, pc.phase k⟩) :
    Base (s.set i store pc) ∧ ∀ k, Moves c f (s.view k) (DlqSystem.view k (s.set i store pc)) := by
  have hbase : Base (s.set i store pc) :=
    ⟨hapart, fun j => Pool.forall_set hown (fun j hj => (h.owned j).other (hsame j hj)) j⟩
  refine ⟨hbase, fun k => ?_⟩
  by_cases hk : ∃ j, j ≠ i ∧ s.store.owner k = some j
  · obtain ⟨j, hj, howner⟩ := hk
    have howner' : DlqStore.owner k (s.set i store pc).store = some j := by
      rw [hbase.owner_iff, Pool.set_procs_of_ne _ _ _ hj, ← h.owner_iff]
      exact howner
    have hphase : DlqSystem.phase k (s.set i store pc) = (s.procs j).phase k := by
      rw [Base.phase_of_owner howner', Pool.set_procs_of_ne _ _ _ hj]
    simp only [DlqSystem.view, hphase, Base.phase_of_owner howner]
    exact hothers j k hj howner
  · have hmine' : ∀ j, j ≠ i → s.store.owner k ≠ some j := fun j hj howner => hk ⟨j, hj, howner⟩
    have hnext : ∀ j, j ≠ i → DlqStore.owner k (s.set i store pc).store ≠ some j := by
      intro j hj howner
      rw [hbase.owner_iff, Pool.set_procs_of_ne _ _ _ hj, ← h.owner_iff] at howner
      exact hmine' j hj howner
    have hphase := hbase.phase_mine hnext
    rw [Pool.set_procs_self] at hphase
    simp only [DlqSystem.view, hphase, h.phase_mine hmine']
    exact hmine k hmine'

end Owner

end Reflowfy.DLQScheduler
