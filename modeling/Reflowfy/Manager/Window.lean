import Reflowfy.Manager.Jobs
import Reflowfy.Manager.Phases
import Mathlib.Data.List.Perm.Basic

namespace Reflowfy

open Interleaving

-- Dispatched or running.
def JobState.in_flight : JobState → Bool
  | dispatched | running => true
  | _ => false

def in_flight (jobs : List Job) : ℕ := jobs.countP (·.state.in_flight)

-- The jobs in flight and those of `ids`, however they stand.
def in_window (ids : List JobId) (jobs : List Job) : ℕ :=
  jobs.countP fun job => job.state.in_flight || ids.contains job.job_id

-- ORDER BY batch_number, created_at.
def Job.Ordered (a b : Job) : Prop :=
  a.batch_number < b.batch_number ∨ a.batch_number = b.batch_number ∧ a.created_at ≤ b.created_at

instance : DecidableRel Job.Ordered := fun a b =>
  inferInstanceAs (Decidable (a.batch_number < b.batch_number ∨ a.batch_number = b.batch_number ∧
    a.created_at ≤ b.created_at))

-- Rows that tie in that order come as the database likes; they may come otherwise with each query.
inductive WindowEvent
  | manager (e : Event)
  | reorder (jobs : List Job)

def Manager.windowStep (cfg : Config) (s : Manager) : WindowEvent → Option Manager
  | .manager e => step cfg s e
  | .reorder jobs =>
      if jobs.Perm s.store.jobs ∧ jobs.Pairwise Job.Ordered then
        some { s with store := { s.store with jobs } } else none

namespace Proc

-- The jobs that a dispatch loop has fetched, and not yet sent and marked or failed.
def batch : Proc → Option Batch
  | .drive _ (.producer _ batch) => some batch
  | .drive _ (.should_stop _ batch _) => some batch
  | .drive _ (.check_heartbeat _ batch _) => some batch
  | .drive _ (.check_state _ batch _) => some batch
  | .drive _ (.acquire_token _ batch) => some batch
  | .drive _ (.send _ batch) => some batch
  | .drive _ (.on_sent _ batch) => some batch
  | .drive _ (.on_unsendable _ batch _) => some batch
  | .drive _ (.execute_job _ batch _) => some batch
  | _ => none

-- A loop that has counted the jobs and is not through with what it may then send.
def dispatching (p : Proc) : Bool :=
  match p with
  | .drive _ (.fetch _ _) => true
  | p => p.batch.isSome

-- What is taken of the window: the jobs in flight, and what a dispatching loop may still send.
def held (jobs : List Job) (p : Proc) : ℕ :=
  match p with
  | .drive _ (.fetch _ limit) => in_flight jobs + limit
  | p => match p.batch with
    | some batch => in_window batch.jobs jobs
    | none => in_flight jobs

end Proc

section Counts

variable {jobs : List Job} {ids : List JobId}

theorem in_flight_eq (jobs : List Job) :
    (get_job_counts jobs).dispatched + (get_job_counts jobs).running = in_flight jobs := by
  simp only [get_job_counts, in_flight]
  induction jobs with
  | nil => rfl
  | cons job jobs ih =>
      simp only [List.countP_cons]
      have hstate : (if decide (job.state = .dispatched) = true then 1 else 0) +
          (if decide (job.state = .running) = true then 1 else 0) = if job.state.in_flight =
              true then 1 else 0 := by
        cases job.state <;> rfl
      omega

theorem in_flight_le_in_window (ids : List JobId) (jobs : List Job) :
    in_flight jobs ≤ in_window ids jobs := by
  apply List.countP_mono_left
  intro job _ h
  simp [h]

-- Distinct rows: no more of them are of `ids` than there are ids.
theorem countP_contains_le (hnodup : (jobs.map (·.job_id)).Nodup) (ids : List JobId) :
    jobs.countP (fun job => ids.contains job.job_id) ≤ ids.length := by
  have hnodup' : ((jobs.filter fun job => ids.contains job.job_id).map (·.job_id)).Nodup :=
    hnodup.sublist (List.filter_sublist.map _)
  have hsubset : (jobs.filter fun job => ids.contains job.job_id).map (·.job_id) ⊆ ids := by
    intro job_id hmem
    obtain ⟨job, hjob, rfl⟩ := List.mem_map.mp hmem
    simpa using (List.mem_filter.mp hjob).2
  have hle := (List.subperm_of_subset hnodup' hsubset).length_le
  rwa [List.length_map, ← List.countP_eq_length_filter] at hle

theorem countP_or_le {β : Type} (f g : β → Bool) (l : List β) :
    l.countP (fun x => f x || g x) ≤ l.countP f + l.countP g := by
  induction l with
  | nil => exact Nat.le_refl _
  | cons x l ih =>
      have hhead : (if (f x || g x) = true then 1 else 0) ≤ (if f x = true then 1 else 0) + if g x =
          true then 1 else 0 := by
        cases f x <;> cases g x <;> simp
      simp only [List.countP_cons]
      omega

theorem in_window_le (hnodup : (jobs.map (·.job_id)).Nodup) (ids : List JobId) :
    in_window ids jobs ≤ in_flight jobs + ids.length := by
  have hids := countP_contains_le hnodup ids
  have hor : in_window ids jobs ≤ in_flight jobs + jobs.countP fun job =>
    ids.contains job.job_id := countP_or_le ..
  omega

end Counts

section Statements

variable {cfg : Config} {s : Store} {stmt : Stmt}

-- A job comes into flight when it is marked or claimed, and by nothing else.
theorem JobStmt.in_flight_of_set {stmt : JobStmt} {now : Int} {job : Job}
    (h : (stmt.set now job).state.in_flight = true) :
    job.state.in_flight = true ∨ (stmt = .mark_job_dispatched ∨ stmt = .claim_job) ∧
      job.state = .pending := by
  cases stmt <;> simp only [set] at h
  case mark_job_dispatched =>
    rw [Job.mark_job_dispatched_state] at h
    split at h
    · exact .inr ⟨.inl rfl, ‹_›⟩
    · exact .inl h
  case claim_job =>
    rw [Job.claim_job_state] at h
    split at h
    · rename_i hunstarted
      cases hstate : job.state
      case pending => exact .inr ⟨.inr rfl, rfl⟩
      case dispatched => exact .inl rfl
      all_goals
        rw [hstate] at hunstarted
        cases hunstarted
    · exact .inl h
  case heartbeat_job =>
    rw [Job.heartbeat_job_state] at h
    exact .inl h
  case update_job_in_db stats =>
    rw [Job.update_job_in_db_state] at h
    have hsettled := stats.state_settled
    cases hstate : stats.state <;> rw [hstate] at h hsettled
    case dispatched | running => cases hsettled
    all_goals cases h
  case update_job_state_failed => cases h
  all_goals exact .inl h

theorem Stmt.in_flight_of_onJob {now : Int} {job : Job}
    (h : (stmt.onJob cfg now job).state.in_flight = true) :
    job.state.in_flight = true ∨
      (stmt = .job job.job_id .mark_job_dispatched ∨ stmt = .job job.job_id .claim_job) ∧
      job.state = .pending := by
  cases stmt <;> simp only [onJob] at h
  case job job_id jobStmt =>
    split at h
    · rename_i hid
      subst hid
      rcases JobStmt.in_flight_of_set h with hold | ⟨rfl | rfl, hpending⟩
      · exact .inl hold
      · exact .inr ⟨.inl rfl, hpending⟩
      · exact .inr ⟨.inr rfl, hpending⟩
    · exact .inl h
  case cancel_unstarted_jobs =>
    rw [Job.cancel_unstarted_jobs_state] at h
    split at h
    · cases h
    · exact .inl h
  case requeue_failed error_contains =>
    rw [Job.requeue_failed_state] at h
    split at h
    · cases h
    · exact .inl h
  case requeue_orphans =>
    rw [Job.requeueOrphan_state] at h
    split at h
    · cases h
    · exact .inl h
  case reclaim_expired_leases sweep =>
    rcases Job.reclaim_cases cfg sweep job with ⟨-, -, hf⟩ | ⟨-, -, hf⟩ | ⟨-, hf⟩ | ⟨-, -, hsame⟩
    · rw [hf] at h
      cases h
    · rw [hf] at h
      cases h
    · rw [hf] at h
      cases h
    · rw [hsame] at h
      exact .inl h
  all_goals exact .inl h

-- What no row gains is gained by no row that stays, and new rows are waiting.
theorem Stmt.countP_run_le {f : Job → Bool}
    (hold : ∀ job ∈ s.jobs, f (stmt.onJob cfg s.clock job) = true → f job = true)
    (hnew : s.execution.isSome → ∀ job ∈ stmt.created s.clock, f job = false) :
    (stmt.run cfg s).jobs.countP f ≤ s.jobs.countP f := by
  by_cases hpurge : ∃ cutoff doomed, stmt = .purge_executions cutoff doomed
  · obtain ⟨cutoff, doomed, rfl⟩ := hpurge
    simp only [run, purge]
    split
    · split
      · exact Nat.zero_le _
      · exact Nat.le_refl _
    · exact List.filter_sublist.countP_le
  · rw [run_jobs cfg s fun cutoff doomed hp => hpurge ⟨cutoff, doomed, hp⟩,
      List.countP_append, List.countP_map]
    have hcreated : (if s.execution.isSome then stmt.created s.clock else []).countP f = 0 := by
      rw [List.countP_eq_zero]
      intro job hjob
      split at hjob
      · simp [hnew ‹_› job hjob]
      · cases hjob
    have hmap : s.jobs.countP (f ∘ stmt.onJob cfg s.clock) ≤ s.jobs.countP f :=
      List.countP_mono_left hold
    omega

theorem Stmt.created_waiting {now : Int} {job : Job} (h : job ∈ stmt.created now) :
    job.state = .pending := by
  cases stmt <;> simp only [created, List.not_mem_nil, List.mem_map] at h
  obtain ⟨_, _, rfl⟩ := h
  rfl

-- A statement that brings no job into flight but those of `ids` takes no more of the window.
theorem Stmt.in_window_run_le {ids ids' : List JobId} (hids : ∀ job_id ∈ ids', job_id ∈ ids)
    (hin : ∀ job ∈ s.jobs, job.state = .pending →
      (stmt = .job job.job_id .mark_job_dispatched ∨ stmt = .job job.job_id .claim_job) →
      job.job_id ∈ ids)
    (hnew : s.execution.isSome → ∀ job ∈ stmt.created s.clock, job.job_id ∉ ids) :
    in_window ids' (stmt.run cfg s).jobs ≤ in_window ids s.jobs := by
  have hmono : in_window ids' (stmt.run cfg s).jobs ≤ in_window ids (stmt.run cfg s).jobs := by
    apply List.countP_mono_left
    intro job _ h
    simp only [Bool.or_eq_true, List.contains_iff_mem] at h ⊢
    exact h.imp_right (hids _)
  refine Nat.le_trans hmono (Stmt.countP_run_le ?_ ?_)
  · intro job hjob h
    simp only [Bool.or_eq_true, List.contains_iff_mem, Stmt.onJob_job_id] at h ⊢
    rcases h with hflight | hmem
    · rcases Stmt.in_flight_of_onJob hflight with hold | ⟨hstmt, hpending⟩
      · exact .inl hold
      · exact .inr (hin job hjob hpending hstmt)
    · exact .inr hmem
  · intro hsome job hjob
    simp [Stmt.created_waiting hjob, JobState.in_flight, hnew hsome job hjob]

theorem in_window_nil (jobs : List Job) : in_window [] jobs = in_flight jobs := by
  simp [in_window, in_flight]

theorem Stmt.in_flight_run_le (hin : ∀ job ∈ s.jobs, job.state = .pending →
      ¬(stmt = .job job.job_id .mark_job_dispatched ∨ stmt = .job job.job_id .claim_job)) :
    in_flight (stmt.run cfg s).jobs ≤ in_flight s.jobs := by
  rw [← in_window_nil, ← in_window_nil]
  exact Stmt.in_window_run_le (fun _ h => h)
    (fun job hjob hpending hstmt => (hin job hjob hpending hstmt).elim)
    fun _ _ _ => List.not_mem_nil

-- A statement on one row brings one job into flight at most.
theorem Stmt.in_window_claim_le (hnodup : (s.jobs.map (·.job_id)).Nodup) (ids : List JobId)
    (job_id : JobId) (stmt : JobStmt) :
    in_window ids ((Stmt.job job_id stmt).run cfg s).jobs ≤ in_window ids s.jobs + 1 := by
  have hone : in_window ids ((Stmt.job job_id stmt).run cfg s).jobs ≤ in_window
      (job_id :: ids) s.jobs := by
    apply Stmt.in_window_run_le
    · intro other hother
      exact List.mem_cons_of_mem _ hother
    · intro job _ _ hstmt
      rcases hstmt with heq | heq <;> cases heq <;> exact List.mem_cons_self
    · intro _ job hjob
      cases hjob
  have hsplit : in_window (job_id :: ids) s.jobs ≤
      in_window ids s.jobs + s.jobs.countP fun job => [job_id].contains job.job_id := by
    refine Nat.le_trans (Nat.le_of_eq ?_) (countP_or_le ..)
    apply List.countP_congr
    intro job _
    simp only [Bool.or_eq_true, List.contains_iff_mem, List.mem_cons, List.not_mem_nil]
    grind
  have hid := countP_contains_le hnodup [job_id]
  simp only [List.length_singleton] at hid
  omega

end Statements

end Reflowfy
