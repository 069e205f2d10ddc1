import Reflowfy.JobManager

namespace Reflowfy.Job

@[simp] theorem mark_job_dispatched_state (now : Int) (job : Job) :
    (job.mark_job_dispatched now).state =
      if job.state = .pending then .dispatched else job.state := by
  unfold mark_job_dispatched
  split <;> simp_all

@[simp] theorem mark_job_dispatched_updated_at (now : Int) (job : Job) :
    (job.mark_job_dispatched now).updated_at = now := by
  simp only [mark_job_dispatched]
  split <;> rfl

@[simp] theorem cancel_unstarted_jobs_state (now : Int) (job : Job) :
    (job.cancel_unstarted_jobs now).state =
      if job.state.unstarted then .cancelled else job.state := by
  unfold cancel_unstarted_jobs
  split <;> rfl

@[simp] theorem requeue_failed_state (like : String → String → Bool)
    (error_contains : Option String)
    (now : Int) (job : Job) :
    (job.requeue_failed like error_contains now).state =
      if job.retryable like error_contains then .pending else job.state := by
  unfold requeue_failed
  split <;> rfl

theorem failed_of_retryable {like : String → String → Bool}
    {error_contains : Option String} {job : Job}
    (h : job.retryable like error_contains = true) : job.state = .failed := by
  unfold retryable at h
  exact of_decide_eq_true (Bool.and_eq_true_iff.mp h).1

@[simp] theorem requeueOrphan_state (now : Int) (job : Job) :
    (job.requeueOrphan now).state =
      if job.state = .dispatched ∨ job.state = .running then .pending else job.state := by
  unfold requeueOrphan
  split <;> rfl

@[simp] theorem claim_job_state (now : Int) (job : Job) :
    (job.claim_job now).state = if job.state.unstarted then .running else job.state := by
  unfold claim_job
  split <;> rfl

@[simp] theorem heartbeat_job_state (now : Int) (job : Job) :
    (job.heartbeat_job now).state = job.state := by
  unfold heartbeat_job
  split <;> simp_all

@[simp] theorem update_job_in_db_state (stats : JobStats) (now : Int) (job : Job) :
    (job.update_job_in_db stats now).state = stats.state := rfl

@[simp] theorem update_job_state_failed_state (reason : String) (now : Int) (job : Job) :
    (job.update_job_state_failed reason now).state = .failed := rfl

theorem running_of_staleRunning {cfg : Config} {now : Int} {job : Job}
    (h : job.staleRunning cfg now = true) : job.state = .running := by
  unfold staleRunning at h
  exact of_decide_eq_true (Bool.and_eq_true_iff.mp h).1

theorem dispatched_of_staleDispatched {cfg : Config} {now : Int} {job : Job}
    (h : job.staleDispatched cfg now = true) : job.state = .dispatched := by
  unfold staleDispatched at h
  exact of_decide_eq_true (Bool.and_eq_true_iff.mp h).1

theorem requeueRunning_of_ne (cfg : Config) (now : Int) {job : Job} (h : job.state ≠ .running) :
    job.requeueRunning cfg now = job := by
  simp [requeueRunning, staleRunning, h]

theorem requeueDispatched_of_ne (cfg : Config) (now : Int) {job : Job}
    (h : job.state ≠ .dispatched) :
    job.requeueDispatched cfg now = job := by
  simp [requeueDispatched, staleDispatched, h]

-- What one sweep does to a row: a lost worker's job fails or goes back, a lost
-- message's job goes back, any other row is left as it is.
theorem reclaim_cases (cfg : Config) (now : Int) (job : Job) :
    (job.staleRunning cfg now = true ∧ cfg.JOB_MAX_ATTEMPTS ≤ job.attempts ∧
      (job.reclaim_expired_leases cfg now).state = .failed) ∨
    (job.staleRunning cfg now = true ∧ job.attempts < cfg.JOB_MAX_ATTEMPTS ∧
      (job.reclaim_expired_leases cfg now).state = .pending) ∨
    (job.staleDispatched cfg now = true ∧ (job.reclaim_expired_leases cfg now).state = .pending) ∨
    (job.staleRunning cfg now = false ∧ job.staleDispatched cfg now = false ∧
      job.reclaim_expired_leases cfg now = job) := by
  unfold reclaim_expired_leases
  cases hr : job.staleRunning cfg now with
  | true =>
      by_cases ha : cfg.JOB_MAX_ATTEMPTS ≤ job.attempts
      · have hf : (job.failOutOfAttempts cfg now).state = .failed := by
          simp [failOutOfAttempts, hr, ha]
        refine .inl ⟨rfl, ha, ?_⟩
        rw [requeueRunning_of_ne cfg now (by simp [hf]), requeueDispatched_of_ne cfg now
          (by simp [hf]), hf]
      · have hf : job.failOutOfAttempts cfg now = job := by simp [failOutOfAttempts, ha]
        have hp : (job.requeueRunning cfg now).state = .pending := by simp [requeueRunning, hr]
        refine .inr (.inl ⟨rfl, Nat.lt_of_not_le ha, ?_⟩)
        rw [hf, requeueDispatched_of_ne cfg now (by simp [hp]), hp]
  | false =>
      have hf : job.failOutOfAttempts cfg now = job := by simp [failOutOfAttempts, hr]
      have hq : job.requeueRunning cfg now = job := by simp [requeueRunning, hr]
      rw [hf, hq]
      cases hd : job.staleDispatched cfg now with
      | true => exact .inr (.inr (.inl ⟨rfl, by simp [requeueDispatched, hd]⟩))
      | false => exact .inr (.inr (.inr ⟨rfl, rfl, by simp [requeueDispatched, hd]⟩))

theorem reclaim_eq_self {cfg : Config} {now : Int} {job : Job}
    (hr : job.staleRunning cfg now = false) (hd : job.state ≠ .dispatched) :
    job.reclaim_expired_leases cfg now = job := by
  rcases reclaim_cases cfg now job with ⟨h, _⟩ | ⟨h, _⟩ | ⟨h, _⟩ | ⟨_, _, h⟩
  · simp [hr] at h
  · simp [hr] at h
  · exact absurd (dispatched_of_staleDispatched h) hd
  · exact h

section JobId

variable (cfg : Config) (now : Int) (job : Job)

@[simp] theorem mark_job_dispatched_job_id : (job.mark_job_dispatched now).job_id = job.job_id := by
  simp only [mark_job_dispatched]
  split <;> rfl

@[simp] theorem cancel_unstarted_jobs_job_id :
    (job.cancel_unstarted_jobs now).job_id = job.job_id := by
  unfold cancel_unstarted_jobs
  split <;> rfl

@[simp] theorem requeue_failed_job_id (like : String → String → Bool)
    (error_contains : Option String) :
    (job.requeue_failed like error_contains now).job_id = job.job_id := by
  unfold requeue_failed
  split <;> rfl

@[simp] theorem requeueOrphan_job_id : (job.requeueOrphan now).job_id = job.job_id := by
  unfold requeueOrphan
  split <;> rfl

@[simp] theorem claim_job_job_id : (job.claim_job now).job_id = job.job_id := by
  unfold claim_job
  split <;> rfl

@[simp] theorem heartbeat_job_job_id : (job.heartbeat_job now).job_id = job.job_id := by
  unfold heartbeat_job
  split <;> rfl

@[simp] theorem reclaim_expired_leases_job_id :
    (job.reclaim_expired_leases cfg now).job_id = job.job_id := by
  have hfail : ∀ row : Job, (row.failOutOfAttempts cfg now).job_id = row.job_id := fun row => by
    unfold failOutOfAttempts
    split <;> rfl
  have hrunning : ∀ row : Job, (row.requeueRunning cfg now).job_id = row.job_id := fun row => by
    unfold requeueRunning
    split <;> rfl
  have hdispatched : ∀ row : Job, (row.requeueDispatched cfg now).job_id =
      row.job_id := fun row => by
    unfold requeueDispatched
    split <;> rfl
  rw [reclaim_expired_leases, hdispatched, hrunning, hfail]

end JobId

end Reflowfy.Job
