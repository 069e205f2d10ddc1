import Reflowfy.Worker.Statements

namespace Reflowfy

namespace Job

-- Started at most JOB_MAX_ATTEMPTS times, and fewer while it waits for a worker.
def WithinAttempts (cfg : Config) (job : Job) : Prop :=
  job.attempts ≤ cfg.JOB_MAX_ATTEMPTS ∧
    (job.state.unstarted = true → job.attempts < cfg.JOB_MAX_ATTEMPTS)

variable (cfg : Config) (now : Int) (job : Job)

@[simp] theorem mark_job_dispatched_attempts :
    (job.mark_job_dispatched now).attempts = job.attempts := by
  simp only [mark_job_dispatched]
  split <;> rfl

@[simp] theorem cancel_unstarted_jobs_attempts :
    (job.cancel_unstarted_jobs now).attempts = job.attempts := by
  unfold cancel_unstarted_jobs
  split <;> rfl

@[simp] theorem requeueOrphan_attempts : (job.requeueOrphan now).attempts = job.attempts := by
  unfold requeueOrphan
  split <;> rfl

@[simp] theorem heartbeat_job_attempts : (job.heartbeat_job now).attempts = job.attempts := by
  unfold heartbeat_job
  split <;> rfl

@[simp] theorem claim_job_attempts :
    (job.claim_job now).attempts = if job.state.unstarted then job.attempts + 1
    else job.attempts := by
  unfold claim_job
  split <;> rfl

@[simp] theorem requeue_failed_attempts (like : String → String → Bool)
    (error_contains : Option String) :
    (job.requeue_failed like error_contains now).attempts =
      if job.retryable like error_contains then 0 else job.attempts := by
  unfold requeue_failed
  split <;> rfl

@[simp] theorem reclaim_expired_leases_attempts :
    (job.reclaim_expired_leases cfg now).attempts = job.attempts := by
  have hfail : ∀ row : Job, (row.failOutOfAttempts cfg now).attempts = row.attempts := fun row => by
    unfold failOutOfAttempts
    split <;> rfl
  have hrunning : ∀ row : Job, (row.requeueRunning cfg now).attempts = row.attempts := fun row => by
    unfold requeueRunning
    split <;> rfl
  have hdispatched : ∀ row : Job, (row.requeueDispatched cfg now).attempts =
      row.attempts := fun row => by
    unfold requeueDispatched
    split <;> rfl
  rw [reclaim_expired_leases, hdispatched, hrunning, hfail]

end Job

-- What a statement on one row does to the count: a claim that succeeds adds one.
theorem JobStmt.set_attempts (stmt : JobStmt) (now : Int) (job : Job) :
    (stmt.set now job).attempts =
      if stmt = .claim_job ∧ job.state.unstarted = true then job.attempts + 1
      else job.attempts := by
  cases stmt <;> simp [JobStmt.set, Job.update_job_state_failed, Job.update_job_in_db]

theorem JobStmt.withinAttempts_set {cfg : Config} {job : Job} (stmt : JobStmt) (now : Int)
    (h : job.WithinAttempts cfg) : (stmt.set now job).WithinAttempts cfg := by
  rw [Job.WithinAttempts, set_attempts]
  by_cases hclaim : stmt = .claim_job ∧ job.state.unstarted = true
  · obtain ⟨rfl, hunstarted⟩ := hclaim
    rw [if_pos ⟨rfl, hunstarted⟩]
    refine ⟨h.2 hunstarted, fun hset => ?_⟩
    rw [JobStmt.set, Job.claim_job_state, if_pos hunstarted] at hset
    cases hset
  · rw [if_neg hclaim]
    exact ⟨h.1, fun hset => h.2 (unstarted_of_set hset)⟩

end Reflowfy
