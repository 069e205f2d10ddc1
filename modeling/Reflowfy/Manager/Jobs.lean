import Reflowfy.Manager.Effects
import Reflowfy.Worker.Statements

namespace Reflowfy

namespace Stmt

variable {cfg : Config} {s : Store} {stmt : Stmt}

-- A job row after a statement was there before it, or has just been created.
theorem mem_run_jobs {job' : Job} (h : job' ∈ (stmt.run cfg s).jobs) :
    (∃ job ∈ s.jobs, job' = stmt.onJob cfg s.clock job) ∨
      (s.execution.isSome ∧ job' ∈ stmt.created s.clock) := by
  by_cases hpurge : ∃ cutoff doomed, stmt = .purge_executions cutoff doomed
  · obtain ⟨cutoff, doomed, rfl⟩ := hpurge
    refine .inl ⟨job', ?_, rfl⟩
    simp only [run, purge] at h
    split at h
    · split at h
      · cases h
      · exact h
    · exact (List.mem_filter.mp h).1
  · rw [run_jobs cfg s fun cutoff doomed hp => hpurge ⟨cutoff, doomed, hp⟩] at h
    rcases List.mem_append.mp h with hold | hnew
    · obtain ⟨job, hjob, rfl⟩ := List.mem_map.mp hold
      exact .inl ⟨job, hjob, rfl⟩
    · split at hnew
      · exact .inr ⟨‹_›, hnew⟩
      · cases hnew

theorem run_job_of_ne {job_id : JobId} {row : Job}
    (hne : ∀ cutoff doomed, stmt ≠ .purge_executions cutoff doomed) (h : s.job job_id = some row) :
      (stmt.run cfg s).job job_id = some (stmt.onJob cfg s.clock row) := by
  have hid : (fun job : Job => decide (job.job_id = job_id)) ∘ stmt.onJob cfg s.clock =
      fun job => decide (job.job_id = job_id) := by
    funext job
    simp
  unfold Store.job at h ⊢
  rw [run_jobs cfg s hne, List.find?_append, List.find?_map, hid, h]
  rfl

-- What a statement leaves of one job's row, unless the retention sweep deletes it.
theorem run_job {job_id : JobId} {row row' : Job} (h : s.job job_id = some row)
    (h' : (stmt.run cfg s).job job_id = some row') : row' = stmt.onJob cfg s.clock row := by
  by_cases hpurge : ∃ cutoff doomed, stmt = .purge_executions cutoff doomed
  · obtain ⟨cutoff, doomed, rfl⟩ := hpurge
    unfold Store.job at h h'
    simp only [run, purge] at h'
    split at h'
    · split at h'
      · cases h'
      · rw [h] at h'
        exact (Option.some.inj h').symm
    · -- the row is kept, so its job is not among the doomed
      rw [List.find?_filter] at h'
      have hkept := List.find?_some h'
      simp only [decide_eq_true_eq] at hkept
      have hsame : ∀ job : Job,
        decide ((!doomed.contains job.job_id) = true ∧ decide (job.job_id = job_id) = true) =
          decide (job.job_id = job_id) := by
        intro job
        by_cases hjob : job.job_id = job_id
        · rw [hjob, ← hkept.2]
          simpa using hkept.1
        · simp [hjob]
      simp only [hsame, h] at h'
      exact (Option.some.inj h').symm
  · rw [run_job_of_ne (fun cutoff doomed hp => hpurge ⟨cutoff, doomed, hp⟩) h] at h'
    exact (Option.some.inj h').symm

-- Whether a statement puts a job that is not waiting for a worker back to pending.
def requeues (cfg : Config) : Stmt → Job → Bool
  | requeue_failed error_contains, row => row.retryable cfg.like error_contains
  | requeue_orphans, row => row.state == .running
  | reclaim_expired_leases sweep, row =>
      row.staleRunning cfg sweep && row.attempts < cfg.JOB_MAX_ATTEMPTS
  | _, _ => false

-- A job waits for a worker after a statement if it did before, or is requeued.
theorem onJob_unstarted {now : Int} {job : Job}
    (h : (stmt.onJob cfg now job).state.unstarted = true) :
    job.state.unstarted = true ∨ stmt.requeues cfg job = true := by
  cases stmt <;> simp only [onJob] at h
  case job job_id jobStmt =>
    split at h
    · exact .inl (JobStmt.unstarted_of_set h)
    · exact .inl h
  case cancel_unstarted_jobs =>
    rw [Job.cancel_unstarted_jobs_state] at h
    split at h
    · cases h
    · exact .inl h
  case requeue_failed error_contains =>
    rw [Job.requeue_failed_state] at h
    split at h
    · exact .inr ‹_›
    · exact .inl h
  case requeue_orphans =>
    rw [Job.requeueOrphan_state] at h
    split at h
    · rename_i hstate
      rcases hstate with hd | hr
      · exact .inl (by rw [hd]; rfl)
      · exact .inr (by simp [requeues, hr])
    · exact .inl h
  case reclaim_expired_leases sweep =>
    rcases Job.reclaim_cases cfg sweep job with
      ⟨-, -, hf⟩ | ⟨hstale, hleft, -⟩ | ⟨hstale, -⟩ | ⟨-, -, hsame⟩
    · rw [hf] at h
      cases h
    · exact .inr (by simp [requeues, hstale, hleft])
    · exact .inl (by rw [Job.dispatched_of_staleDispatched hstale]; rfl)
    · rw [hsame] at h
      exact .inl h
  all_goals exact .inl h

-- Only a retry makes a settled job unfinished.
theorem onJob_unfinished {now : Int} {job : Job}
    (h : (stmt.onJob cfg now job).state.unfinished = true) :
    job.state.unfinished = true ∨ ∃ error_contains, stmt = .requeue_failed error_contains := by
  cases stmt <;> simp only [onJob] at h
  case job job_id jobStmt =>
    split at h
    · exact .inl (JobStmt.unfinished_of_set h)
    · exact .inl h
  case cancel_unstarted_jobs =>
    rw [Job.cancel_unstarted_jobs_state] at h
    split at h
    · cases h
    · exact .inl h
  case requeue_failed error_contains => exact .inr ⟨_, rfl⟩
  case requeue_orphans =>
    rw [Job.requeueOrphan_state] at h
    split at h
    · rename_i hstate
      rcases hstate with hd | hr
      · exact .inl (by rw [hd]; rfl)
      · exact .inl (by rw [hr]; rfl)
    · exact .inl h
  case reclaim_expired_leases sweep =>
    rcases Job.reclaim_cases cfg sweep job with
      ⟨hstale, -⟩ | ⟨hstale, -⟩ | ⟨hstale, -⟩ | ⟨-, -, hsame⟩
    · exact .inl (by rw [Job.running_of_staleRunning hstale]; rfl)
    · exact .inl (by rw [Job.running_of_staleRunning hstale]; rfl)
    · exact .inl (by rw [Job.dispatched_of_staleDispatched hstale]; rfl)
    · rw [hsame] at h
      exact .inl h
  all_goals exact .inl h

-- The state of a settled job is changed by a retry, and by what is reported of it.
theorem onJob_settled {now : Int} {job : Job} (h : job.state.unfinished = false)
    (hretry : ∀ error_contains, stmt ≠ .requeue_failed error_contains)
    (hreport : ∀ jobStmt, stmt = .job job.job_id jobStmt →
      (∀ stats, jobStmt ≠ .update_job_in_db stats) ∧
      ∀ reason, jobStmt ≠ .update_job_state_failed reason) :
    (stmt.onJob cfg now job).state = job.state := by
  cases stmt <;> simp only [onJob]
  case job job_id jobStmt =>
    split
    · rename_i hid
      obtain ⟨hresult, hreason⟩ := hreport jobStmt (by rw [hid])
      exact JobStmt.set_settled jobStmt h hresult hreason
    · rfl
  case cancel_unstarted_jobs => simp [JobState.unstarted_of_settled h]
  case requeue_failed error_contains => exact absurd rfl (hretry error_contains)
  case requeue_orphans =>
    rw [Job.requeueOrphan_state, if_neg]
    rintro (hstate | hstate) <;> rw [hstate] at h <;> cases h
  case reclaim_expired_leases sweep =>
    rcases Job.reclaim_cases cfg sweep job with
      ⟨hstale, -⟩ | ⟨hstale, -⟩ | ⟨hstale, -⟩ | ⟨-, -, hsame⟩
    · rw [Job.running_of_staleRunning hstale] at h
      cases h
    · rw [Job.running_of_staleRunning hstale] at h
      cases h
    · rw [Job.dispatched_of_staleDispatched hstale] at h
      cases h
    · rw [hsame]

end Stmt

-- Only the planner creates jobs.
theorem Goes.creates {cfg : Config} {i : TaskId} {s : Store} {p p' : Proc} {choice : Choice}
    {rows : List (JobId × ℕ)} (h : Goes cfg i s p choice (.create_jobs rows) p') :
    ∃ leased pl, rows = pl.rows ∧ (p = .plan leased (.flush pl) ∨ p = .plan leased (.last pl)) := by
  cases h
  case plan_flush | plan_flush_refused => exact ⟨_, _, rfl, .inl rfl⟩
  case plan_last | plan_last_refused => exact ⟨_, _, rfl, .inr rfl⟩

theorem Stmt.created_of_ne {now : Int} {stmt : Stmt} (h : ∀ rows, stmt ≠ .create_jobs rows) :
    stmt.created now = [] := by
  cases stmt
  case create_jobs rows => exact absurd rfl (h rows)
  all_goals rfl

end Reflowfy
