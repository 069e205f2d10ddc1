import Reflowfy.JobManager.Rows
import Reflowfy.Worker.Delivery

namespace Reflowfy

theorem JobState.unstarted_of_settled {state : JobState} (h : state.unfinished = false) :
    state.unstarted = false := by
  cases state <;> simp_all [unfinished, unstarted]

-- A result always finishes the job.
theorem JobStats.state_settled (stats : JobStats) : stats.state.unfinished = false := by
  unfold state
  split
  · rfl
  · split <;> rfl

namespace JobStmt

variable {now : Int} {job : Job} {stmt : JobStmt}

-- Any statement but a result and an unsendable report leaves a settled row's outcome.
theorem set_settled (stmt : JobStmt) (h : job.state.unfinished = false)
    (hresult : ∀ stats, stmt ≠ .update_job_in_db stats)
    (hreason : ∀ reason, stmt ≠ .update_job_state_failed reason) :
    (stmt.set now job).state = job.state := by
  have hunstarted := JobState.unstarted_of_settled h
  cases stmt <;> simp only [set]
  case mark_job_dispatched =>
    rw [Job.mark_job_dispatched_state, if_neg fun hp => ?_]
    simp [hp, JobState.unfinished] at h
  case claim_job => simp [hunstarted]
  case heartbeat_job => simp
  case update_job_in_db stats => exact absurd rfl (hresult stats)
  case update_job_state_failed reason => exact absurd rfl (hreason reason)

-- No statement on a single row makes its job wait for a worker again,
theorem unstarted_of_set (h : (stmt.set now job).state.unstarted = true) :
    job.state.unstarted = true := by
  cases stmt <;> simp only [set] at h
  case mark_job_dispatched =>
    rw [Job.mark_job_dispatched_state] at h
    split at h
    · rename_i hpending
      rw [hpending]
      rfl
    · exact h
  case update_job_state_failed => cases h
  case claim_job =>
    rw [Job.claim_job_state] at h
    split at h
    · cases h
    · exact h
  case heartbeat_job =>
    rw [Job.heartbeat_job_state] at h
    exact h
  case update_job_in_db stats =>
    rw [Job.update_job_in_db_state, JobState.unstarted_of_settled stats.state_settled] at h
    cases h
  all_goals exact h

-- nor does it make a settled job unfinished.
theorem unfinished_of_set (h : (stmt.set now job).state.unfinished = true) :
    job.state.unfinished = true := by
  by_cases hresult : (∀ stats, stmt ≠ .update_job_in_db stats) ∧
    ∀ reason, stmt ≠ .update_job_state_failed reason
  · by_contra hsettled
    rw [set_settled stmt (Bool.eq_false_iff.mpr hsettled) hresult.1 hresult.2] at h
    exact hsettled h
  · cases stmt <;> simp at hresult
    case update_job_state_failed => cases h
    case update_job_in_db stats =>
      rw [set, Job.update_job_in_db_state, stats.state_settled] at h
      cases h

-- A dispatched job has the time of its dispatch.
theorem set_dispatched (h : (stmt.set now job).state = .dispatched)
    (hjob : job.state = .dispatched → job.dispatched_at.isSome) :
      (stmt.set now job).dispatched_at.isSome := by
  cases stmt <;> simp only [set] at h ⊢
  case mark_job_dispatched =>
    simp only [Job.mark_job_dispatched]
    split <;> rfl
  case update_job_state_failed => cases h
  case claim_job =>
    unfold Job.claim_job at h ⊢
    split
    · rename_i hunstarted
      simp [hunstarted] at h
    · rename_i hunstarted
      rw [if_neg hunstarted] at h
      exact hjob h
  case heartbeat_job =>
    rw [Job.heartbeat_job_state] at h
    unfold Job.heartbeat_job
    split <;> exact hjob h
  case update_job_in_db stats =>
    have hsettled := stats.state_settled
    rw [show stats.state = .dispatched from h] at hsettled
    cases hsettled
  all_goals exact hjob h

end JobStmt

-- Only a live delivery writes a result, and none reports a message unsendable.
theorem DeliveryPc.act_stmt {now : Int} {p : DeliveryPc} {choice : Choice} {a : DeliveryAct}
    (ha : p.act now choice = some a) :
    (∃ at_ stats, p = .live at_ ∧ choice = .result stats ∧ a.stmt = .update_job_in_db stats) ∨
      ((∀ stats, a.stmt ≠ .update_job_in_db stats) ∧
        ∀ reason, a.stmt ≠ .update_job_state_failed reason) := by
  cases p <;> cases choice <;> simp only [act, Option.some.injEq, reduceCtorEq] at ha <;>
    subst ha <;> simp

end Reflowfy
