import Reflowfy.JobManager

namespace Reflowfy

-- A statement on one row of `jobs`, and what it returns to the caller.
inductive JobStmt
  | skip
  | mark_job_dispatched
  | update_job_state_failed (reason : String)
  | claim_job
  | get_job_state
  | heartbeat_job
  | update_job_in_db (stats : JobStats)
  deriving DecidableEq

namespace JobStmt

@[reducible] def Reply : JobStmt → Type
  | claim_job => Bool
  | get_job_state => Option JobState
  | _ => Unit

def set (now : Int) : JobStmt → Job → Job
  | skip, job => job
  | mark_job_dispatched, job => job.mark_job_dispatched now
  | update_job_state_failed reason, job => job.update_job_state_failed reason now
  | claim_job, job => job.claim_job now
  | get_job_state, job => job
  | heartbeat_job, job => job.heartbeat_job now
  | update_job_in_db stats, job => job.update_job_in_db stats now

-- Computed from the row as the statement finds it; `none` when there is no such row.
def reply : (stmt : JobStmt) → Option Job → stmt.Reply
  | claim_job, job => job.any (·.state.unstarted)
  | get_job_state, job => job.map (·.state)
  | skip, _ => ()
  | mark_job_dispatched, _ => ()
  | update_job_state_failed _, _ => ()
  | heartbeat_job, _ => ()
  | update_job_in_db _, _ => ()

end JobStmt

-- How a statement or a call ended, and what the outside world decided.
inductive Choice
  | ok
  -- the statement raised: a DBAPIError, or any other Exception
  | db_error (message : String)
  | error (message : String)
  -- the heartbeat thread or task of the process fires
  | beat
  -- the plan yields another job, or is exhausted
  | slice
  | plan_end
  -- the pipeline is not in the registry
  | missing (message : String)
  -- no rate-limit token within TOKEN_WAIT_SECONDS
  | no_token
  -- MessageSizeTooLargeError, or any other KafkaError
  | too_large (reason : String)
  | kafka_error
  -- the job ran to its end, or its worker died
  | result (stats : JobStats)
  | die
  deriving DecidableEq

-- Where one delivery of a job's message stands in `_execute_job_inner`. A live
-- delivery is executing the job; `renewed_at` is when it last proved so.
inductive DeliveryPc
  | idle
  | claim
  | blocked
  | live (renewed_at : Int)
  | closing
  | ended
  deriving DecidableEq

structure DeliveryAct where
  stmt : JobStmt
  next : stmt.Reply → DeliveryPc

namespace DeliveryPc

def act (now : Int) : DeliveryPc → Choice → Option DeliveryAct
  | claim, .ok => some ⟨.claim_job, fun claimed => if claimed then live now else blocked⟩
  -- `_claim_job` fails open: the job runs without a claim
  | claim, .db_error _ | claim, .error _ => some ⟨.skip, fun _ => live now⟩
  | blocked, .ok => some ⟨.get_job_state, fun state => if state.isNone then live now else ended⟩
  | blocked, .db_error _ | blocked, .error _ => some ⟨.skip, fun _ => live now⟩
  | live _, .beat => some ⟨.heartbeat_job, fun _ => live now⟩
  | live _, .result stats => some ⟨.update_job_in_db stats, fun _ => closing⟩
  -- `_update_job_in_db` logs its errors: the result is lost
  | live _, .db_error _ | live _, .error _ => some ⟨.skip, fun _ => closing⟩
  | live _, .die => some ⟨.skip, fun _ => ended⟩
  -- the heartbeat task is stopped only after the result is written
  | closing, .beat => some ⟨.heartbeat_job, fun _ => closing⟩
  | closing, .ok => some ⟨.skip, fun _ => ended⟩
  | _, _ => none

end DeliveryPc

end Reflowfy
