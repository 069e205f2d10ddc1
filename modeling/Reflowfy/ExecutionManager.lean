import Reflowfy.Models

namespace Reflowfy

namespace Execution

def create_execution (now : Int) : Execution where
  state := .pending
  total_jobs := 0
  jobs_dispatched := 0
  jobs_completed := 0
  jobs_failed := 0
  deduplicated_jobs := 0
  created_at := now
  completed_at := none
  error_message := none
  driver_id := none
  driver_heartbeat_at := none
  plan_complete := some false

-- The UPDATE that `update_execution_state` commits after it loaded `seen`.
def update_execution_state (seen : Execution) (state : ExecutionState)
    (error_message : Option String) (now : Int) (row : Execution) : Execution :=
  let message := match error_message with
    | some text => if text = "" then seen.error_message else some text
    | none => seen.error_message
  let finished := if state.terminal then some now else seen.completed_at
  { row with
    state := updated seen.state state row.state
    error_message := updated seen.error_message message row.error_message
    completed_at := updated seen.completed_at finished row.completed_at }

-- The UPDATE that `reopen_execution` commits after it loaded `seen`.
def reopen_execution (seen row : Execution) : Execution :=
  { row with
    state := updated seen.state .running row.state
    completed_at := updated seen.completed_at none row.completed_at
    error_message := updated seen.error_message none row.error_message }

def mark_plan_complete (row : Execution) : Execution :=
  { row with plan_complete := some true }

def set_total_jobs (total : ℕ) (row : Execution) : Execution :=
  { row with total_jobs := total }

-- WHERE driver_id IS NULL OR driver_id = :driver OR driver_heartbeat_at < :stale.
def claimable (driver : DriverId) (lease_seconds now : Int) (row : Execution) : Bool :=
  row.driver_id.isNone || row.driver_id == some driver ||
    row.driver_heartbeat_at.any (· < now - lease_seconds)

def claim_driver (driver : DriverId) (now : Int) (row : Execution) : Execution :=
  { row with driver_id := some driver, driver_heartbeat_at := some now }

def heartbeat_driver (now : Int) (row : Execution) : Execution :=
  { row with driver_heartbeat_at := some now }

def release_driver (row : Execution) : Execution :=
  { row with driver_id := none, driver_heartbeat_at := none }

-- LIKE '<host>:%': the ids of dispatch loops start with their host, those of
-- planners and recoveries with their role.
def onHost (host : TaskId → ℕ) (hostname : ℕ) (row : Execution) : Bool :=
  row.driver_id.any fun driver => driver.role == .loop && host driver.task == hostname

-- The row `get_interrupted_executions` selects.
def interrupted (row : Execution) : Bool :=
  row.state == .running || (row.state == .pending && row.plan_complete == some false)

def pausable (row : Execution) : Bool := row.state == .pending || row.state == .running

-- `completed_at < now - retention`: what the retention sweep deletes.
def expired (cutoff : Int) (row : Execution) : Bool := row.completed_at.any (· < cutoff)

end Execution

end Reflowfy
