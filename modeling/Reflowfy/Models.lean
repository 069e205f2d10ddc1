import Mathlib.Data.List.Basic
import Mathlib.Data.Int.Notation

namespace Reflowfy

-- Timestamps and durations are in microseconds.
def second : Int := 1000000

-- SQLAlchemy writes only the columns whose value differs from the one it loaded; any
-- other column keeps what the row holds by the time of the UPDATE.
def updated {α : Type} [DecidableEq α] (loaded new row : α) : α :=
  if new = loaded then row else new

abbrev JobId := ℕ
abbrev TaskId := ℕ

inductive ExecutionState
  | pending | running | paused | completed | failed | cancelled
  deriving DecidableEq, Repr

namespace ExecutionState

def TERMINAL_STATES : List ExecutionState := [completed, failed, cancelled]

def terminal (state : ExecutionState) : Bool := TERMINAL_STATES.contains state

end ExecutionState

inductive JobState
  | pending | dispatched | running | completed | failed | deduplicated | cancelled
  deriving DecidableEq, Repr

namespace JobState

-- Waiting for a worker, or held by one.
def unfinished : JobState → Bool
  | pending | dispatched | running => true
  | _ => false

-- Waiting for a worker.
def unstarted : JobState → Bool
  | pending | dispatched => true
  | _ => false

def succeeded : JobState → Bool
  | completed | deduplicated => true
  | _ => false

end JobState

-- Who holds the lease on an execution row: a planner, a dispatch loop or a
-- recovery. The random part of the source's ids is the task's number.
inductive Role
  | plan | loop | recover
  deriving DecidableEq, Repr

structure DriverId where
  role : Role
  task : TaskId
  deriving DecidableEq, Repr

-- A row of `executions`. Its id, pipeline name, params and rate limit take no
-- part in any decision modelled here.
structure Execution where
  state : ExecutionState
  total_jobs : ℕ
  jobs_dispatched : ℕ
  jobs_completed : ℕ
  jobs_failed : ℕ
  deduplicated_jobs : ℕ
  created_at : Int
  completed_at : Option Int
  error_message : Option String
  driver_id : Option DriverId
  driver_heartbeat_at : Option Int
  plan_complete : Option Bool
  deriving DecidableEq, Repr

-- What a worker reports about one job (`JobStats`), as far as it decides the row.
structure JobStats where
  deduplicated : Bool
  success : Bool
  records_output : ℕ
  error : Option String
  error_traceback : Option String
  deriving DecidableEq, Repr

-- A row of `jobs` without its payload.
structure Job where
  job_id : JobId
  batch_number : ℕ
  state : JobState
  attempts : ℕ
  processed_records : ℕ
  error_message : Option String
  error_traceback : Option String
  stats : Option JobStats
  created_at : Int
  updated_at : Int
  dispatched_at : Option Int
  completed_at : Option Int
  deriving DecidableEq, Repr

-- The environment settings, the host each task runs on and the database's LIKE.
structure Config where
  local_mode : Bool
  DRIVER_LEASE_SECONDS : Int
  JOB_RUNNING_LEASE_SECONDS : Int
  JOB_DISPATCH_LEASE_SECONDS : Int
  JOB_MAX_ATTEMPTS : ℕ
  MAX_IN_FLIGHT_JOBS : ℕ
  CHECKPOINT_BATCH_SIZE : ℕ
  EXECUTION_RETENTION_HOURS : ℤ
  host : TaskId → ℕ
  like : String → String → Bool

-- The settings of a manager whose environment sets none of them, on hosts of
-- their own. LIKE is given for texts without wildcards, as a search for the text.
def Config.defaults : Config where
  local_mode := false
  DRIVER_LEASE_SECONDS := 60 * second
  JOB_RUNNING_LEASE_SECONDS := 300 * second
  JOB_DISPATCH_LEASE_SECONDS := 3600 * second
  JOB_MAX_ATTEMPTS := 3
  MAX_IN_FLIGHT_JOBS := 1000
  CHECKPOINT_BATCH_SIZE := 1000
  EXECUTION_RETENTION_HOURS := 24
  host := id
  like text message := message.toList.tails.any text.toList.isPrefixOf

def LEASE_CHECK_INTERVAL : Int := 60 * second
def DISPATCH_CHUNK_SECONDS : Int := 30 * second
def DISPATCH_FETCH_LIMIT : ℕ := 500

end Reflowfy
