import Reflowfy.ExecutionManager
import Reflowfy.JobManager
import Reflowfy.Worker.Delivery
import Mathlib.Logic.Function.Basic

namespace Reflowfy

-- What the database and the topic hold of one execution: its row, its job rows in
-- plan order, the jobs whose message was ever sent, and the clock they share.
-- `granted` is kept for the statements about leases and read by no step: when a
-- driver's latest claim or heartbeat returned True, unless it has released since.
structure Store where
  clock : Int
  execution : Option Execution
  jobs : List Job
  sent : List JobId
  granted : DriverId → Option Int

def Store.job (s : Store) (job_id : JobId) : Option Job := s.jobs.find? (·.job_id = job_id)

-- (dispatched, completed, failed) as `_sync_counts_from_db` returns them.
structure Totals where
  dispatched : ℕ
  completed : ℕ
  failed : ℕ
  deriving DecidableEq, Repr

def JobCounts.totals (counts : JobCounts) : Totals where
  dispatched := counts.dispatched + counts.running + counts.completed + counts.failed +
    counts.deduplicated
  completed := counts.completed + counts.deduplicated
  failed := counts.failed

-- The counters that `_sync_counts_from_db` writes to the execution row.
def Execution.sync_counts_from_db (counts : JobCounts) (row : Execution) : Execution :=
  { row with
    jobs_dispatched := counts.totals.dispatched
    jobs_completed := counts.totals.completed
    jobs_failed := counts.totals.failed
    deduplicated_jobs := counts.deduplicated }

-- A committed statement of the manager or a worker.
inductive Stmt
  | skip
  | get_execution
  | update_execution_state (seen : Execution) (state : ExecutionState)
      (error_message : Option String)
  | reopen_execution (seen : Execution)
  | mark_plan_complete
  | set_total_jobs (total : ℕ)
  | claim_driver (driver : DriverId)
  | heartbeat_driver (driver : DriverId)
  | release_driver (driver : DriverId)
  | release_drivers_on_host (hostname : ℕ)
  | sync_counts_from_db
  | create_jobs (rows : List (JobId × ℕ))
  | get_job_counts
  | get_pending_jobs (limit : ℕ)
  | job (job_id : JobId) (stmt : JobStmt)
  | cancel_unstarted_jobs
  | requeue_failed (error_contains : Option String)
  | requeue_orphans
  | reclaim_expired_leases (now : Int)
  -- not a statement of the database: the message of a job reaches its topic
  | send (job_id : JobId)
  | purge_jobs (cutoff : Int)
  | purge_executions (cutoff : Int) (doomed : List JobId)

namespace Stmt

@[reducible] def Reply : Stmt → Type
  | get_execution => Option Execution
  | claim_driver _ => Bool
  | heartbeat_driver _ => Bool
  | sync_counts_from_db => Totals
  | create_jobs _ => Bool
  | get_job_counts => JobCounts
  | get_pending_jobs _ => List JobId
  | job _ stmt => stmt.Reply
  | requeue_failed _ => List JobId
  | purge_jobs _ => List JobId
  | _ => Unit

-- What a statement does to the execution row.
def onExecution (cfg : Config) (now : Int) (counts : JobCounts) : Stmt → Execution → Execution
  | update_execution_state seen state error_message, row =>
      seen.update_execution_state state error_message now row
  | reopen_execution seen, row => seen.reopen_execution row
  | mark_plan_complete, row => row.mark_plan_complete
  | set_total_jobs total, row => row.set_total_jobs total
  | claim_driver driver, row =>
      if row.claimable driver cfg.DRIVER_LEASE_SECONDS now then row.claim_driver driver now else row
  | heartbeat_driver driver, row =>
      if row.driver_id = some driver then row.heartbeat_driver now else row
  | release_driver driver, row => if row.driver_id = some driver then row.release_driver else row
  | release_drivers_on_host hostname, row =>
      if row.onHost cfg.host hostname then row.release_driver else row
  | sync_counts_from_db, row => row.sync_counts_from_db counts
  | _, row => row

-- What a statement does to each job row.
def onJob (cfg : Config) (now : Int) : Stmt → Job → Job
  | job job_id stmt, row => if row.job_id = job_id then stmt.set now row else row
  | cancel_unstarted_jobs, row => row.cancel_unstarted_jobs now
  | requeue_failed error_contains, row => row.requeue_failed cfg.like error_contains now
  | requeue_orphans, row => row.requeueOrphan now
  | reclaim_expired_leases sweep, row => row.reclaim_expired_leases cfg sweep
  | _, row => row

def created (now : Int) : Stmt → List Job
  | create_jobs rows => rows.map fun (job_id, batch) => .create_job job_id batch now
  | _ => []

def sends : Stmt → List JobId
  | send job_id => [job_id]
  | _ => []

def grants (cfg : Config) (s : Store) : Stmt → DriverId → Option Int
  | claim_driver driver => Function.update s.granted driver
      (if s.execution.any (·.claimable driver cfg.DRIVER_LEASE_SECONDS s.clock) then
        some s.clock else none)
  | heartbeat_driver driver => Function.update s.granted driver
      (if s.execution.any (·.driver_id = some driver) then some s.clock else none)
  | release_driver driver => Function.update s.granted driver none
  | _ => s.granted

-- The second DELETE of the retention sweep, which commits both. An execution some of
-- whose jobs the first DELETE did not select cannot go: the foreign key refuses it,
-- and the transaction is rolled back.
def purge (cutoff : Int) (doomed : List JobId) (s : Store) : Store :=
  let kept := s.jobs.filter (!doomed.contains ·.job_id)
  if s.execution.any (·.expired cutoff) then
    if kept = [] then { s with execution := none, jobs := [] } else s
  else { s with jobs := kept }

-- The jobs the first DELETE of the retention sweep selects.
def expiredJobs (cutoff : Int) (s : Store) : List JobId :=
  if s.execution.any (·.expired cutoff) then s.jobs.map (·.job_id) else []

def run (cfg : Config) (s : Store) : Stmt → Store
  | purge_executions cutoff doomed => purge cutoff doomed s
  | stmt =>
    { s with
      execution := s.execution.map (stmt.onExecution cfg s.clock (Reflowfy.get_job_counts s.jobs))
      -- a job row needs its execution's row
      jobs := s.jobs.map (stmt.onJob cfg s.clock) ++
        if s.execution.isSome then stmt.created s.clock else []
      sent := stmt.sends ++ s.sent
      granted := stmt.grants cfg s }

-- What the caller gets back, from the rows as the statement finds them. The first
-- DELETE of the retention sweep stays invisible until the second one commits it.
def reply (cfg : Config) (s : Store) : (stmt : Stmt) → stmt.Reply
  | get_execution => s.execution
  | claim_driver driver =>
      s.execution.any (·.claimable driver cfg.DRIVER_LEASE_SECONDS s.clock)
  | heartbeat_driver driver => s.execution.any (·.driver_id = some driver)
  | sync_counts_from_db => (Reflowfy.get_job_counts s.jobs).totals
  | create_jobs rows => rows.isEmpty || s.execution.isSome
  | get_job_counts => Reflowfy.get_job_counts s.jobs
  | get_pending_jobs limit => Reflowfy.get_pending_jobs limit s.jobs
  | job job_id stmt => stmt.reply (s.job job_id)
  | requeue_failed error_contains =>
      (s.jobs.filter (·.retryable cfg.like error_contains)).map (·.job_id)
  | purge_jobs cutoff => expiredJobs cutoff s
  | skip => ()
  | update_execution_state _ _ _ => ()
  | reopen_execution _ => ()
  | mark_plan_complete => ()
  | set_total_jobs _ => ()
  | release_driver _ => ()
  | release_drivers_on_host _ => ()
  | cancel_unstarted_jobs => ()
  | requeue_orphans => ()
  | reclaim_expired_leases _ => ()
  | send _ => ()
  | purge_executions _ _ => ()

end Stmt

end Reflowfy
