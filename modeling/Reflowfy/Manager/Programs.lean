import Reflowfy.Manager.Statements

namespace Reflowfy

-- The local variables of `_plan_and_dispatch`: `pending` jobs of the current batch
-- are planned and not saved. Job ids are fresh, so they are numbered in plan order.
structure Planning where
  job_count : ℕ
  batch_number : ℕ
  pending : ℕ
  last_state_check : Option Int
  deriving DecidableEq

namespace Planning

def rows (p : Planning) : List (JobId × ℕ) :=
  (List.range p.pending).map fun k => (p.job_count - p.pending + k, p.batch_number)

def add (p : Planning) : Planning :=
  { p with job_count := p.job_count + 1, pending := p.pending + 1 }

def flushed (p : Planning) : Planning :=
  { p with batch_number := p.batch_number + 1, pending := 0 }

end Planning

-- Where `run_pipeline_jobs` stands before it dispatches.
inductive PlanPc
  | lease
  | resolve
  | load
  | store (seen : Execution)
  | next (p : Planning)
  | check (p : Planning)
  | abort
  | flush (p : Planning)
  | last (p : Planning)
  | total (job_count : ℕ)
  | mark
  -- `lease.stop()`, and then the dispatch loop
  | stop
  -- `lease.stop()` on the way out, with the exception that is being raised
  | leave (error : Option String)
  deriving DecidableEq

-- The error path of `_dispatch_pipeline_jobs` and `run_pipeline`.
inductive FailedPc
  | load (message : String)
  | store (message : String) (seen : Execution)
  deriving DecidableEq

-- The task a dispatch loop runs in.
inductive Task
  | run | resume
  deriving DecidableEq

-- Loop bookkeeping carried between steps.
structure Track where
  lease_checked_at : Option Int
  deriving DecidableEq

-- The local variables of `_send_jobs` and `dispatch_jobs_batch`: the jobs not yet
-- handled, the current one first.
structure Batch where
  jobs : List JobId
  started : Int
  last_check : Option Int
  deriving DecidableEq

-- Where `_drive_execution` stands. `token` tells the two calls of `should_stop`
-- apart: before a rate-limit token is taken, and after.
inductive DrivePc
  | claim
  | standby
  | not_dispatching
  | heartbeat (track : Track)
  | state (track : Track)
  | stopping (track : Track)
  | reclaim (track : Track) (now : Int)
  | counts (track : Track)
  | settle_sync (track : Track) (total : ℕ)
  | fetch (track : Track) (limit : ℕ)
  | producer (track : Track) (batch : Batch)
  | should_stop (track : Track) (batch : Batch) (token : Bool)
  | check_heartbeat (track : Track) (batch : Batch) (token : Bool)
  | check_state (track : Track) (batch : Batch) (token : Bool)
  | acquire_token (track : Track) (batch : Batch)
  | send (track : Track) (batch : Batch)
  | on_sent (track : Track) (batch : Batch)
  | on_unsendable (track : Track) (batch : Batch) (reason : String)
  | execute_job (track : Track) (batch : Batch) (pc : DeliveryPc)
  | sync (track : Track)
  | release (error : Option String)
  deriving DecidableEq

-- Who runs `_finalize_execution_state`.
inductive Settler
  | loop (task : Task) (track : Track)
  | resume
  deriving DecidableEq

inductive SettlePc
  | sync
  | counts (failed : ℕ)
  | load (final : ExecutionState)
  | store (final : ExecutionState) (seen : Execution)
  deriving DecidableEq

-- Where `resume_execution` and, inside it, `_recover_plan` stand before the loop.
inductive ResumePc
  | load
  | missing_store (message : String) (seen : Execution)
  | recover
  | recover_claim
  | recover_count
  | recover_load (saved : ℕ)
  | recover_store (saved : ℕ) (seen : Execution)
  | recover_release
  | counts
  | orphans
  deriving DecidableEq

-- The calls of the API that check the state they load and then write another.
inductive Request
  | pause
  | resume
  | cancel
  | fail (error_message : Option String)
  deriving DecidableEq

inductive RequestPc
  | load
  | store (seen : Execution)
  | cancel_unstarted_jobs
  deriving DecidableEq

inductive RetryPc
  | load (error_contains : Option String)
  | requeue (error_contains : Option String)
  | reload (requeued : List JobId)
  | store (requeued : List JobId) (seen : Execution)
  deriving DecidableEq

inductive StartupPc
  | release
  | find
  deriving DecidableEq

inductive SweepPc
  | jobs (cutoff : Int)
  | executions (cutoff : Int) (doomed : List JobId)
  deriving DecidableEq

-- A task of the manager, a request, or a worker's delivery, at one point of its code.
inductive Proc
  | idle
  | plan (leased : Bool) (pc : PlanPc)
  | failed (pc : FailedPc)
  | drive (task : Task) (pc : DrivePc)
  | settle (settler : Settler) (total : ℕ) (fallback : Totals) (pc : SettlePc)
  | resume (pc : ResumePc)
  | request (r : Request) (pc : RequestPc)
  | retry (pc : RetryPc)
  | startup (pc : StartupPc)
  | deliver (job_id : JobId) (pc : DeliveryPc)
  | sweep (pc : SweepPc)
  | ended
  deriving DecidableEq

-- One step of a task: the statement it commits, and where its reply leads.
structure Act where
  stmt : Stmt
  next : stmt.Reply → Proc

def Act.goto (p : Proc) : Act := ⟨.skip, fun _ => p⟩

namespace Request

-- What `pause_execution`, `resume_execution`, `cancel_execution` and the PATCH of the
-- state accept, and what they write.
def admits : Request → Execution → Bool
  | pause, seen => seen.pausable
  | resume, seen => seen.state == .paused
  | cancel, seen => !seen.state.terminal
  | fail _, seen => !seen.state.terminal

def target : Request → ExecutionState
  | pause => .paused
  | resume => .running
  | cancel => .cancelled
  | fail _ => .failed

def message : Request → Option String
  | cancel => some "Cancelled"
  | fail error_message => error_message
  | _ => none

-- What follows the write: a resumed execution gets a loop, a cancelled one is rid of
-- the jobs that no worker has started.
def after : Request → Proc
  | resume => .resume .load
  | cancel => .request .cancel .cancel_unstarted_jobs
  | _ => .ended

end Request

def foreignKeyViolation : String :=
  "insert or update on table \"jobs\" violates foreign key constraint"

def unsendableReason (error : String) : String :=
  "The job message is too large for Kafka (" ++ error ++ "). Records travel inside the " ++
    "message: use fewer records per job, or a source that re-fetches on the worker."

def abandonedMessage (saved : ℕ) : String :=
  "The manager stopped while planning this execution (" ++ toString saved ++ " of its " ++
    "jobs had been saved, none dispatched). A plan cannot be continued; run it again."

namespace PlanPc

-- One more job is planned; a full batch is saved at once.
def added (cfg : Config) (p : Planning) : PlanPc :=
  if cfg.CHECKPOINT_BATCH_SIZE ≤ p.add.pending then flush p.add else next p.add

def start : PlanPc := next ⟨0, 1, 0, none⟩

-- What is left of a planner once its lease is given up.
def left : Option String → Proc
  | some message => .failed (.load message)
  | none => .ended

def run (cfg : Config) (i : TaskId) (now : Int) (leased : Bool) : PlanPc → Choice → Option Act
  | lease, .ok => some ⟨.claim_driver ⟨.plan, i⟩, fun _ => .plan true resolve⟩
  | resolve, .ok => some (.goto (.plan leased load))
  | load, .ok => some ⟨.get_execution, fun
      | some seen => .plan leased (store seen)
      | none => .plan leased start⟩
  | store seen, .ok =>
      some ⟨.update_execution_state seen .running none, fun _ => .plan leased start⟩
  | next p, .slice =>
      if p.last_state_check.all (second ≤ now - ·) then
        some (.goto (.plan leased (check { p with last_state_check := some now })))
      else some (.goto (.plan leased (added cfg p)))
  | next p, .plan_end => some (.goto (.plan leased (last p)))
  | check p, .ok => some ⟨.get_execution, fun execution =>
      if execution.any fun row => row.state = .cancelled ∨ row.state = .failed then
        .plan leased abort
      else .plan leased (added cfg p)⟩
  | abort, .ok => some ⟨.cancel_unstarted_jobs, fun _ => .plan leased (leave none)⟩
  | flush p, .ok => some ⟨.create_jobs p.rows, fun saved =>
      if saved then .plan leased (next p.flushed) else .plan leased (leave foreignKeyViolation)⟩
  | last p, .ok => some ⟨.create_jobs p.rows, fun saved =>
      if saved then .plan leased (total p.job_count) else .plan leased (leave foreignKeyViolation)⟩
  | total job_count, .ok => some ⟨.set_total_jobs job_count, fun _ => .plan leased mark⟩
  | mark, .ok => some ⟨.mark_plan_complete, fun _ => .plan leased stop⟩
  -- without a heartbeat thread there is nothing to release
  | stop, .ok =>
      if leased then some ⟨.release_driver ⟨.plan, i⟩, fun _ => .drive .run .claim⟩
      else some (.goto (.drive .run .claim))
  | leave error, .ok =>
      if leased then some ⟨.release_driver ⟨.plan, i⟩, fun _ => left error⟩
      else some (.goto (left error))
  | _, _ => none

end PlanPc

def FailedPc.run : FailedPc → Choice → Option Act
  | load message, .ok => some ⟨.get_execution, fun
      | some seen => .failed (store message seen)
      | none => .ended⟩
  | store message seen, .ok =>
      some ⟨.update_execution_state seen .failed (some message), fun _ => .ended⟩
  | _, _ => none

def isRunning (execution : Option Execution) : Bool := execution.any (·.state == .running)

-- A loop has released its lease; the exception it leaves with fails the execution if
-- the loop is a run's, and is only logged if it is a resume's.
def Task.exit : Task → Option String → Proc
  | run, some message => .failed (.load message)
  | _, _ => .ended

namespace DrivePc

-- Past `should_stop`: on to the token, or with the token on to the send.
def go_on (track : Track) (batch : Batch) (token : Bool) : DrivePc :=
  if token then send track batch else acquire_token track batch

def handled (track : Track) (batch : Batch) : DrivePc :=
  should_stop track { batch with jobs := batch.jobs.tail } false

def run (cfg : Config) (i : TaskId) (now : Int) (task : Task) : DrivePc → Choice → Option Act
  | claim, .ok => some ⟨.claim_driver ⟨.loop, i⟩, fun claimed =>
      if claimed then .drive task (heartbeat ⟨none⟩) else .drive task standby⟩
  | standby, .ok => some ⟨.get_execution, fun execution =>
      if isRunning execution then .drive task claim else .drive task not_dispatching⟩
  | not_dispatching, .ok => some ⟨.sync_counts_from_db, fun _ => .drive task (release none)⟩
  | heartbeat track, .ok => some ⟨.heartbeat_driver ⟨.loop, i⟩, fun alive =>
      if alive then .drive task (state track)
      else .drive task (stopping track)⟩
  | state track, .ok => some ⟨.get_execution, fun execution =>
      if isRunning execution then
        if track.lease_checked_at.all (LEASE_CHECK_INTERVAL ≤ now - ·) then
          .drive task (reclaim track now)
        else .drive task (counts track)
      else .drive task (stopping track)⟩
  | stopping _, .ok => some ⟨.sync_counts_from_db, fun _ => .drive task (release none)⟩
  | reclaim _ sweep, .ok => some ⟨.reclaim_expired_leases sweep, fun _ =>
      .drive task (counts ⟨some sweep⟩)⟩
  | counts track, .ok => some ⟨.get_job_counts, fun counts =>
      let in_flight := counts.dispatched + counts.running
      if counts.pending = 0 ∧ in_flight = 0 then .drive task (settle_sync track counts.total)
      else if 0 < counts.pending ∧ in_flight < cfg.MAX_IN_FLIGHT_JOBS then
        .drive task (fetch track (min (cfg.MAX_IN_FLIGHT_JOBS - in_flight) DISPATCH_FETCH_LIMIT))
      else .drive task (heartbeat track)⟩
  | settle_sync track total, .ok => some ⟨.sync_counts_from_db, fun fallback =>
      .settle (.loop task track) total fallback .sync⟩
  | fetch track limit, .ok => some ⟨.get_pending_jobs limit, fun jobs =>
      if cfg.local_mode then .drive task (should_stop track ⟨jobs, now, none⟩ false)
      else .drive task (producer track ⟨jobs, now, none⟩)⟩
  | producer track batch, .ok => some (.goto (.drive task (should_stop track batch false)))
  | should_stop track batch token, .ok =>
      if batch.jobs = [] ∨ (token = false ∧ DISPATCH_CHUNK_SECONDS ≤ now - batch.started) then
        some (.goto (.drive task (sync track)))
      else if batch.last_check.all (second ≤ now - ·) then
        some (.goto (.drive task
          (check_heartbeat track { batch with last_check := some now } token)))
      else some (.goto (.drive task (go_on track batch token)))
  | check_heartbeat track batch token, .ok => some ⟨.heartbeat_driver ⟨.loop, i⟩, fun alive =>
      if alive then .drive task (check_state track batch token)
      else .drive task (sync track)⟩
  | check_state track batch token, .ok => some ⟨.get_execution, fun execution =>
      if isRunning execution then .drive task (go_on track batch token)
      else .drive task (sync track)⟩
  | acquire_token track batch, .ok =>
      if cfg.local_mode then some (.goto (.drive task (execute_job track batch .claim)))
      else some (.goto (.drive task (should_stop track batch true)))
  | acquire_token track _, .no_token => some (.goto (.drive task (sync track)))
  | send track batch, .ok => batch.jobs.head?.map fun job_id =>
      ⟨.send job_id, fun _ => .drive task (on_sent track batch)⟩
  | send track batch, .too_large error =>
      some (.goto (.drive task (on_unsendable track batch (unsendableReason error))))
  | send track _, .kafka_error => some (.goto (.drive task (sync track)))
  | on_sent track batch, .ok => batch.jobs.head?.map fun job_id =>
      ⟨.job job_id .mark_job_dispatched, fun _ => .drive task (handled track batch)⟩
  | on_unsendable track batch reason, .ok => batch.jobs.head?.map fun job_id =>
      ⟨.job job_id (.update_job_state_failed reason), fun _ => .drive task (handled track batch)⟩
  | sync track, .ok => some ⟨.sync_counts_from_db, fun _ => .drive task (heartbeat track)⟩
  | release error, .ok => some ⟨.release_driver ⟨.loop, i⟩, fun _ => task.exit error⟩
  | _, _ => none

-- The passes of the loop that retry a DBAPIError.
def track : DrivePc → Option Track
  | heartbeat track | state track | stopping track | reclaim track _ | counts track
  | settle_sync track _ | fetch track _ | producer track _ | should_stop track _ _
  | check_heartbeat track _ _ | check_state track _ _ | acquire_token track _ | send track _
  | on_sent track _ | on_unsendable track _ _ | execute_job track _ _ | sync track => some track
  | claim | standby | not_dispatching | release _ => none

end DrivePc

-- `final_state` in `_finalize_execution_state`.
def finalState (expected_total total_finished failed : ℕ) : ExecutionState :=
  if total_finished = expected_total then
    if failed = 0 then .completed else .failed
  else .failed

-- The same when the counts could not be read again.
def fallbackState (expected_total : ℕ) (fallback : Totals) : ExecutionState :=
  finalState expected_total (fallback.completed + fallback.failed) fallback.failed

def Settler.settled : Settler → Proc
  | loop task _ => .drive task (.release none)
  | resume => .ended

def SettlePc.run (settler : Settler) (total : ℕ) (fallback : Totals) : SettlePc →
    Choice → Option Act
  | sync, .ok => some ⟨.sync_counts_from_db, fun totals =>
      .settle settler total fallback (counts totals.failed)⟩
  | counts failed, .ok => some ⟨.get_job_counts, fun counts =>
      .settle settler total fallback (load (finalState total counts.finished failed))⟩
  | load final, .ok => some ⟨.get_execution, fun
      | some seen => .settle settler total fallback (store final seen)
      | none => settler.settled⟩
  | store final seen, .ok =>
      some ⟨.update_execution_state seen final none, fun _ => settler.settled⟩
  | _, _ => none

namespace ResumePc

def run (cfg : Config) (i : TaskId) (now : Int) : ResumePc → Choice → Option Act
  | load, .ok => some ⟨.get_execution, fun
      | some seen =>
          if seen.state.terminal then .ended
          else if seen.plan_complete = some false then .resume recover
          else .resume counts
      | none => .ended⟩
  | load, .missing message => some ⟨.get_execution, fun
      | some seen => if seen.state.terminal then .ended else .resume (missing_store message seen)
      | none => .ended⟩
  | missing_store message seen, .ok =>
      some ⟨.update_execution_state seen .failed (some message), fun _ => .ended⟩
  | recover, .ok => some ⟨.get_execution, fun
      | some seen =>
          if !seen.pausable then .ended
          else if seen.plan_complete ≠ some false then .resume counts
          else if cfg.DRIVER_LEASE_SECONDS ≤ now - seen.created_at then .resume recover_claim
          else .resume recover
      | none => .ended⟩
  | recover_claim, .ok => some ⟨.claim_driver ⟨.recover, i⟩, fun claimed =>
      if claimed then .resume recover_count else .resume recover⟩
  | recover_count, .ok => some ⟨.get_job_counts, fun counts => .resume (recover_load counts.total)⟩
  | recover_load saved, .ok => some ⟨.get_execution, fun
      | some seen => .resume (recover_store saved seen)
      | none => .resume recover_release⟩
  | recover_store saved seen, .ok =>
      some ⟨.update_execution_state seen .failed (some (abandonedMessage saved)),
        fun _ => .resume recover_release⟩
  | recover_release, .ok => some ⟨.release_driver ⟨.recover, i⟩, fun _ => .ended⟩
  | counts, .ok => some ⟨.get_job_counts, fun counts =>
      if counts.pending + counts.dispatched + counts.running = 0 then
        .settle .resume counts.total ⟨0, 0, 0⟩ .sync
      else if cfg.local_mode then .resume orphans
      else .drive .resume .claim⟩
  | orphans, .ok => some ⟨.requeue_orphans, fun _ => .drive .resume .claim⟩
  | _, _ => none

end ResumePc

def RequestPc.run (r : Request) : RequestPc → Choice → Option Act
  | load, .ok => some ⟨.get_execution, fun
      | some seen => if r.admits seen then .request r (store seen) else .ended
      | none => .ended⟩
  | store seen, .ok => some ⟨.update_execution_state seen r.target r.message, fun _ => r.after⟩
  | cancel_unstarted_jobs, .ok => some ⟨.cancel_unstarted_jobs, fun _ => .ended⟩
  | _, _ => none

def RetryPc.run : RetryPc → Choice → Option Act
  | load error_contains, .ok => some ⟨.get_execution, fun
      | some seen => if seen.state = .paused then .ended else .retry (requeue error_contains)
      | none => .ended⟩
  | requeue error_contains, .ok => some ⟨.requeue_failed error_contains, fun requeued =>
      if requeued = [] then .ended else .retry (reload requeued)⟩
  | reload requeued, .ok => some ⟨.get_execution, fun
      | some seen => .retry (store requeued seen)
      | none => .ended⟩
  -- a running execution is taken to have a loop already
  | store _ seen, .ok => some ⟨.reopen_execution seen, fun _ =>
      if seen.state = .running then .ended else .resume .load⟩
  | _, _ => none

def StartupPc.run (cfg : Config) (i : TaskId) : StartupPc → Choice → Option Act
  | release, .ok => some ⟨.release_drivers_on_host (cfg.host i), fun _ => .startup find⟩
  | find, .ok => some ⟨.get_execution, fun execution =>
      if execution.any (·.interrupted) then .resume .load else .ended⟩
  | _, _ => none

def SweepPc.run : SweepPc → Choice → Option Act
  | jobs cutoff, .ok => some ⟨.purge_jobs cutoff, fun doomed => .sweep (executions cutoff doomed)⟩
  | executions cutoff doomed, .ok => some ⟨.purge_executions cutoff doomed, fun _ => .ended⟩
  | _, _ => none

namespace Proc

-- Where an exception other than a DBAPIError leaves the task.
def raise (message : String) : Proc → Proc
  | plan _ .lease => plan false .resolve
  | plan _ .stop => drive .run .claim
  | plan _ (.leave error) => PlanPc.left error
  | plan leased _ => plan leased (.leave (some message))
  | drive task (.release error) => task.exit error
  | drive task _ => drive task (.release (some message))
  -- `_finalize_execution_state` falls back on the counts it was given
  | settle settler total fallback .sync | settle settler total fallback (.counts _) =>
      settle settler total fallback (.load (fallbackState total fallback))
  | settle (.loop task _) _ _ _ => drive task (.release (some message))
  | _ => ended

-- Where a DBAPIError leaves it: the loop tries again, everything else has no handler
-- of its own for it.
def db_error (message : String) : Proc → Proc
  | drive task .claim | drive task .standby => drive task .claim
  | drive task pc => match pc.track with
    | some track => drive task (.heartbeat track)
    | none => raise message (drive task pc)
  | settle (.loop task track) _ _ (.load _) | settle (.loop task track) _ _ (.store _ _) =>
      drive task (.heartbeat track)
  | p => raise message p

-- What a task does when nothing fails.
def run (cfg : Config) (i : TaskId) (now : Int) : Proc → Choice → Option Act
  | plan leased pc, choice => pc.run cfg i now leased choice
  | failed pc, choice => pc.run choice
  | drive task pc, choice => pc.run cfg i now task choice
  | settle settler total fallback pc, choice => pc.run settler total fallback choice
  | resume pc, choice => pc.run cfg i now choice
  | request r pc, choice => pc.run r choice
  | retry pc, choice => pc.run choice
  | startup pc, choice => pc.run cfg i choice
  | sweep pc, choice => pc.run choice
  | idle, _ | deliver _ _, _ | ended, _ => none

-- A step of the job executor, in a worker or in the loop's own process.
def execute (job_id : JobId) (back : DeliveryPc → Proc) (a : DeliveryAct) : Act :=
  ⟨.job job_id a.stmt, fun reply => back (a.next reply)⟩

def act (cfg : Config) (i : TaskId) (now : Int) : Proc → Choice → Option Act
  | idle, _ | ended, _ => none
  | deliver job_id pc, choice => (pc.act now choice).map (execute job_id (deliver job_id))
  | drive task (.execute_job track batch pc), choice =>
      match pc, choice with
      | .ended, .ok => some (.goto (drive task (.on_sent track batch)))
      | _, .die => none
      | pc, choice => batch.jobs.head?.bind fun job_id =>
          (pc.act now choice).map
            (execute job_id fun pc => drive task (.execute_job track batch pc))
  | p, .db_error message => some (.goto (p.db_error message))
  | p, .error message => some (.goto (p.raise message))
  -- the planner's heartbeat comes from a thread of its own
  | plan true pc, .beat => some ⟨.heartbeat_driver ⟨.plan, i⟩, fun _ => plan true pc⟩
  | p, choice => p.run cfg i now choice

end Proc

end Reflowfy
