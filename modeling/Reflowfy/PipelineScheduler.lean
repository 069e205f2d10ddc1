import Reflowfy.Interleaving.Pool
import Reflowfy.Interleaving.RowLocks
import Reflowfy.Models
import Reflowfy.RuntimeParams

namespace Reflowfy

open Interleaving

namespace PipelineScheduler

structure ScheduleKey where
  pipeline_name : String
  schedule_name : String
  deriving DecidableEq, Repr

-- `sched-{schedule_name}-{uuid}`.
structure ScheduledId where
  schedule_name : String
  uuid : ℕ
  deriving DecidableEq, Repr

-- A row of `pipeline_schedules` beside its key.
structure PipelineSchedule where
  cron_expression : String
  runtime_params : Params
  next_run_at : Int
  last_triggered_at : Option Int
  last_execution_id : Option ScheduledId
  enabled : Bool

-- An execution that the scheduler has created. The row it was created for and that row's
-- `next_run_at` are kept for the statements about it and read by no step.
structure ScheduledExecution where
  execution_id : ScheduledId
  pipeline_name : String
  runtime_params : Params
  schedule : ScheduleKey
  due : Int

-- How far the `try` of `_trigger_pipeline` gets before an exception, if there is one.
inductive TriggerOutcome
  | not_created | not_dispatched | dispatched
  deriving DecidableEq, Repr

namespace TriggerOutcome

def created : TriggerOutcome → Bool
  | not_created => false
  | _ => true

end TriggerOutcome

abbrev Writes := List (ScheduleKey × PipelineSchedule)

-- Where a poll, or the end of a `/run` request, stands.
inductive SchedulerPc
  | idle
  -- `_poll_and_trigger`, whose `now` is read before the SELECT; then `due`, what is flushed
  -- of it, and the schedules for which an execution has been created
  | poll (now : Int)
  | trigger (now : Int) (due done : Writes) (created : List ScheduleKey)
  -- `reset_schedule`, whose `triggered_at` is read before the SELECT; then the UPDATEs of
  -- the commit
  | reset (pipeline_name : String) (triggered_at : Int)
  | update (triggered_at : Int) (loaded done : Writes)

-- The table, what the transactions have locked of it, and the scheduler's executions,
-- each of which is committed in a session of its own.
structure ScheduleStore where
  clock : Int
  row : ScheduleKey → PipelineSchedule
  locks : Locks ScheduleKey
  executions : List ScheduledExecution

abbrev ScheduleSystem := Pool ScheduleStore SchedulerPc

inductive ScheduleEvent
  | tick (d : ℕ)
  | poll (i : TaskId)
  | run (i : TaskId) (pipeline_name : String)
  | trigger (i : TaskId) (schedule : ScheduleKey) (outcome : TriggerOutcome) (uuid : ℕ)
  | go (i : TaskId)
  -- the transaction is rolled back: a statement fails, or the pod dies
  | abort (i : TaskId)
  deriving DecidableEq, Repr

-- `_compute_next_run`.
variable (next_run : String → Int → Int)

namespace PipelineSchedule

-- What `_trigger_pipeline` leaves in the row.
def trigger (schedule : PipelineSchedule) (now : Int) (outcome : TriggerOutcome)
    (id : ScheduledId) :
    PipelineSchedule :=
  { schedule with
    last_execution_id := if outcome = .dispatched then some id else schedule.last_execution_id
    last_triggered_at := some now
    next_run_at := next_run schedule.cron_expression now }

-- What `reset_schedule` leaves in the instance that it has loaded.
def reset (schedule : PipelineSchedule) (triggered_at : Int) : PipelineSchedule :=
  { schedule with
    last_triggered_at := some triggered_at
    next_run_at := next_run schedule.cron_expression triggered_at }

-- An instance that has not changed is not flushed.
def dirty (loaded new : PipelineSchedule) : Bool :=
  loaded.last_triggered_at ≠ new.last_triggered_at ∨ loaded.next_run_at ≠ new.next_run_at

-- The UPDATE for it, on the row as it is by then.
def flush (loaded new current : PipelineSchedule) : PipelineSchedule :=
  { current with
    last_triggered_at :=
      updated loaded.last_triggered_at new.last_triggered_at current.last_triggered_at
    next_run_at := updated loaded.next_run_at new.next_run_at current.next_run_at }

end PipelineSchedule

namespace ScheduleStore

variable (schedules : List ScheduleKey)

def load (s : ScheduleStore) (keys : List ScheduleKey) : Writes := keys.map fun k => (k, s.row k)

-- SELECT … FOR UPDATE SKIP LOCKED of the enabled schedules that are due.
def due (s : ScheduleStore) (now : Int) : List ScheduleKey :=
  schedules.filter fun k => (s.row k).enabled ∧ (s.row k).next_run_at ≤ now ∧ s.locks k = none

-- The SELECT of `reset_schedule`.
def enabled (s : ScheduleStore) (pipeline_name : String) : List ScheduleKey :=
  schedules.filter fun k => k.pipeline_name = pipeline_name ∧ (s.row k).enabled

-- `_create_execution`.
def create_execution (s : ScheduleStore) (k : ScheduleKey) (schedule : PipelineSchedule)
    (uuid : ℕ) : ScheduleStore :=
  { s with executions :=
      ⟨⟨k.schedule_name, uuid⟩, k.pipeline_name, schedule.runtime_params, k,
        schedule.next_run_at⟩ :: s.executions }

def commit (s : ScheduleStore) (i : TaskId) (done : Writes) : ScheduleStore :=
  { s with
    row := fun k => (done.lookup k).getD (s.row k)
    locks := s.locks.release i }

def rollback (s : ScheduleStore) (i : TaskId) : ScheduleStore :=
  { s with locks := s.locks.release i }

end ScheduleStore

namespace SchedulerPc

variable (schedules : List ScheduleKey)

-- The next statement, with what the table says to it.
def go (i : TaskId) (s : ScheduleStore) : SchedulerPc → Option (ScheduleStore × SchedulerPc)
  | idle => none
  | poll now =>
      if s.due schedules now = [] then some (s, idle)
      else
        some ({ s with locks := s.locks.take i (s.due schedules now) },
          trigger now (s.load (s.due schedules now)) [] [])
  | trigger _ [] done _ => some (s.commit i done, idle)
  | trigger _ (_ :: _) _ _ => none
  | reset pipeline_name triggered_at =>
      some (s, update triggered_at (s.load (s.enabled schedules pipeline_name)) [])
  | update triggered_at ((k, loaded) :: rest) done =>
      let new := loaded.reset next_run triggered_at
      if loaded.dirty new then
        -- the UPDATE waits for whoever has the row locked
        if s.locks k = none then
          some ({ s with locks := s.locks.take i [k] },
            update triggered_at rest ((k, loaded.flush new (s.row k)) :: done))
        else none
      else some (s, update triggered_at rest done)
  | update _ [] done => some (s.commit i done, idle)

def ready : SchedulerPc → Bool
  | idle => true
  | _ => false

-- The next schedule of a poll.
def trigger_pipeline (s : ScheduleStore) (schedule : ScheduleKey)
    (outcome : TriggerOutcome) (uuid : ℕ) :
    SchedulerPc → Option (ScheduleStore × SchedulerPc)
  | trigger now ((k, row) :: due) done created =>
      if k = schedule then
        some (if outcome.created then s.create_execution k row uuid else s,
          trigger now due ((k, row.trigger next_run now outcome ⟨k.schedule_name, uuid⟩) :: done)
            (if outcome.created then k :: created else created))
      else none
  | _ => none

-- The schedules for which the open transaction has created an execution.
def created : SchedulerPc → List ScheduleKey
  | trigger _ _ _ created => created
  | _ => []

end SchedulerPc

namespace ScheduleSystem

variable (schedules : List ScheduleKey)

def step (s : ScheduleSystem) : ScheduleEvent → Option ScheduleSystem
  | .tick d => some { s with store := { s.store with clock := s.store.clock + d } }
  | .poll i => if (s.procs i).ready then some (s.set i s.store (.poll s.store.clock)) else none
  | .run i pipeline_name =>
      if (s.procs i).ready then
        some (s.set i s.store (.reset pipeline_name s.store.clock)) else none
  | .trigger i schedule outcome uuid =>
      ((s.procs i).trigger_pipeline next_run s.store schedule outcome uuid).map
        fun r => s.set i r.1 r.2
  | .go i => ((s.procs i).go next_run schedules i s.store).map fun r => s.set i r.1 r.2
  | .abort i => some (s.set i (s.store.rollback i) .idle)

-- No transaction is open, and the scheduler has fired nothing yet.
def Initial (s : ScheduleSystem) : Prop :=
  (∀ k, s.store.locks k = none) ∧ s.store.executions = [] ∧ ∀ i, s.procs i = .idle

end ScheduleSystem

end PipelineScheduler

end Reflowfy
