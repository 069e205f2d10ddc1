import Reflowfy.Manager.System
import Mathlib.Data.Rat.Init

namespace Reflowfy.RunSettings

open Interleaving

-- The dispatcher of a manager: in the process itself, or over Kafka.
inductive Dispatcher
  | LocalDispatcher | KafkaDispatcher
  deriving DecidableEq, Repr

-- The overrides of a `RunPipelineRequest`. Rates are in jobs a minute.
structure RunPipelineRequest where
  rate_limit : Option ℚ
  mode : Option String
  enable_duplicate_jobs : Option Bool
  deriving DecidableEq, Repr

structure Pipeline where
  rate_limit : Option ℚ
  enable_duplicate_jobs : Bool
  deriving DecidableEq, Repr

-- What a task finds in the process it runs in: the environment variable, where it is set, and
-- the pipeline in the registry.
structure Process where
  EXECUTION_MODE : Option String
  pipeline : Pipeline
  deriving DecidableEq, Repr

-- `_make_manager`, with the dispatcher that the `ReflowManager` selects.
def make_manager (process : Process) (mode : Option String) : Dispatcher :=
  let config := process.EXECUTION_MODE.getD "distributed"
  let execution_mode := match mode with
    | some mode => if mode = "" then config else mode
    | none => config
  if execution_mode = "local" then .LocalDispatcher else .KafkaDispatcher

-- An override, or else the pipeline's own limit, if that is not 0.
def effective_rate_limit (rate_limit : Option ℚ) (pipeline : Pipeline) : Option ℚ :=
  match rate_limit with
  | some rate => some rate
  | none => match pipeline.rate_limit with
    | some rate => if rate = 0 then none else some rate
    | none => none

-- What a task dispatches with: its manager's dispatcher, and the local variables of
-- `_plan_and_dispatch` or `resume_execution`.
structure Settings where
  dispatcher : Dispatcher
  effective_rate_limit : Option ℚ
  enable_duplicate_jobs : Bool
  deriving DecidableEq, Repr

-- `_dispatch_pipeline_jobs`, with `_plan_and_dispatch`.
def dispatch_pipeline_jobs (process : Process) (request : RunPipelineRequest) : Settings where
  dispatcher := make_manager process request.mode
  effective_rate_limit := effective_rate_limit request.rate_limit process.pipeline
  enable_duplicate_jobs := request.enable_duplicate_jobs.getD process.pipeline.enable_duplicate_jobs

-- A job that a loop has sent: how, at which rate, and with the `dedup_check` of its payload.
structure SentJob where
  job_id : JobId
  dispatcher : Dispatcher
  rate_limit : Option ℚ
  dedup_check : Option Bool
  deriving DecidableEq, Repr

-- The execution of a request beside what the manager's system has of it: the column
-- `executions.rate_limit`, the `dedup_check` of each job's payload, the settings of each task,
-- and the jobs that have been sent.
structure RunState where
  manager : Manager
  rate_limit : Option ℚ
  dedup_checks : JobId → Option Bool
  settings : TaskId → Settings
  sent : List SentJob

-- `_resume_execution_sync` makes a manager without a mode, whatever the request said, and
-- `resume_execution` reads the row's `rate_limit` before its loop. Whether a job may run twice
-- is in the jobs' payloads by then.
def Settings.resettle (settings : Settings) (process : Process) (rate_limit : Option ℚ) :
    Proc → Proc → Settings
  | .resume .counts, .resume .orphans | .resume .counts, .drive _ _ =>
      { settings with
        effective_rate_limit := RunSettings.effective_rate_limit rate_limit process.pipeline }
  | _, .resume .load => { settings with dispatcher := make_manager process none }
  | _, _ => settings

variable (cfg : Config) (request : RunPipelineRequest) (process : TaskId → Process)

namespace RunState

-- The configuration of the manager that a task runs in.
def config (s : RunState) (i : TaskId) : Config :=
  { cfg with local_mode := (s.settings i).dispatcher = .LocalDispatcher }

-- The payloads of the jobs that a planner saves.
def save (s : RunState) (i : TaskId) (stmt : Stmt) : JobId → Option Bool :=
  match stmt with
  | .create_jobs rows => fun k =>
      if s.manager.store.execution.isSome ∧ k ∈ rows.map Prod.fst then
        some (!(s.settings i).enable_duplicate_jobs)
      else s.dedup_checks k
  | _ => s.dedup_checks

end RunState

-- The job that a step of a loop sends: to its own process once it has a token, or as a message.
def sends (local_mode : Bool) : Proc → Choice → Option (JobId × Dispatcher)
  | .drive _ (.acquire_token _ batch), .ok =>
      if local_mode then batch.jobs.head?.map (·, .LocalDispatcher) else none
  | .drive _ (.send _ batch), .ok => batch.jobs.head?.map (·, .KafkaDispatcher)
  | _, _ => none

namespace RunState

def record (s : RunState) (i : TaskId) (choice : Choice) : List SentJob :=
  match sends (s.config cfg i).local_mode (s.manager.procs i) choice with
  | some (job_id, dispatcher) =>
      ⟨job_id, dispatcher, (s.settings i).effective_rate_limit, s.dedup_checks job_id⟩ :: s.sent
  | none => s.sent

def step (s : RunState) : Event → Option RunState
  | .go i choice =>
      (s.manager.act (s.config cfg i) i choice).bind fun a =>
        (s.manager.step (s.config cfg i) (.go i choice)).map fun manager =>
          { s with
            manager
            dedup_checks := s.save i a.stmt
            settings := Function.update s.settings i
              ((s.settings i).resettle (process i) s.rate_limit (s.manager.procs i)
                (manager.procs i))
            sent := s.record cfg i choice }
  | e => (s.manager.step cfg e).map fun manager => { s with manager }

-- The request has been accepted, and its background task begins.
def Initial (s : RunState) : Prop :=
  s.manager.Fresh ∧ s.rate_limit = request.rate_limit ∧ s.settings 0 = dispatch_pipeline_jobs
    (process 0) request ∧
    s.sent = []

end RunState

end Reflowfy.RunSettings
