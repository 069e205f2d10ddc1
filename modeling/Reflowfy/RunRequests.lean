import Reflowfy.PipelineParameters
import Reflowfy.RunSettings

namespace Reflowfy.RunRequests

open Interleaving

-- What is posted to `/run`.
structure RunPipelineRequest extends RunSettings.RunPipelineRequest where
  pipeline_name : String
  runtime_params : Option Params
  execution_id : Option String

-- `request.runtime_params or {}`.
def RunPipelineRequest.params (request : RunPipelineRequest) : Params :=
  request.runtime_params.getD .empty

-- `request.execution_id or str(uuid.uuid4())`.
def RunPipelineRequest.id_or (request : RunPipelineRequest) (uuid4 : String) : String :=
  match request.execution_id with
  | some execution_id => if execution_id = "" then uuid4 else execution_id
  | none => uuid4

-- The columns of the row that `create_execution` has from a request.
structure Execution where
  pipeline_name : String
  runtime_params : Params
  rate_limit : Option ℚ

-- A background task: the arguments of `_dispatch_pipeline_jobs`.
structure Dispatch where
  execution_id : String
  pipeline_name : String
  runtime_params : Params
  rate_limit_override : Option ℚ
  mode : Option String
  enable_duplicate_jobs : Option Bool

-- A row as it was inserted: by a request, or by something else (a schedule, the DLQ).
structure Insert where
  execution_id : String
  row : Execution
  by_request : Option TaskId

-- The table of executions, and what has been done so far: rows inserted, rows deleted by the
-- retention sweep, background tasks added by a request.
structure Store where
  executions : String → Option Execution
  inserted : List Insert
  deleted : List String
  tasks : List (TaskId × Dispatch)

inductive Answer
  | accepted (execution_id pipeline_name : String)
  | error (status_code : ℕ) (detail : String)
  deriving DecidableEq, Repr

-- Where the request is at the manager.
inductive Stage
  | idle
  | posted
  -- before the checks, `get_execution`, `create_execution`, and the schedule's reset
  | received
  | checked
  | absent
  | created
  | answered (answer : Answer)
  | crashed
  deriving DecidableEq, Repr

-- What the client of the manager comes back with.
inductive Outcome
  | response (answer : Answer)
  | TransportError (message : String)
  deriving DecidableEq, Repr

structure Call where
  request : RunPipelineRequest
  execution_id : String
  stage : Stage
  outcome : Option Outcome

-- An exception of a statement: before it took effect, or once it was committed.
inductive Fault
  | before (message : String)
  | after (message : String)

def Fault.message : Fault → String
  | .before message => message
  | .after message => message

-- The managers' registry; `missing` is `describe_missing`.
structure Registry (S : Type) where
  get : String → Option (PipelineClass S)
  missing : String → String

variable {S : Type} (py : Python) (eq : Value → Value → Bool) (registry : Registry S)

def not_found (pipeline_name : String) : Answer :=
  .error 404 ("Pipeline '" ++ pipeline_name ++ "' not found in registry" ++
    registry.missing pipeline_name)

def invalid (errors : List String) : Answer :=
  .error 422 ("Invalid parameters: " ++ String.intercalate "; " errors)

def conflict (execution_id : String) : Answer :=
  .error 409 ("Execution '" ++ execution_id ++ "' already exists")

def failed_to_start (message : String) : Answer :=
  .error 500 ("Failed to start pipeline: " ++ message)

namespace Store

def insert (store : Store) (execution_id : String) (row : Execution)
    (by_request : Option TaskId) : Store :=
  { store with
    executions := Function.update store.executions execution_id (some row)
    inserted := store.inserted ++ [⟨execution_id, row, by_request⟩] }

def delete (store : Store) (execution_id : String) : Store :=
  { store with
    executions := Function.update store.executions execution_id none
    deleted := store.deleted ++ [execution_id] }

def add_task (store : Store) (i : TaskId) (dispatch : Dispatch) : Store :=
  { store with tasks := store.tasks ++ [(i, dispatch)] }

end Store

namespace Call

def row (call : Call) : Execution :=
  ⟨call.request.pipeline_name, call.request.params, call.request.rate_limit⟩

def dispatch (call : Call) : Dispatch :=
  ⟨call.execution_id, call.request.pipeline_name, call.request.params, call.request.rate_limit,
    call.request.mode,
    call.request.enable_duplicate_jobs⟩

-- What the checks of the registry and of the parameters come to.
def check (call : Call) : Stage :=
  match registry.get call.request.pipeline_name with
  | none => .answered (not_found registry call.request.pipeline_name)
  | some pipeline =>
      match pipeline.apply_defaults call.request.params with
      | .error e => .answered (failed_to_start e.thrown.message)
      | .ok params =>
          match pipeline.validate_parameters py eq params with
          | .error e => .answered (failed_to_start e.thrown.message)
          | .ok [] => .checked
          | .ok errors => .answered (invalid errors)

-- The next statement of the handler of call `i`, which may fail.
def go (i : TaskId) (call : Call) (store : Store) (fault : Option Fault) : Option (Store × Stage) :=
  match call.stage with
  | .received =>
      match fault with
      | none => some (store, call.check py eq registry)
      | some fault => some (store, .answered (failed_to_start fault.message))
  | .checked =>
      match fault with
      | none => some (store, if (store.executions call.execution_id).isSome then
          .answered (conflict call.execution_id) else .absent)
      | some fault => some (store, .answered (failed_to_start fault.message))
  | .absent =>
      match fault with
      | some (.before message) => some (store, .answered (failed_to_start message))
      | fault =>
          if (store.executions call.execution_id).isSome then
            -- IntegrityError, whose text has the id as it was requested
            some (store, .answered (conflict (call.request.execution_id.getD "None")))
          else
            some (store.insert call.execution_id call.row (some i), match fault with
              | some fault => .answered (failed_to_start fault.message)
              | none => .created)
  | .created =>
      match fault with
      | none => some (store.add_task i call.dispatch,
          .answered (.accepted call.execution_id call.request.pipeline_name))
      | some fault => some (store, .answered (failed_to_start fault.message))
  | _ => none

-- Whether a manager is at work on it.
def handling (call : Call) : Bool :=
  match call.stage with
  | .received => true
  | .checked => true
  | .absent => true
  | .created => true
  | _ => false

end Call

abbrev System := Pool Store Call

inductive Event
  | post (i : TaskId) (request : RunPipelineRequest)
  | receive (i : TaskId) (uuid4 : String)
  | go (i : TaskId) (fault : Option Fault)
  | crash (i : TaskId)
  -- the answer arrives, or the client gives up before
  | hear (i : TaskId)
  | give_up (i : TaskId) (message : String)
  | insert (execution_id : String) (row : Execution)
  | delete (execution_id : String)

namespace System

def step (s : System) : Event → Option System
  | .post i request =>
      if (s.procs i).stage = .idle then
        some (s.set i s.store ⟨request, "", .posted, none⟩) else none
  | .receive i uuid4 =>
      if (s.procs i).stage = .posted then
        some (s.set i s.store
          { s.procs i with execution_id := (s.procs i).request.id_or uuid4, stage := .received })
      else none
  | .go i fault =>
      ((s.procs i).go py eq registry i s.store fault).map fun r =>
        s.set i r.1 { s.procs i with stage := r.2 }
  | .crash i => if (s.procs i).handling then
      some (s.set i s.store { s.procs i with stage := .crashed }) else none
  | .hear i =>
      match (s.procs i).stage, (s.procs i).outcome with
      | .answered answer, none =>
          some (s.set i s.store { s.procs i with outcome := some (.response answer) })
      | _, _ => none
  | .give_up i message =>
      if (s.procs i).stage ≠ .idle ∧ (s.procs i).outcome = none then
        some (s.set i s.store { s.procs i with outcome := some (.TransportError message) })
      else none
  | .insert execution_id row =>
      if s.store.executions execution_id = none then
        some { s with store := s.store.insert execution_id row none } else none
  | .delete execution_id =>
      if (s.store.executions execution_id).isSome then
        some { s with store := s.store.delete execution_id } else none

-- Nothing has been posted and the table is empty.
def Initial (s : System) : Prop :=
  s.store = ⟨fun _ => none, [], [], []⟩ ∧ ∀ i, (s.procs i).stage = .idle ∧
    (s.procs i).outcome = none

end System

-- `DistributedExecutor.execute` and the API's `_run_body`, which posts with an id of its own.
structure ExecutionStatus where
  execution_id : String
  pipeline_name : String
  FAILED : Bool
  error_message : Option String
  upstream_error : Bool
  deriving DecidableEq, Repr

def api_request (pipeline_name : String) (runtime_params : Params) (execution_id : String)
    (rate_limit : Option ℚ) (mode : String) : RunPipelineRequest :=
  ⟨⟨rate_limit, some mode, none⟩, pipeline_name, some runtime_params, some execution_id⟩

-- `http_text` is the client's text for a status code.
def execute (http_text : ℕ → String) (pipeline_name execution_id : String) :
    Outcome → ExecutionStatus
  | .response (.accepted _ _) => ⟨execution_id, pipeline_name, false, none, false⟩
  | .response (.error status_code _) =>
      ⟨execution_id, pipeline_name, true,
        some ("ReflowManager HTTP error: " ++ http_text status_code), status_code ≥ 500⟩
  | .TransportError message =>
      ⟨execution_id, pipeline_name, true, some ("ReflowManager HTTP error: " ++ message), true⟩

-- What the API answers: the run, or an HTTPException with the error and the id.
inductive Reply
  | run (execution_id pipeline_name : String)
  | HTTPException (status_code : ℕ) (error : Option String) (execution_id : String)
  deriving DecidableEq, Repr

def check_status (status : ExecutionStatus) : Reply :=
  if status.FAILED then
    .HTTPException (if status.upstream_error then 502 else 422) status.error_message
      status.execution_id
  else .run status.execution_id status.pipeline_name

end Reflowfy.RunRequests
