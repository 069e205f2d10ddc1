import Reflowfy.Value
import Mathlib.Logic.Function.Basic

namespace Reflowfy

-- A dict of runtime params.
abbrev Params := String → Option Value

namespace Params

def empty : Params := fun _ => none

-- `{**params, **others}`.
def merge (params others : Params) : Params := fun k => others k <|> params k

-- `params[k] = v`.
def set (params : Params) (k : String) (v : Value) : Params := Function.update params k (some v)

-- `{k: v for k, v in params.items() if k != name}`.
def without (params : Params) (name : String) : Params := fun k => if k = name then
    none else params k

@[simp] theorem merge_empty (params : Params) : params.merge empty = params := rfl

theorem without_of_ne {params : Params} {name k : String} (h : k ≠ name) :
    params.without name k = params k := if_neg h

@[simp] theorem without_self (params : Params) (name : String) :
    params.without name name = none := if_pos rfl

theorem set_of_ne {params : Params} {name k : String} {v : Value} (h : k ≠ name) :
    params.set name v k = params k :=
  Function.update_of_ne h ..

@[simp] theorem set_self (params : Params) (name : String) (v : Value) :
    params.set name v name = some v :=
  Function.update_self ..

end Params

-- The part of an `ExecutionContext` that a job's metadata carries beside the params.
structure ExecutionContext where
  execution_id : String
  batch_id : String
  pipeline_name : String
  created_at : String
  batch_number : ℕ
  total_batches : ℕ
  retry_count : ℕ
  is_retry : Bool
  deriving DecidableEq, Repr

namespace ExecutionContext

-- The reserved keys, with their values.
def keys (context : ExecutionContext) : Params
  | "execution_id" => some (.str context.execution_id)
  | "batch_id" => some (.str context.batch_id)
  | "pipeline_name" => some (.str context.pipeline_name)
  | "created_at" => some (.str context.created_at)
  | "batch_number" => some (.int context.batch_number)
  | "total_batches" => some (.int context.total_batches)
  | "retry_count" => some (.int context.retry_count)
  | "is_retry" => some (.bool context.is_retry)
  | _ => none

end ExecutionContext

-- `if current_ids is not None`.
def given : Option Value → Option Value
  | some .None => none
  | value => value

def build_flat_runtime_params (base_params : Params) (context : ExecutionContext)
    (current_ids : Option Value) : Params :=
  (base_params.merge context.keys).merge fun k => if k = "current_ids" then
    given current_ids else none

-- The metadata of a job's message.
structure Metadata where
  context : ExecutionContext
  runtime_params : Params
  current_ids : Option Value

def build_flat_runtime_params_from_metadata (metadata : Metadata) : Params :=
  build_flat_runtime_params metadata.runtime_params metadata.context metadata.current_ids

end Reflowfy
