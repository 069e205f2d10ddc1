import Reflowfy.JobRunner

namespace Reflowfy

-- What `define_source` returns.
inductive Returned (S : Type)
  | source (source : S)
  | records (records : List Value)
  | other (type_name : String)

-- An ID-based pipeline with the built-in `define_jobs`.
structure IdBasedPipeline (S : Type) where
  name : String
  ids_batch_size : ℕ
  define_source : Params → Except Raised (Returned S)
  -- The dict of params as `define_source` leaves it.
  enriched : Params → Params

namespace IdBasedPipeline

variable {S : Type}

def resolve_source (pipeline : IdBasedPipeline S) (batch_params : Params) :
    Except Raised (Source S) := do
  match ← pipeline.define_source batch_params with
  | .source source => pure (.of source)
  | .records records => pure (.StaticSource records)
  | .other type_name =>
      throw (.other ("Pipeline '" ++ pipeline.name ++
        "': define_source must return a BaseSource or a list of records, got " ++
        type_name))

-- What `define_source` is called with for a batch of IDs.
def batch_params (runtime_params : Params) (ids_batch : List Value) : Params :=
  (runtime_params.set "current_ids" (.list ids_batch)).set "current_id" (ids_batch.headD .None)

-- The source and the params of a batch.
def resolve_for_ids (pipeline : IdBasedPipeline S) (runtime_params : Params)
    (ids_batch : List Value) :
    Except Raised (Source S × Params) := do
  let source ← pipeline.resolve_source (batch_params runtime_params ids_batch)
  pure (source, pipeline.enriched (batch_params runtime_params ids_batch))

-- The params that the plan attaches to the jobs of a batch.
def job_params (enriched : Params → Params) (runtime_params : Params)
    (ids_batch : List Value) : Params :=
  (enriched (batch_params runtime_params ids_batch)).without "input_ids"

-- `runtime_params.get("input_ids", [])`, of params that have passed `validate_parameters`.
def input_ids (runtime_params : Params) : List Value :=
  match runtime_params "input_ids" with
  | some (.list ids) => ids
  | _ => []

-- The built-in plan: one source for each batch of IDs.
def define_jobs (pipeline : IdBasedPipeline S) (runtime_params : Params) :
    Except Raised (List (Planned (Source S))) := do
  let batches ← JobRunner.chunk (input_ids runtime_params) pipeline.ids_batch_size
  batches.mapM fun ids_batch => do
    let (source, batch_params) ← pipeline.resolve_for_ids runtime_params ids_batch
    pure ⟨source, some (batch_params.without "input_ids")⟩

end IdBasedPipeline

end Reflowfy
