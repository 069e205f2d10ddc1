import Reflowfy.Planning.IdBatches

namespace Reflowfy

-- An element of the iterable that `define_jobs` returns.
inductive PlanItem (S : Type)
  | source (source : Planned (Source S))
  | records (records : List Value)
  | other (type_name : String)

-- A pipeline after `resolve`: its params, and what `define_jobs` yields, with the params as they
-- are by then. A single source is an iterable of one.
structure ResolvedPlan (S : Type) where
  resolved_params : Params
  items : List (Params × PlanItem S)

-- A job that has been run: what it fetched, and the params that its transformations started with.
structure Ran where
  records : List Value
  runtime_params : Params

namespace PlanItem

variable {S : Type}

def job_params : PlanItem S → Option Params
  | .source planned => planned.job_params
  | .records _ | .other _ => none

-- The jobs of an element.
def plan_slices (kind : SourceKind S) (runtime_params : Params) : PlanItem S →
    Except Raised (List (Planned (Source S)))
  | .source planned => JobRunner.plan_slices kind.with_static planned runtime_params
  | .records items => .ok (if items.isEmpty then [] else [⟨.StaticSource items, none⟩])
  | .other type_name =>
      .error (.other ("define_jobs returned an iterable, so each element must be one job: " ++
      "a list of records or a BaseSource, got " ++ type_name ++
      ". Wrap records with chunk(records, size=N), or return [records] for a single job."))

end PlanItem

-- The worker's side.
namespace WorkerExecutor

variable {S : Type}

def run_job (wire : Value → Value) (kind : SourceKind S) (context : ExecutionContext)
    (default_job_params : Params) (sub_source : Planned (Source S)) : Except Raised Ran := do
  let runtime_params := (PipelineRunner.job_payload context default_job_params 0
    sub_source).runtime_params wire
  let records ← kind.with_static.fetch sub_source.source runtime_params
  pure ⟨records, runtime_params⟩

-- The jobs of a plan, each with the params of the execution that it gets and its own context.
def run_jobs (wire : Value → Value) (kind : SourceKind S) (context : ℕ → ExecutionContext)
    (jobs : List (Params × Planned (Source S))) : Except Raised (List Ran) :=
  (jobs.mapIdx fun i job => (context i, job)).mapM fun (context, job) =>
    run_job wire kind context job.1 job.2

-- The execution's params for the jobs of an element, as the planner takes them: a copy
-- without the IDs for an ID-based pipeline, else the params themselves.
def default_job_params (id_based : Bool) (resolved_params enriched_params : Params) : Params :=
  if id_based then resolved_params.without "input_ids" else enriched_params

def planned_jobs (kind : SourceKind S) (id_based : Bool) (plan : ResolvedPlan S) :
    Except Raised (List (Params × Planned (Source S))) :=
  List.flatten <$> plan.items.mapM fun item =>
    List.map (default_job_params id_based plan.resolved_params item.1, ·) <$>
      item.2.plan_slices kind item.1

-- What the workers run of a plan.
def run_plan (wire : Value → Value) (kind : SourceKind S)
    (context : ℕ → ExecutionContext) (id_based : Bool)
    (plan : ResolvedPlan S) : Except Raised (List Ran) := do
  let jobs ← planned_jobs kind id_based plan
  run_jobs wire kind context jobs

-- What they run for an ID-based pipeline with the built-in `define_jobs`.
def run_id_based (wire : Value → Value) (kind : SourceKind S) (context : ℕ → ExecutionContext)
    (pipeline : IdBasedPipeline S) (enriched_params : Params) : Except Raised (List Ran) := do
  let slices ← pipeline.plan_batches kind enriched_params
  run_jobs wire kind context
    (slices.flatten.map fun sub_source => (enriched_params.without "input_ids", sub_source))

end WorkerExecutor

namespace LocalExecutor

variable {S : Type}

-- `job_runtime_params`.
def job_runtime_params (source : Planned (Source S)) (runtime_params : Params) : Params :=
  runtime_params.merge (source.job_params.getD .empty)

def run_job (kind : SourceKind S) (runtime_params : Params) (sub : Planned (Source S)) :
    Except Raised Ran := do
  let records ← kind.with_static.fetch sub.source (job_runtime_params sub runtime_params)
  pure ⟨records, job_runtime_params sub runtime_params⟩

-- The standard path of `execute`.
def execute (kind : SourceKind S) (context : ExecutionContext) (plan : ResolvedPlan S) :
    Except Raised (List Ran) := do
  let flat_runtime_params := build_flat_runtime_params plan.resolved_params context none
  let slices ← plan.items.mapM fun item => item.2.plan_slices kind flat_runtime_params
  List.flatten <$> slices.mapM fun subs => subs.mapM (run_job kind flat_runtime_params)

section IdBased

-- What a job's transformations and destination leave of the dict that they share.
variable (transformed : List Value → Params → Params)

-- A job without records runs none.
def after_job (records : List Value) (runtime_params : Params) : Params :=
  if records.isEmpty then runtime_params else transformed records runtime_params

-- The slices of one ID, which share their params.
def run_slices (kind : SourceKind S) : Params → List (Planned (Source S)) → Except Raised (List Ran)
  | _, [] => .ok []
  | flat_id_params, sub :: subs => do
      let records ← kind.with_static.fetch sub.source flat_id_params
      let rest ← run_slices kind (after_job transformed records flat_id_params) subs
      pure (⟨records, flat_id_params⟩ :: rest)

def flat_id_params (context : ExecutionContext) (batch_params : Params)
    (current_id : Value) : Params :=
  (build_flat_runtime_params batch_params context (some (.list [current_id]))).set
    "current_id" current_id

def run_id (kind : SourceKind S) (context : ExecutionContext)
    (pipeline : IdBasedPipeline S) (params : Params)
    (current_id : Value) : Except Raised (List Ran) := do
  let (source, batch_params) ← pipeline.resolve_for_ids params [current_id]
  let subs ← JobRunner.plan_slices kind.with_static ⟨source, none⟩
    (flat_id_params context batch_params current_id)
  run_slices transformed kind (flat_id_params context batch_params current_id) subs

-- `_execute_id_based`.
def execute_id_based (kind : SourceKind S) (context : ExecutionContext)
    (pipeline : IdBasedPipeline S) (params : Params) :
    Except Raised (List Ran) :=
  List.flatten <$> (IdBasedPipeline.input_ids params).mapM
    (run_id transformed kind context pipeline params)

end IdBased

end LocalExecutor

end Reflowfy
