import Reflowfy.Models
import Reflowfy.RuntimeParams

namespace Reflowfy

-- A narrowed source as the plan yields it: what identifies the source, and the params that
-- the plan attached to this job alone.
structure Planned (S : Type) where
  source : S
  job_params : Option Params

-- The message of one job.
structure JobPayload (S : Type) where
  job_id : JobId
  source : S
  job_params : Params
  metadata : Metadata

-- A row of `jobs` as `create_jobs` inserts it.
structure PlannedJob (S : Type) where
  job_id : JobId
  job_payload : JobPayload S
  batch_number : ℕ

namespace PipelineRunner

variable {S : Type}

-- The params of a planned job: the execution's, and its own over them.
def job_params (default_job_params : Params) (sub_source : Planned S) : Params :=
  default_job_params.merge (sub_source.job_params.getD .empty)

def job_payload (context : ExecutionContext) (default_job_params : Params) (job_id : JobId)
    (sub_source : Planned S) :
    JobPayload S where
  job_id := job_id
  source := sub_source.source
  job_params := sub_source.job_params.getD .empty
  metadata :=
    { context
      runtime_params := job_params default_job_params sub_source
      current_ids := job_params default_job_params sub_source "current_ids" }

-- The local variables of Phase 1, and the rows that `create_jobs` has inserted for the
-- execution.
structure PlanLoop (S : Type) where
  batch_number : ℕ
  job_count : ℕ
  current_job_ids : List JobId
  job_rows : List (PlannedJob S)
  saved : List (PlannedJob S)

namespace PlanLoop

def start : PlanLoop S := ⟨1, 0, [], [], []⟩

-- The loop's body up to the check of the buffer; the job comes with its fresh id.
def append (context : ExecutionContext) (default_job_params : Params) (p : PlanLoop S)
    (sub_source : JobId × Planned S) :
    PlanLoop S :=
  { p with
    job_rows := p.job_rows ++
      [⟨sub_source.1, job_payload { context with batch_number := p.batch_number }
      default_job_params sub_source.1 sub_source.2, p.batch_number⟩]
    current_job_ids := p.current_job_ids ++ [sub_source.1]
    job_count := p.job_count + 1 }

def create_jobs (p : PlanLoop S) : PlanLoop S := { p with saved := p.saved ++ p.job_rows }

-- `if len(current_job_ids) >= CHECKPOINT_BATCH_SIZE`.
def flush (CHECKPOINT_BATCH_SIZE : ℕ) (p : PlanLoop S) : PlanLoop S :=
  if CHECKPOINT_BATCH_SIZE ≤ p.current_job_ids.length then
    { p.create_jobs with job_rows := [], batch_number := p.batch_number + 1, current_job_ids := [] }
  else p

-- The loop over a plan.
def run (CHECKPOINT_BATCH_SIZE : ℕ) (context : ExecutionContext) (default_job_params : Params)
    (plan : List (JobId × Planned S)) : PlanLoop S :=
  plan.foldl (fun p sub_source => (p.append context default_job_params sub_source).flush
    CHECKPOINT_BATCH_SIZE) start

end PlanLoop

-- What Phase 1 leaves in the tables.
structure SavedPlan (S : Type) where
  jobs : List (PlannedJob S)
  total_jobs : ℕ

def bulk_set_total_batches (total_batches : ℕ) (jobs : List (PlannedJob S)) : List (PlannedJob S) :=
  jobs.map fun job =>
    { job with job_payload.metadata.context.total_batches := total_batches }

-- Phase 1 of `_plan_and_dispatch`, when it is not stopped.
def plan_jobs (CHECKPOINT_BATCH_SIZE : ℕ) (context : ExecutionContext) (default_job_params : Params)
    (plan : List (JobId × Planned S)) : SavedPlan S :=
  let p := (PlanLoop.run CHECKPOINT_BATCH_SIZE context default_job_params plan).create_jobs
  { jobs := bulk_set_total_batches p.batch_number p.saved, total_jobs := p.job_count }

end PipelineRunner

end Reflowfy
