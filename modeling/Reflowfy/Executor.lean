import Reflowfy.JobManager
import Reflowfy.JobRecords
import Reflowfy.RecordIdentity

namespace Reflowfy

open TransformationRunner PerRecord

namespace Executor

-- `JobStats` with what it counts; `transformation_times` is a dict.
structure JobStats extends Reflowfy.JobStats where
  records_input : ℕ
  transformation_times : List (String × Int)
  error_type : Option String
  records_deduplicated : ℕ
  skip_reason : Option Value
  records_skipped : ℕ
  record_skip_reasons : Reasons
  redelivered : Bool
  cancelled : Bool

def JobStats.start : JobStats where
  deduplicated := false
  success := false
  records_output := 0
  error := none
  error_traceback := none
  records_input := 0
  transformation_times := []
  error_type := none
  records_deduplicated := 0
  skip_reason := none
  records_skipped := 0
  record_skip_reasons := []
  redelivered := false
  cancelled := false

-- `transformation_times[step.name] = round(step.duration, 3)`; a duration is in milliseconds.
def set_time (times : List (String × Int)) (name : String) (duration : Int) : List (String × Int) :=
  if name ∈ times.map (·.1) then times.map fun entry => if entry.1 = name then
    (name, duration) else entry
  else times ++ [(name, duration)]

-- The body of the loop over the applied steps.
def JobStats.count (stats : JobStats) (step : JobStep) : JobStats :=
  let stats := { stats with
    transformation_times := set_time stats.transformation_times step.name step.duration }
  if step.records_skipped = 0 then stats
  else
    { stats with
      records_skipped := stats.records_skipped + step.records_skipped
      record_skip_reasons := step.skip_reasons.foldl
        (fun reasons (reason, times) => count_skip_reason reasons reason times)
        stats.record_skip_reasons }

-- The label of `jobs_processed_total`.
def JobStats.status (stats : JobStats) : String :=
  if stats.cancelled then "cancelled"
  else if stats.redelivered then "redelivered"
  else if stats.deduplicated then "deduplicated"
  else if stats.skip_reason.isSome then "skipped"
  else if stats.success then "completed"
  else "failed"

-- `metrics.records_processed_total`.
def JobStats.records_processed (stats : JobStats) : ℕ :=
  if stats.success then stats.records_output else 0

variable {Destination : Type}

-- What a delivery of a job runs with: what `_claim_job` and the registry say, the rebuilt source,
-- and, for a job with `dedup_check`, the hashes of its records and those of them it wins. The
-- upgrade guard is `held_by_other_job`.
structure Delivered (Destination : Type) where
  claim_job : Option JobState
  runtime_params : Params
  source : Except Thrown (Params → Except HookError (List Value) × Params)
  pipeline : Option (JobPipeline Destination)
  pipeline_missing : Thrown
  durations : Durations
  dedup_check : Bool
  held_by_other_job : Bool
  hashes : List Value → Except Thrown (List RecordHash)
  claim_record_hashes : List RecordHash → Except Thrown (List RecordHash)
  health_check : Destination → Except Thrown Bool
  send_with_retry : Destination → List Value → Except Thrown Unit
  format_exc : Thrown → String

-- How a delivery ends: what it returns, its stats, whether it writes them to the job's row, the
-- sends it makes, and the job that it ran, if it came so far.
structure Run (Destination : Type) where
  returned : Bool
  stats : JobStats
  reported : Bool
  sends : List (Destination × List Value)
  job : Option (JobRecords Destination)

section Job

variable (delivered : Delivered Destination) (job : JobRecords Destination)

-- `except Exception`.
def failed (stats : JobStats) (sends : List (Destination × List Value))
    (job : Option (JobRecords Destination)) (e : Thrown) :
    Run Destination where
  returned := false
  stats :=
    { stats with
      success := false
      error := some e.message
      error_type := some e.type_name
      error_traceback := some (delivered.format_exc e) }
  reported := true
  sends := sends
  job := job

-- `_claim_records`: the records to send.
def claim_records (transformed_records : List Value) : Except Thrown (List Value) :=
  if delivered.held_by_other_job then .ok []
  else do
    let hashes ← delivered.hashes transformed_records
    let won ← delivered.claim_record_hashes hashes
    return keep_records won [] (transformed_records.zip hashes)

-- From the health check on.
def deliver (stats : JobStats) (destination : Destination) (transformed_records : List Value) :
    Run Destination :=
  match delivered.health_check destination with
  | .error e => failed delivered stats [] (some job) e
  | .ok false =>
      { returned := false
        stats := { stats with success := false, error := some "Destination health check failed" }
        reported := true
        sends := []
        job := some job }
  | .ok true =>
      match delivered.send_with_retry destination transformed_records with
      | .error e => failed delivered stats [(destination, transformed_records)] (some job) e
      | .ok () => ⟨true, { stats with success := true }, true,
          [(destination, transformed_records)], some job⟩

-- After the claims: a second destination where records have been dropped.
def send_kept (pipeline : JobPipeline Destination) (stats : JobStats) (params : Params)
    (kept : List Value) :
    Run Destination :=
  let stats := { stats with records_deduplicated := job.transformed_records.length - kept.length }
  if kept = [] then
    ⟨true, { stats with deduplicated := true, success := true, records_output := 0 },
      true, [], some job⟩
  else if stats.records_deduplicated = 0 then
    deliver delivered job { stats with records_output := kept.length } job.destination kept
  else
    match pipeline.define_destination kept params with
    | (.error e, _) => failed delivered stats [] (some job)
        (pipeline_step "define_destination" pipeline.name e).thrown
    | (.ok destination, _) => deliver delivered job
        { stats with records_output := kept.length } destination kept

-- A job with records.
def run_records (pipeline : JobPipeline Destination) (params : Params) : Run Destination :=
  let stats := job.applied.foldl JobStats.count
    { JobStats.start with records_input := job.records.length }
  let stats := { stats with records_output := job.transformed_records.length }
  if delivered.dedup_check ∧ job.transformed_records ≠ [] then
    match claim_records delivered job.transformed_records with
    | .error e => failed delivered stats [] (some job) e
    | .ok kept => send_kept delivered job pipeline stats params kept
  else deliver delivered job stats job.destination job.transformed_records

end Job

-- A job without.
def without_records (params : Params) : Run Destination where
  returned := true
  stats := { JobStats.start with skip_reason := given (params "skip_reason"), success := true }
  reported := true
  sends := []
  job := none

-- `_execute_job_inner`, where it is not shut down on its way.
def ExecutesJob (delivered : Delivered Destination) (out : Run Destination) : Prop :=
  match delivered.claim_job with
  | some .cancelled =>
      out = ⟨true, { JobStats.start with cancelled := true, success := true }, false, [], none⟩
  | some _ => out = ⟨true,
      { JobStats.start with redelivered := true, success := true }, false, [], none⟩
  | none =>
      match delivered.source with
      | .error e => out = failed delivered JobStats.start [] none e
      | .ok fetch =>
          match delivered.pipeline with
          | none => out = failed delivered JobStats.start [] none delivered.pipeline_missing
          | some pipeline => ∃ result params,
              JobRunner.RunsJobRecords pipeline fetch none delivered.durations
                delivered.runtime_params (result, params) ∧
                out = match result with
                  | .error e => failed delivered JobStats.start [] none e.thrown
                  | .ok none => without_records params
                  | .ok (some job) => run_records delivered job pipeline params

end Executor

end Reflowfy
