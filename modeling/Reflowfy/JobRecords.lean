import Reflowfy.Paging.Loop
import Reflowfy.RecordValidation
import Reflowfy.RuntimeParams
import Reflowfy.Serialization

namespace Reflowfy

open Paging TransformationRunner

-- A pipeline as a job of it runs: `record_type`, and `on_invalid_record = "skip"`. A hook may
-- write to the params.
structure JobPipeline (Destination : Type) extends TransformationRunner.Pipeline Params where
  record_type : Option RecordType
  skip_invalid : Bool
  define_destination : List Value → Params → Except HookError Destination × Params

-- How long the check and each step take.
structure Durations where
  check : Int
  step : ℕ → Int

-- What `run_job_records` returns of a job that has records.
structure JobRecords (Destination : Type) where
  records : List Value
  transformed_records : List Value
  applied : List JobStep
  destination : Destination

namespace JobRunner

variable {Destination : Type}

-- `records[:limit]`.
def limited (limit : Option ℤ) (records : List Value) : List Value :=
  match limit with
  | none => records
  | some n => if 0 ≤ n then records.take n.toNat else records.take (records.length - n.natAbs)

-- `except SkipJob`: no records, and the reason in the params.
def caught : HookError → Params → Except HookError (Option (JobRecords Destination)) × Params
  | .SkipJob reason, params => (.ok none, params.set "skip_reason" (.str reason))
  | e, params => (.error e, params)

def checked (pipeline : JobPipeline Destination) (duration : Int) (records : List Value) :
    Except HookError (List Value × List JobStep) :=
  match pipeline.record_type with
  | none => .ok (records, [])
  | some record_type =>
      (fun (kept, step) => (kept, [.check step])) <$>
        RecordValidation.check_record_type record_type pipeline.skip_invalid duration records

def DEFAULT_MAX_STEPS : ℕ := 1000

-- `define_destination`, of records that have come through the transformations.
def resolve_destination (pipeline : JobPipeline Destination)
    (records transformed_records : List Value) (applied : List JobStep) (params : Params) :
      Except HookError (Option (JobRecords Destination)) × Params :=
  match pipeline.define_destination transformed_records params with
  | (.error e, params) => caught (pipeline_step "define_destination" pipeline.name e) params
  | (.ok destination, params) =>
      (.ok (some ⟨records, transformed_records, applied, destination⟩), params)

-- `run_job_records_async`, with the params as it leaves them; None where there are no records.
def RunsJobRecords (pipeline : JobPipeline Destination)
    (fetch : Params → Except HookError (List Value) × Params)
    (limit : Option ℤ) (durations : Durations) (runtime_params : Params)
    (out : Except HookError (Option (JobRecords Destination)) × Params) : Prop :=
  match fetch runtime_params with
  | (.error e, params) => out = caught (pipeline_step "source fetch" pipeline.name e) params
  | (.ok fetched, params) =>
      let records := limited limit (fetched.map to_json_safe)
      if records = [] then out = (.ok none, params)
      else match checked pipeline durations.check records with
        | .error e => out = caught e params
        | .ok (kept, checks) => ∃ ended,
            Returns (round pipeline.toPipeline kept DEFAULT_MAX_STEPS durations.step)
              (State.start kept params) ended ∧
              match ended.result with
              | .error e => out = caught (.of_step e) ended.runtime_params
              | .ok (transformed_records, applied) =>
                  out = resolve_destination pipeline records transformed_records
                    (checks ++ applied.map .transformation)
                    ended.runtime_params

end JobRunner

end Reflowfy
