import Reflowfy.RecordTransformation
import Mathlib.Algebra.Ring.Int.Defs
import Mathlib.Algebra.Ring.Nat
import Mathlib.Data.List.Sort

namespace Reflowfy

open TransformationRunner PerRecord

-- One error of pydantic about a list of records: `loc`, whose first part is the record's index,
-- and the error's type. A part is a position in a list, or else its text.
inductive LocPart
  | position (index : ℕ)
  | name (text : String)
  deriving DecidableEq, Repr

structure RecordError where
  index : ℕ
  path : List LocPart
  error_type : String
  deriving DecidableEq, Repr

-- A record type, with what its adapter finds in a list in strict mode.
structure RecordType where
  type_label : String
  errors : List Value → List RecordError

-- A dict of record indices and reasons.
abbrev Invalid : Type := List (ℕ × String)

namespace RecordValidation

def MAX_INVALID_SHOWN : ℕ := 3

def describe (loc : List LocPart) (error_type : String) : String :=
  let path := loc.foldl (fun path part => match part with
    | .position _ => path ++ "[]"
    | .name text => if path = "" then text else path ++ "." ++ text) ""
  (if path = "" then "<record>" else path) ++ ": " ++ error_type

-- `invalid.setdefault(index, reason)`.
def setdefault (invalid : Invalid) (error : RecordError) : Invalid :=
  if error.index ∈ invalid.map (·.1) then invalid
  else invalid ++ [(error.index, describe error.path error.error_type)]

def find_invalid_records (record_type : RecordType) (records : List Value) : Invalid :=
  (record_type.errors records).foldl setdefault []

def describe_invalid (invalid : Invalid) (total : ℕ) (record_type : RecordType) : String :=
  let shown := (invalid.insertionSort (·.1 ≤ ·.1)).take MAX_INVALID_SHOWN
  let text := "; ".intercalate
    (shown.map fun (index, reason) => "record " ++ toString (index + 1) ++ " of " ++
    toString total ++ " does not match " ++ record_type.type_label ++ ": " ++ reason)
  let more := invalid.length - shown.length
  if 0 < more then text ++ " (+" ++ toString more ++ " more invalid)" else text

end RecordValidation

-- The `AppliedStep` of a `record_type` check, in mode "validate".
structure CheckStep where
  duration : Int
  records_in : ℕ
  records_out : ℕ
  skip_reasons : Option Reasons
  deriving DecidableEq, Repr

-- A step that is reported: the check, or a transformation.
inductive JobStep
  | check (step : CheckStep)
  | transformation (step : AppliedStep)
  deriving DecidableEq, Repr

namespace JobStep

def RECORD_TYPE_STEP : String := "record_type"

def name : JobStep → String
  | check _ => RECORD_TYPE_STEP
  | transformation step => step.name

def duration : JobStep → Int
  | check step => step.duration
  | transformation step => step.duration

def records_in : JobStep → ℕ
  | check step => step.records_in
  | transformation step => step.records_in

def records_out : JobStep → ℕ
  | check step => step.records_out
  | transformation step => step.records_out

-- `step.skip_reasons or {}`.
def skip_reasons : JobStep → Reasons
  | check step => step.skip_reasons.getD []
  | transformation step => step.skip_reasons.getD []

def records_skipped (step : JobStep) : ℕ := (step.skip_reasons.map (·.2)).sum

def delta (step : JobStep) : Int := step.records_out - step.records_in

end JobStep

-- What leaves a hook of the pipeline or a check.
inductive HookError
  | PipelineError (message : String) (original_error : Option Thrown)
  | SkipJob (reason : String)
  | SkipRecord (reason : String)
  | RecordValidationError (message : String) (invalid : Invalid) (total : ℕ)
  | TransformationError (error : TransformationRunner.TransformationError)
  | NotImplementedError (message : String)
  | other (error : Thrown)

def HookError.thrown : HookError → Thrown
  | PipelineError message _ => ⟨"PipelineError", message⟩
  | SkipJob reason => ⟨"SkipJob", reason⟩
  | SkipRecord reason => ⟨"SkipRecord", reason⟩
  | RecordValidationError message _ _ => ⟨"RecordValidationError", message⟩
  | TransformationError error => (StepException.TransformationError error).thrown
  | NotImplementedError message => ⟨"NotImplementedError", message⟩
  | other error => error

-- What leaves the transformation runner.
def HookError.of_step : StepException → HookError
  | .TransformationError error => .TransformationError error
  | .SkipJob reason => .SkipJob reason
  | .SkipRecord reason _ => .SkipRecord reason
  | e => .other e.thrown

-- `with pipeline_step(step, pipeline_name)`, around what raised.
def pipeline_step (step pipeline_name : String) : HookError → HookError
  | .other error => .PipelineError (step ++ " of pipeline '" ++ pipeline_name ++ "' raised " ++
      error.type_name ++ ": " ++
      error.message) (some error)
  | e => e

namespace RecordValidation

-- `check_record_type`, of a pipeline with this `record_type`; `skip` is its `on_invalid_record`.
def check_record_type (record_type : RecordType) (skip : Bool) (duration : Int)
    (records : List Value) :
    Except HookError (List Value × CheckStep) :=
  let invalid := find_invalid_records record_type records
  if invalid = [] then .ok (records, ⟨duration, records.length, records.length, none⟩)
  else if skip then
    let skip_reasons := invalid.foldl
      (fun reasons (_, reason) => count_skip_reason reasons ("invalid " ++ reason) 1) []
    let kept := (records.zipIdx.filter fun (_, i) => i ∉ invalid.map (·.1)).map (·.1)
    .ok (kept, ⟨duration, records.length, kept.length, some skip_reasons⟩)
  else .error (.RecordValidationError (describe_invalid invalid records.length record_type)
    invalid records.length)

end RecordValidation

end Reflowfy
