import Reflowfy.Value

namespace Reflowfy.TransformationRunner

inductive Mode
  | sync | async | per_record
  deriving DecidableEq, Repr

def Mode.text : Mode → String
  | sync => "sync"
  | async => "async"
  | per_record => "per_record"

structure AppliedStep where
  name : String
  duration : Int
  records_in : ℕ
  records_out : ℕ
  mode : Mode
  concurrency : Option ℕ
  skip_reasons : Option (List (String × ℕ))
  deriving DecidableEq, Repr

-- An exception as errors keep it: its type and its text.
structure Thrown where
  type_name : String
  message : String
  deriving DecidableEq, Repr

-- A `TransformationError`, or one of a subclass of it, with the name of its class.
structure TransformationError where
  type_name : String
  transformation_name : String
  message : String
  original_error : Option Thrown
  step_index : Option ℕ
  records_in : Option ℕ
  culprit_index : Option ℕ
  culprit_record : Option Value
  applied_steps : List AppliedStep

-- What a step, or a hook of the pipeline, raises. The argument of a KeyError is given as a
-- dict looks it up: by its key, or by the TypeError of a value that cannot be hashed.
inductive StepException
  | TransformationError (error : TransformationError)
  | SkipJob (reason : String)
  | SkipRecord (reason shown : String)
  | RecordFailure (index : ℕ) (record : Value) (error : Thrown)
  | KeyError (missing : Except Thrown Key) (error : Thrown)
  | other (error : Thrown)

structure RecordResults where
  records : List Value
  skip_reasons : List (String × ℕ)

-- A `RecordTransformation` with what `effective_concurrency` gives, an `AsyncTransformation`,
-- or any other object with an `apply`.
inductive Kind
  | sync
  | async
  | per_record (effective_concurrency : Except StepException ℕ)

-- A transformation, over the values of `runtime_params`. A missing hook does nothing; a step
-- that declares no type finds no record invalid.
structure Transformation (σ : Type) where
  name : String
  kind : Kind
  validate_input : List Value → Except StepException Unit
  apply : List Value → σ → Except StepException RecordResults × σ
  validate_output : List Value → Except StepException Unit
  find_invalid_records : List Value → Except StepException (Option (ℕ × String))

structure Pipeline (σ : Type) where
  name : String
  define_transformations : List Value → σ → Except StepException (List (Transformation σ))
  validate_steps : Bool

variable {σ : Type}

-- Why a step did not end: an exception, raised with these records at hand, or records that
-- are not what the step promises.
inductive Failure
  | raised (mode : Mode) (records : List Value) (error : StepException)
  | invalid (culprit_index : ℕ) (culprit_record : Option Value) (message : String)

namespace Transformation

-- `_run_sync_step` and `_run_async_step`.
def run (t : Transformation σ) (records : List Value) (params : σ) :
    Except StepException RecordResults × σ :=
  match t.validate_input records with
  | .error e => (.error e, params)
  | .ok () =>
      match t.apply records params with
      | (.error e, params) => (.error e, params)
      | (.ok result, params) =>
          match t.validate_output result.records with
          | .error e => (.error e, params)
          | .ok () => (.ok result, params)

def mode (t : Transformation σ) : Mode :=
  match t.kind with
  | .sync => .sync
  | .async => .async
  | .per_record _ => .per_record

-- `transformation.effective_concurrency()`, of a per-record step.
def concurrency (t : Transformation σ) : Except StepException (Option ℕ) :=
  match t.kind with
  | .per_record effective_concurrency => some <$> effective_concurrency
  | _ => .ok none

-- The body of the `try`.
def step (validate_steps : Bool) (t : Transformation σ) (records : List Value) (params : σ) :
    Except Failure RecordResults × σ :=
  match t.concurrency with
  | .error e => (.error (.raised .sync records e), params)
  | .ok _ =>
      match t.run records params with
      | (.error e, params) => (.error (.raised t.mode records e), params)
      | (.ok result, params) =>
          if validate_steps && !result.records.isEmpty then
            match t.find_invalid_records result.records with
            | .error e => (.error (.raised t.mode result.records e), params)
            | .ok (some (index, message)) =>
                (.error (.invalid index result.records[index]? message), params)
            | .ok none => (.ok result, params)
          else (.ok result, params)

end Transformation

def scan_limit : ℕ := 10000

def is_dict : Value → Bool
  | .dict _ => true
  | _ => false

-- The first of the records that is a dict without the key. `missing not in record` raises where
-- the argument cannot be hashed.
def find_missing (missing : Except Thrown Key) : List (Value × ℕ) →
    Except Thrown (Option (ℕ × Value))
  | [] => .ok none
  | (.dict entries, i) :: records => do
      let key ← missing
      if entries.any fun entry => entry.1 = key then find_missing missing records
      else return some (i, .dict entries)
  | _ :: records => find_missing missing records

def find_culprit_record (error : StepException) (records : List Value) :
    Except Thrown (Option (ℕ × Value)) :=
  match error with
  | .KeyError missing _ => find_missing missing (records.take scan_limit).zipIdx
  | _ => .ok none

def StepException.thrown : StepException → Thrown
  | .TransformationError error => ⟨error.type_name,
      "Transformation '" ++ error.transformation_name ++ "' failed: " ++ error.message⟩
  | .SkipJob reason => ⟨"SkipJob", reason⟩
  | .SkipRecord reason _ => ⟨"SkipRecord", reason⟩
  | .RecordFailure index _ error =>
      ⟨"RecordFailure", "record " ++ toString index ++ ": " ++ error.type_name ++
        ": " ++ error.message⟩
  | .KeyError _ error => error
  | .other error => error

-- The `except` clauses: what leaves the runner when a step has failed. An error of
-- `find_culprit_record` leaves it as it is raised.
def failed (t : Transformation σ) (applied : List AppliedStep) (records_in : ℕ) :
    Failure → StepException
  | .invalid index record message => .TransformationError
      { type_name := "StepOutputError"
        transformation_name := t.name
        message := "returned " ++ message
        original_error := none
        step_index := some applied.length
        records_in := none
        culprit_index := some index
        culprit_record := record
        applied_steps := applied }
  | .raised _ _ (.TransformationError error) => .TransformationError error
  | .raised _ _ (.SkipJob reason) => .SkipJob reason
  | .raised mode _ (.SkipRecord reason shown) => .TransformationError
      { type_name := "TransformationError"
        transformation_name := t.name
        message := "SkipRecord(" ++ shown ++ ") raised from a " ++ mode.text ++
          " transformation; it only works in a per-record one (@record_transformation). " ++
          "Filter the record out of the list instead, or raise SkipJob to drop the whole job."
        original_error := some (StepException.SkipRecord reason shown).thrown
        step_index := some applied.length
        records_in := some records_in
        culprit_index := none
        culprit_record := none
        applied_steps := applied }
  | .raised _ _ (.RecordFailure index record error) => .TransformationError
      { type_name := "TransformationError"
        transformation_name := t.name
        message := (StepException.RecordFailure index record error).thrown.message
        original_error := some error
        step_index := some applied.length
        records_in := some records_in
        culprit_index := some index
        culprit_record := some record
        applied_steps := applied }
  | .raised _ records error =>
      match find_culprit_record error records with
      | .error e => .other e
      | .ok culprit => .TransformationError
          { type_name := "TransformationError"
            transformation_name := t.name
            message := error.thrown.type_name ++ ": " ++ error.thrown.message
            original_error := some error.thrown
            step_index := some applied.length
            records_in := some records_in
            culprit_index := culprit.map (·.1)
            culprit_record := culprit.map (·.2)
            applied_steps := applied }

def exceeded (p : Pipeline σ) (max_steps : ℕ) : StepException := .TransformationError
  { type_name := "TransformationError"
    transformation_name := p.name
    message := "Exceeded max_steps=" ++ toString max_steps ++
      " while resolving transformations; define_transformations " ++
      "appears to append without bound."
    original_error := none
    step_index := none
    records_in := none
    culprit_index := none
    culprit_record := none
    applied_steps := [] }

-- A transformation that was run, with the records and the params it was given.
structure Call (σ : Type) where
  transformation : Transformation σ
  records : List Value
  runtime_params : σ

-- Where the loop stands; `applied_count` is the number of applied steps. `calls` is kept for
-- what is said about runs.
structure State (σ : Type) where
  transformed : List Value
  runtime_params : σ
  applied : List AppliedStep
  calls : List (Call σ)

structure Outcome (σ : Type) where
  result : Except StepException (List Value × List AppliedStep)
  runtime_params : σ
  calls : List (Call σ)

def State.start (original_records : List Value) (runtime_params : σ) : State σ :=
  ⟨original_records, runtime_params, [], []⟩

-- `AppliedStep(...)`, of a step that ended.
def applied_step (t : Transformation σ) (duration : Int) (records_in : ℕ)
    (result : RecordResults) : AppliedStep where
  name := t.name
  duration := duration
  records_in := records_in
  records_out := result.records.length
  mode := t.mode
  concurrency := match t.concurrency with
    | .ok concurrency => concurrency
    | .error _ => none
  skip_reasons := if t.mode = .per_record then some result.skip_reasons else none

-- One round of the loop. `duration` is the time each step takes.
def round (p : Pipeline σ) (original_records : List Value) (max_steps : ℕ)
    (duration : ℕ → Int) (s : State σ) :
    State σ ⊕ Outcome σ :=
  match p.define_transformations original_records s.runtime_params with
  | .error e => .inr ⟨.error e, s.runtime_params, s.calls⟩
  | .ok current =>
      match current[s.applied.length]? with
      | none => .inr ⟨.ok (s.transformed, s.applied), s.runtime_params, s.calls⟩
      | some t =>
          if max_steps ≤ s.applied.length then
            .inr ⟨.error (exceeded p max_steps), s.runtime_params, s.calls⟩
          else
            let calls := s.calls ++ [⟨t, s.transformed, s.runtime_params⟩]
            match t.step p.validate_steps s.transformed s.runtime_params with
            | (.error failure, params) =>
                .inr ⟨.error (failed t s.applied s.transformed.length failure), params, calls⟩
            | (.ok result, params) =>
                .inl ⟨result.records, params,
                  s.applied ++ [applied_step t (duration s.applied.length)
                    s.transformed.length result], calls⟩

end Reflowfy.TransformationRunner
