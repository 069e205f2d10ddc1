import Reflowfy.AsyncUtils
import Reflowfy.TransformationRunner

namespace Reflowfy.PerRecord

open AsyncUtils TransformationRunner

def MAX_SKIP_REASONS : ℕ := 20

def MAX_SKIP_REASON_LENGTH : ℕ := 200

def OTHER_SKIP_REASON : String := "(other reasons)"

abbrev Reasons : Type := List (String × ℕ)

-- `reasons[reason] = reasons.get(reason, 0) + times`.
def add_times (reasons : Reasons) (reason : String) (times : ℕ) : Reasons :=
  match reasons with
  | [] => [(reason, times)]
  | (r, n) :: reasons => if r = reason then (r, n + times) :: reasons
      else (r, n) :: add_times reasons reason times

-- `reason[:MAX_SKIP_REASON_LENGTH] or "(no reason)"`.
def shorten (reason : String) : String :=
  let text := String.ofList (reason.toList.take MAX_SKIP_REASON_LENGTH)
  if text = "" then "(no reason)" else text

def count_skip_reason (reasons : Reasons) (reason : String) (times : ℕ) : Reasons :=
  let reason := shorten reason
  if reason ∉ reasons.map (·.1) ∧ MAX_SKIP_REASONS ≤ reasons.length then
    add_times reasons OTHER_SKIP_REASON times
  else add_times reasons reason times

-- What `_apply_one` gives back: what `apply_record` returned, or `_Skipped`.
inductive Applied
  | value (record : Value)
  | Skipped (reason : String)

-- How an `await` of `apply_record` ends, with or without a `wait_for` around it.
inductive Awaited
  | returned (record : Value)
  | TimeoutError (error : Thrown)
  | raised (error : StepException)

-- `timeout` is `self.timeout`, as its text.
def apply_one (timeout : Option String) (index : ℕ) (record : Value) : Awaited →
    Except StepException Applied
  | .returned result => .ok (.value result)
  | .TimeoutError error => match timeout with
      | none => .error (.RecordFailure index record error)
      | some seconds => .error (.RecordFailure index record
          ⟨"TimeoutError", "timed out after " ++ seconds ++ "s"⟩)
  | .raised (.SkipJob reason) => .error (.SkipJob reason)
  | .raised (.RecordFailure i r error) => .error (.RecordFailure i r error)
  | .raised (.SkipRecord reason _) => .ok (.Skipped reason)
  | .raised error => .error (.RecordFailure index record error.thrown)

abbrev RecordPool : Type := Pool Value Applied StepException Unit

-- A subclass with its hooks: what `setup` and `teardown` come to.
structure RecordTransformation where
  effective_concurrency : Except StepException ℕ
  timeout : Option String
  setup : Except StepException Unit
  teardown : Except StepException Unit

def apply_all (records : List Value) (effective_concurrency : ℕ) : RecordPool :=
  Pool.start .gathering (min effective_concurrency records.length) records

-- The calls of the pool are those of `_apply_one`.
def AppliesOne (timeout : Option String) (s : RecordPool) : Action Applied StepException Unit → Prop
  | .finish w result => ∃ index record awaited, s.workers[w]? = some (.calling index false) ∧
      s.items[index]? = some record ∧ apply_one timeout index record awaited = .ok result
  | .fail w error => ∃ index cancelling record awaited, s.workers[w]? =
      some (.calling index cancelling) ∧
      s.items[index]? = some record ∧ apply_one timeout index record awaited = .error error
  | _ => True

-- What a run of `_apply_all` gives back.
def AppliesAll (timeout : Option String) (records : List Value) (effective_concurrency : ℕ)
    (out : Except StepException (List (Option Applied))) : Prop :=
  ∃ s, Interleaving.Reach Pool.step (· = apply_all records effective_concurrency)
    (AppliesOne timeout) s ∧
    (s.caller = .returned ∧ out = .ok s.results ∨ ∃ error, s.caller = .raised error ∧
      out = .error error)

-- The body of the loop over the results.
def keep (kept : RecordResults) : Option Applied → RecordResults
  | some (.Skipped reason) =>
      { kept with skip_reasons := count_skip_reason kept.skip_reasons reason 1 }
  | some (.value .None) => kept
  | some (.value record) => { kept with records := kept.records ++ [record] }
  | none => kept

namespace RecordTransformation

def ApplyRecords (t : RecordTransformation) (records : List Value)
    (out : Except StepException RecordResults) : Prop :=
  if records.isEmpty then out = .ok ⟨[], []⟩
  else match t.setup, t.effective_concurrency with
    | .error e, _ => out = .error e
    | .ok (), .error e => out = t.teardown >>= fun _ => .error e
    | .ok (), .ok concurrency => ∃ results, AppliesAll t.timeout records concurrency results ∧
        out = do
          t.teardown
          let results ← results
          return results.foldl keep ⟨[], []⟩

end RecordTransformation

end Reflowfy.PerRecord
