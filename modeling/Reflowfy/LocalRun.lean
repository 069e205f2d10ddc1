import Reflowfy.JobPlan

namespace Reflowfy.LocalRun

-- A destination, with the end of a `send_with_retry` that is awaited, its retries included.
structure Destination where
  name : ℕ
  send_with_retry : List Value → Params → Except Raised Unit

-- What comes out of a hook of the pipeline.
inductive HookError
  | raised (error : Raised)
  | SkipJob (reason : String)

-- A narrowed source: the params that the plan attached to it, and its `fetch`, with the records
-- as `to_json_safe` makes them. A hook may write to the params.
structure Slice where
  job_params : Option Params
  fetch : Params → Except HookError (List Value) × Params

-- `check_record_type` where the pipeline declares a type. What is no destination has no
-- `send_with_retry`: its use raises.
structure Pipeline where
  check_record_type : Option (List Value → Except HookError (List Value))
  apply_transformations : List Value → Params → Except HookError (List Value) × Params
  define_destination : List Value → Params → Except HookError Destination × Params

structure JobRun where
  records : List Value
  transformed_records : List Value
  destination : Destination

-- `except SkipJob`: no records, with the reason in the params.
def HookError.caught : HookError → Params → Except Raised (Option JobRun) × Params
  | .raised error, params => (.error error, params)
  | .SkipJob reason, params => (.ok none, params.set "skip_reason" (.str reason))

def Pipeline.checked (pipeline : Pipeline) (records : List Value) : Except HookError (List Value) :=
  match pipeline.check_record_type with
  | some check_record_type => check_record_type records
  | none => .ok records

-- None where there are no records, with the params as the hooks leave them.
def run_job_records (pipeline : Pipeline) (source : Slice) (params : Params) (limit : ℤ) :
    Except Raised (Option JobRun) × Params :=
  match source.fetch params with
  | (.error e, params) => e.caught params
  | (.ok fetched, params) =>
      if (fetched.take limit.toNat).isEmpty then (.ok none, params)
      else
        match pipeline.checked (fetched.take limit.toNat) with
        | .error e => e.caught params
        | .ok checked =>
            match pipeline.apply_transformations checked params with
            | (.error e, params) => e.caught params
            | (.ok transformed_records, params) =>
                match pipeline.define_destination transformed_records params with
                | (.error e, params) => e.caught params
                | (.ok destination, params) =>
                    (.ok (some
                      ⟨fetched.take limit.toNat, transformed_records, destination⟩), params)

-- What the statement `destination.send_with_retry(transformed_records, metadata=…)` does.
abbrev Send (ω : Type) := Destination → List Value → Params → ω → Except Raised Unit × ω

-- The records that have come to the destinations, in order.
abbrev Received := List (ℕ × Value)

-- The call makes a coroutine. No `await` runs it: the statement drops it.
def send_with_retry : Send Received := fun _ _ _ received => (.ok (), received)

structure Totals where
  fetched : ℕ
  sent : ℕ

def Totals.add (totals : Totals) (job : JobRun) : Totals where
  fetched := totals.fetched + job.records.length
  sent := totals.sent + job.transformed_records.length

section Run

variable {ω : Type} (send : Send ω) (pipeline : Pipeline) (max_records : ℤ)

-- The slices of an ID share their params; else each has a copy, with its own merged in.
def slice_params (shared : Bool) (params : Params) (sub : Slice) : Params :=
  if shared then params else params.merge (sub.job_params.getD .empty)

-- The loop over `plan_slices`, which may end with an exception of the plan.
def run_slices (shared : Bool) (raised : Option Raised) : List Slice → Params → Totals → ω →
    Except Raised Totals × ω
  | [], _, totals, world =>
      match raised with
      | some e => (.error e, world)
      | none => (.ok totals, world)
  | sub :: subs, params, totals, world =>
      if max_records - totals.fetched ≤ 0 then (.ok totals, world)
      else
        match run_job_records pipeline sub (slice_params shared params sub)
            (max_records - totals.fetched) with
        | (.error e, _) => (.error e, world)
        | (.ok none, left) =>
            run_slices shared raised subs (if shared then left else params) totals world
        | (.ok (some job), left) =>
            match send job.destination job.transformed_records left world with
            | (.error e, world) => (.error e, world)
            | (.ok (), world) => run_slices shared raised subs (if shared then left else params)
                (totals.add job) world

inductive ExecutionState
  | COMPLETED
  | FAILED
  deriving DecidableEq, Repr

structure ExecutionStatus where
  state : ExecutionState
  total_jobs : ℕ
  completed_jobs : ℕ
  failed_jobs : ℕ
  -- the exception whose text is the `error_message`
  error : Option Raised
  metadata : List (String × ℕ)
  deriving DecidableEq, Repr

def status_of : Except Raised Totals → ExecutionStatus
  | .ok totals =>
      if totals.fetched = 0 then ⟨.COMPLETED, 1, 1, 0, none, [("records_count", 0)]⟩
      else ⟨.COMPLETED, 1, 1, 0, none,
        [("records_fetched", totals.fetched), ("records_sent", totals.sent)]⟩
  | .error e => ⟨.FAILED, 1, 0, 1, some e, []⟩

structure IdTotals where
  completed_jobs : ℕ
  total_records_fetched : ℕ
  total_records_sent : ℕ

def IdTotals.add (totals : IdTotals) (id : Totals) : IdTotals :=
  if id.fetched = 0 then { totals with completed_jobs := totals.completed_jobs + 1 }
  else ⟨totals.completed_jobs + 1, totals.total_records_fetched + id.fetched,
    totals.total_records_sent + id.sent⟩

-- The loop over the IDs: `resolve` gives an ID its flat params and its slices.
def run_ids (resolve : Value → Except Raised (Params × Generated Slice)) :
    List Value → IdTotals → ω → (IdTotals × Option Raised) × ω
  | [], totals, world => ((totals, none), world)
  | current_id :: ids, totals, world =>
      match resolve current_id with
      | .error e => ((totals, some e), world)
      | .ok (flat_id_params, subs) =>
          match run_slices send pipeline max_records true subs.raised subs.items
              flat_id_params ⟨0, 0⟩ world with
          | (.error e, world) => ((totals, some e), world)
          | (.ok id, world) => run_ids resolve ids (totals.add id) world

def id_status_of (ids : List Value) : IdTotals × Option Raised → ExecutionStatus
  | (totals, none) => ⟨.COMPLETED, ids.length, totals.completed_jobs, 0, none,
      [("ids_processed", ids.length), ("records_fetched", totals.total_records_fetched),
        ("records_sent", totals.total_records_sent)]⟩
  | (totals, some e) =>
      ⟨.FAILED, ids.length, totals.completed_jobs, ids.length - totals.completed_jobs, some e, []⟩

-- A pipeline after `resolve`: its plan, or the IDs with what `resolve_for_id`,
-- `build_flat_runtime_params` and `plan_slices` make of each.
inductive Resolved
  | plan (flat_runtime_params : Params) (slices : Generated Slice)
  | id_based (ids : List Value) (resolve : Value → Except Raised (Params × Generated Slice))

-- `LocalExecutor.execute`.
def execute (resolved : Resolved) (world : ω) : ExecutionStatus × ω :=
  match resolved with
  | .plan flat_runtime_params slices =>
      let r := run_slices send pipeline max_records false slices.raised slices.items
        flat_runtime_params ⟨0, 0⟩ world
      (status_of r.1, r.2)
  | .id_based ids resolve =>
      let r := run_ids send pipeline max_records resolve ids ⟨0, 0, 0⟩ world
      (id_status_of ids r.1, r.2)

end Run

end Reflowfy.LocalRun
