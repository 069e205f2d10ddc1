import Reflowfy.DestinationIdentity
import Reflowfy.Sources.Base

namespace Reflowfy.ElasticSource

-- An aggregation, or a query, and the aggregations under it; `.dict []` where there are none.
def sub_aggs : Value → Value
  | .dict d =>
      if (Entries.get d "aggs").truthy then Entries.get d "aggs"
      else if (Entries.get d "aggregations").truthy then Entries.get d "aggregations"
      else .dict []
  | _ => .dict []

def is_composite : Value → Bool
  | .dict d => (d.lookup (.str "composite")).isSome
  | _ => false

inductive QueryError
  | SourceError (message : String)
  | AttributeError (name : String)
  | KeyError (key : String)
  | TypeError
  deriving DecidableEq, Repr

theorem sizeOf_get_le (d : Entries) (k : String) : sizeOf (Entries.get d k) ≤ sizeOf d := by
  unfold Entries.get
  induction d with
  | nil => simp
  | cons entry d ih =>
      obtain ⟨key, value⟩ := entry
      rw [List.lookup_cons]
      split
      · simp only [Option.getD_some, List.cons.sizeOf_spec, Prod.mk.sizeOf_spec]
        omega
      · simp only [List.cons.sizeOf_spec]
        omega

theorem sizeOf_sub_aggs_le (spec : Value) : sizeOf (sub_aggs spec) ≤ sizeOf spec + 1 := by
  unfold sub_aggs
  split
  · rename_i d
    have haggs := sizeOf_get_le d "aggs"
    have haggregations := sizeOf_get_le d "aggregations"
    simp only [Value.dict.sizeOf_spec]
    split
    · omega
    · split
      · omega
      · simp only [Value.dict.sizeOf_spec, List.nil.sizeOf_spec]
        omega
  · cases spec <;> simp

theorem sizeOf_entry_le (name : Key) (spec : Value) (rest : Entries) :
    sizeOf spec + 2 ≤ sizeOf ((name, spec) :: rest) := by
  simp only [List.cons.sizeOf_spec, Prod.mk.sizeOf_spec]
  omega

-- `_find_composites`: the paths to the composite aggregations, from here on.
mutual

def find_composites (aggs : Value) : Except QueryError (List (List String)) :=
  match aggs with
  | .dict entries => find_in_entries entries
  | _ => .error (.AttributeError "items")
termination_by sizeOf aggs

def find_in_entries (entries : Entries) : Except QueryError (List (List String)) :=
  match entries with
  | [] => .ok []
  | (name, spec) :: rest =>
      match if is_composite spec then .ok [[]] else find_composites (sub_aggs spec),
          find_in_entries rest with
      | .ok found, .ok others => .ok (found.map (name.text :: ·) ++ others)
      | .error e, _ => .error e
      | .ok _, .error e => .error e
termination_by sizeOf entries
decreasing_by
  · exact Nat.lt_of_le_of_lt (sizeOf_sub_aggs_le spec) (sizeOf_entry_le name spec rest)
  · simp only [List.cons.sizeOf_spec]
    omega

end

def composite_path (base_query : Value) : Except QueryError (Option (List String)) := do
  let found ← find_composites (sub_aggs base_query)
  if found.length > 1 then
    .error (.SourceError ("Query has " ++ toString found.length ++ " composite aggregations (" ++
      ", ".intercalate (found.map ("/".intercalate ·)) ++ "); " ++
      "only one per source is supported — use one source per composite."))
  else .ok found.head?

-- The dict that `sub_aggs` reads, replaced where it stands.
def set_sub_aggs (spec aggs : Value) : Value :=
  match spec with
  | .dict d =>
      if (Entries.get d "aggs").truthy then .dict (Entries.set d "aggs" aggs)
      else if (Entries.get d "aggregations").truthy then .dict (Entries.set d "aggregations" aggs)
      else spec
  | _ => spec

-- `_prune_to_path`: what is left of the aggregations.
def prune_to_path : List String → Value → Except QueryError Value
  | name :: rest, .dict aggs =>
      match rest, aggs.lookup (.str name) with
      | [], some spec => .ok (.dict [(.str name, spec)])
      | [], none => .ok (.dict [])
      | _ :: _, none => .error (.KeyError name)
      | _ :: _, some spec => do
          let below ← prune_to_path rest (sub_aggs spec)
          return .dict [(.str name, set_sub_aggs spec below)]
  | [], _ => .error (.KeyError "0")
  | _, _ => .error (.AttributeError "items")

-- `node[path[-1]]`, under a query or an aggregation.
def spec_at : List String → Value → Except QueryError Value
  | [], spec => .ok spec
  | name :: rest, spec => match sub_aggs spec with
      | .dict aggs => match aggs.lookup (.str name) with
          | some below => spec_at rest below
          | none => .error (.KeyError name)
      | _ => .error (.AttributeError "items")

-- What is done to that aggregation, in place.
def update_at (update : Value → Value) : List String → Value → Value
  | [], spec => update spec
  | name :: rest, spec => match sub_aggs spec with
      | .dict aggs => match aggs.lookup (.str name) with
          | some below => set_sub_aggs spec
              (.dict (Entries.set aggs name (update_at update rest below)))
          | none => spec
      | _ => spec

-- `composite["size"] = size`, or `composite.setdefault("size", default)`.
def sized (size : Option ℕ) (default : Value) (composite : Entries) : Entries :=
  match size with
  | some (size + 1) => Entries.set composite "size" (.int (size + 1))
  | _ => if (composite.lookup (.str "size")).isSome then composite
      else Entries.set composite "size" default

-- The composite of an aggregation, replaced where it stands.
def set_composite (update : Entries → Entries) : Value → Value
  | .dict d => match Entries.get d "composite" with
      | .dict composite => .dict (Entries.set d "composite" (.dict (update composite)))
      | _ => .dict d
  | spec => spec

-- `_composite_request`.
def composite_request (base_query : Value) (path : List String) (size : Option ℕ)
    (default : Value) :
    Except QueryError Value :=
  match base_query with
  | .dict query => do
      let aggs ← prune_to_path path (sub_aggs (.dict query))
      let body := set_sub_aggs (.dict (Entries.set query "size" (.int 0))) aggs
      let spec ← spec_at path body
      match spec with
      | .dict d => match d.lookup (.str "composite") with
          | some (.dict _) => .ok (update_at (set_composite (sized size default)) path body)
          | some _ => .error .TypeError
          | none => .error (.KeyError "composite")
      | _ => .error .TypeError
  | _ => .error (.AttributeError "items")

-- The reading of a response in `_composite_page`: the buckets and the `after_key`.
def composite_answer (path : List String) : List String → Value → Except QueryError (Value × Value)
  | [], .dict found =>
      .ok ((found.lookup (.str "buckets")).getD (.list []), Entries.get found "after_key")
  | [], _ => .error (.AttributeError "get")
  | name :: rest, agg => match agg with
      | .dict answers => match answers.lookup (.str name) with
          | some below => composite_answer path rest below
          | none => .error (not_found name)
      | _ => .error (not_found name)
where
  not_found (name : String) : QueryError := .SourceError
    ("Composite aggregation '" ++ "/".intercalate path ++ "' not found in the " ++
      "response at '" ++ name ++
      "'. Only single-bucket parents " ++
        "(filter, nested, global, ...) are supported, not terms/range. " ++
      "Make the parent a source of the composite instead.")

end Reflowfy.ElasticSource
