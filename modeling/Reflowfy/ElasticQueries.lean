import Reflowfy.Sources.Elastic
import Reflowfy.Value

namespace Reflowfy

-- `bool(key)`.
def Key.truthy : Key → Bool
  | .None => false
  | .bool b => b
  | .int n => n ≠ 0
  | .float text => text ≠ "0.0" ∧ text ≠ "-0.0"
  | .str text => text ≠ ""
  | .other _ => true

namespace ElasticSource

open Paging

def Order.of_text : String → Option Order
  | "asc" => some .asc
  | "desc" => some .desc
  | _ => none

-- The order that `opts` asks for, if it is one; a text that is made of any other value is not.
def order_of : Value → Option Order
  | .str opts => Order.of_text opts
  | .dict opts =>
      match opts.lookup (.str "order") with
      | none => some .asc
      | some (.str order) => Order.of_text order
      | some (.other order) => Order.of_text order
      | some _ => none
  | _ => some .asc

def no_sort_field : Raised := .SourceError "elasticsearch"
  ("window_mode=\"range\" needs base_query[\"sort\"] to start with a field, e.g. " ++
    "[\x7b\"@timestamp\": \"asc\"\x7d] — the windows are ranges of that field")

def unordered : List Key := [.str "_shard_doc", .str "_doc", .str "_score"]

def first_sort_key (sort : Value) : Except Raised (Key × Order) :=
  let first := match sort with
    | .list (first :: _) => first
    | sort => sort
  let key : Option (Key × Option Order) := match first with
    | .str field => some (.str field, some .asc)
    | .dict [(field, opts)] => some (field, order_of opts)
    | _ => none
  match key with
  | some (field, some order) => if field.truthy ∧ field ∉ unordered then .ok (field, order)
      else .error no_sort_field
  | _ => .error no_sort_field

variable {Doc Key Field : Type} [LinearOrder Key] [LinearOrder Field]

-- `base_query`, as far as paging goes: its sort, and the cursor that it may bring.
structure Query (Key : Type) where
  sort : Value
  search_after : Option Key

-- What the query matches, in the order of its sort: `first` is the first sort value of a cursor,
-- `get` a field of a document. Any partition into slices will do.
structure Cluster (Doc Key Field : Type) [LinearOrder Key] [LinearOrder Field] (query : Query Key)
    extends Listing Doc Key where
  first : Key → Option Field
  get : Reflowfy.Key → Doc → Option Field
  first_sort : ∀ field order, first_sort_key query.sort = .ok (field, order) →
    ∀ doc, first (sort doc) = get field doc
  ranked : ∀ field order, first_sort_key query.sort = .ok (field, order) →
    hits.Pairwise fun a b => ∀ w, first (sort b) = some w → ∃ v, first (sort a) = some v ∧
      order.le v w = true
  slice : ℕ → ℕ → Doc → Bool
  sliced : ∀ max, 1 ≤ max → ∀ doc ∈ hits, (List.range max).countP (slice · max doc) = 1

inductive WindowMode
  | snapshot | range
  deriving DecidableEq, Repr

-- `docs_per_job` is 0 where it is unset.
structure PlanSettings extends Settings where
  window_mode : WindowMode
  num_slices : ℕ
  deriving DecidableEq, Repr

-- A source as `split` yields it: itself, or one narrowed to a part of the query.
inductive SubSource (Key Field : Type)
  | self
  | window (window : Window Key)
  | range (field : Reflowfy.Key) (order : Order) (window : RangeWindow Field)
  | slice (id max : ℕ)

-- Whether it carries the `pit_id` of the plan.
def SubSource.pit_id : SubSource Key Field → Bool
  | .self => false
  | .window _ => true
  | .range .. => false
  | .slice .. => true

-- `min(limit, size) if limit else size`.
def page_size (size : ℕ) : Option ℕ → ℕ
  | some limit => if limit = 0 then size else min limit size
  | none => size

namespace Query

-- A search with a body made from the query: `search_after` comes in the place of its own.
def search (query : Query Key) (pit : Listing Doc Key) (search_after : Option Key)
    (size : ℕ) : List Doc :=
  pit.search (search_after <|> query.search_after) size

def scan_window_cursors (query : Query Key) (pit : Listing Doc Key)
    (size window_size num_windows : ℕ) :
    List (Option Key) × ℕ × Option Key → (List (Option Key) × ℕ × Option Key) ⊕ List (Option Key)
  | (cursors, seen, search_after) =>
      if cursors.length < num_windows then
        let hits := query.search pit search_after size
        if hits.isEmpty then .inr cursors
        else .inl (hits.foldl (note pit window_size num_windows) (cursors, seen, search_after))
      else .inr cursors

-- The loop of `fetch` over a positional window: (out, search_after).
def fetch_window (query : Query Key) (pit : Listing Doc Key) (size target : ℕ) (limit : Option ℕ) :
    List Doc × Option Key → (List Doc × Option Key) ⊕ List Doc
  | (out, search_after) =>
      if out.length < target then
        let hits := query.search pit search_after (min size (target - out.length))
        if hits.isEmpty then .inr (out.take target)
        else match sample limit (out ++ hits) with
          | some out => .inr out
          | none => .inl (out ++ hits, hits.getLast?.map pit.sort)
      else .inr (out.take target)

-- The loop of `fetch` over a slice, which the search is limited to: (records, search_after).
def fetch_slice (query : Query Key) (slice : Listing Doc Key) (size : ℕ) (limit : Option ℕ) :
    List Doc × Option Key → (List Doc × Option Key) ⊕ List Doc
  | (records, search_after) =>
      let hits := query.search slice search_after size
      if hits.isEmpty then .inr records
      else match sample limit (records ++ hits) with
        | some records => .inr records
        | none => .inl (records ++ hits, hits.getLast?.map slice.sort)

-- The loop of `_fetch_search_after`, which goes on from its cursor in the body: (records,
-- search_after).
def fetch_search_after (index : Listing Doc Key) (size : ℕ) (limit : Option ℕ) :
    List Doc × Option Key → (List Doc × Option Key) ⊕ List Doc :=
  fetch_range_window index (page_size size limit) limit

def no_sort : Raised :=
  .SourceError "elasticsearch" "'search_after' needs a 'sort' in the query; it is the cursor's key."

-- `fetch`, of a query without a composite aggregation.
def Fetches {query : Query Key} (cluster : Cluster Doc Key Field query) (size : ℕ)
    (limit : Option ℕ) (source : SubSource Key Field) (result : Except Raised (List Doc)) : Prop :=
  if query.search_after.isSome ∧ source.pit_id = false then
    if query.sort.truthy then
      ∃ records, Returns (fetch_search_after cluster.toListing size limit)
        ([], query.search_after) records ∧
        result = .ok records
    else result = .error no_sort
  else
    ∃ records, result = .ok records ∧
      match source with
      | .self => Returns (scroll size limit) ([], cluster.hits) records
      | .window window =>
          Returns (query.fetch_window cluster.toListing size window.size limit)
            ([], window.search_after) records
      | .range field order window =>
          let hits := cluster.restrict fun doc => range_clause order window (cluster.get field doc)
          Returns (fetch_range_window hits size limit) ([], none) records
      | .slice id max => Returns
          (query.fetch_slice (cluster.restrict (cluster.slice id max)) size limit)
          ([], none) records

-- The sources for the windows made from the cursors that the scan finds, or one for everything.
def Windows {query : Query Key} (cluster : Cluster Doc Key Field query)
    (settings : PlanSettings) (count : ℕ) (windows : List (Option Key) → List (SubSource Key Field))
    (plan : List (SubSource Key Field)) : Prop :=
  if num_windows settings.toSettings count ≤ 1 then plan = [.self]
  else ∃ cursors, Returns (query.scan_window_cursors cluster.toListing settings.size
    (window_size settings.toSettings count)
    (num_windows settings.toSettings count)) ([none], 0, none) cursors ∧ plan = windows cursors

-- `split`, of a query without a composite aggregation, when `_count_documents` has found
-- `count` documents.
def Splits {query : Query Key} (cluster : Cluster Doc Key Field query)
    (settings : PlanSettings) (count : ℕ)
    (result : Except Raised (List (SubSource Key Field))) : Prop :=
  if count = 0 then result = .ok []
  else if settings.docs_per_job = 0 then
    result = .ok (if settings.num_slices ≤ 1 then [.self]
      else (List.range settings.num_slices).map (.slice · settings.num_slices))
  else
    match settings.window_mode with
    | .range =>
        match first_sort_key query.sort with
        | .error e => result = .error e
        | .ok (field, order) =>
            ∃ plan, Windows cluster settings count
              (fun cursors => (range_windows (boundaries cluster.first cursors)).map
                (.range field order)) plan ∧
              result = .ok plan
    | .snapshot =>
        ∃ plan, Windows cluster settings count
          (fun cursors => cursors.map fun start =>
            .window ⟨start, window_size settings.toSettings count⟩) plan ∧
          result = .ok plan

end Query

end ElasticSource

end Reflowfy
