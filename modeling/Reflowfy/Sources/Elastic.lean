import Reflowfy.Paging.Loop
import Reflowfy.Paging.Listing
import Reflowfy.Sources.Base
import Reflowfy.Arithmetic.TrueDivision

namespace Reflowfy

open Paging Arithmetic

namespace ElasticSource

variable {Doc Key Value Bucket : Type} [LinearOrder Key]

-- The settings that decide a plan with `docs_per_job`.
structure Settings where
  size : ℕ
  docs_per_job : ℕ
  max_slices : ℕ
  deriving DecidableEq, Repr

def num_windows (settings : Settings) (count : ℕ) : ℕ :=
  min (ceilTrueDiv count settings.docs_per_job) settings.max_slices

def window_size (settings : Settings) (count : ℕ) : ℕ :=
  ceilTrueDiv count (num_windows settings count)

-- The for-loop of `_scan_window_cursors` over one page: (cursors, seen, search_after).
def note (pit : Listing Doc Key) (window_size num_windows : ℕ) :
    List (Option Key) × ℕ × Option Key → Doc → List (Option Key) × ℕ × Option Key
  | (cursors, seen, _), h =>
      (if (seen + 1) % window_size = 0 ∧ cursors.length < num_windows
        then cursors ++ [some (pit.sort h)] else cursors,
        seen + 1, some (pit.sort h))

def scan_window_cursors (pit : Listing Doc Key) (size window_size num_windows : ℕ) :
    List (Option Key) × ℕ × Option Key → (List (Option Key) × ℕ × Option Key) ⊕ List (Option Key)
  | (cursors, seen, search_after) =>
      if cursors.length < num_windows then
        let hits := pit.search search_after size
        if hits.isEmpty then .inr cursors
        else .inl (hits.foldl (note pit window_size num_windows) (cursors, seen, search_after))
      else .inr cursors

-- A positional window of the snapshot.
structure Window (Key : Type) where
  search_after : Option Key
  size : ℕ
  deriving DecidableEq, Repr

-- The loop of `fetch` over such a window: (out, search_after).
def fetch_window (pit : Listing Doc Key) (size : ℕ) (target : ℕ) (limit : Option ℕ) :
    List Doc × Option Key → (List Doc × Option Key) ⊕ List Doc
  | (out, search_after) =>
      if out.length < target then
        let hits := pit.search search_after (min size (target - out.length))
        if hits.isEmpty then .inr (out.take target)
        else match sample limit (out ++ hits) with
          | some out => .inr out
          | none => .inl (out ++ hits, hits.getLast?.map pit.sort)
      else .inr (out.take target)

inductive Order
  | asc | desc
  deriving DecidableEq, Repr

section Range

variable [LinearOrder Value]

-- In sort order.
def Order.le : Order → Value → Value → Bool
  | asc, a, b => a ≤ b
  | desc, a, b => b ≤ a

def Order.lt : Order → Value → Value → Bool
  | asc, a, b => a < b
  | desc, a, b => b < a

-- A window `(after, upto]` of the first sort key; `none` leaves a side open.
structure RangeWindow (Value : Type) where
  after : Option Value
  upto : Option Value
  deriving DecidableEq, Repr

-- `_range_clause`, on the value of the field: a document without the field is not in the range.
def range_clause (order : Order) (window : RangeWindow Value) (value : Option Value) : Bool :=
  value.any fun v => window.after.all (order.lt · v) && window.upto.all (order.le v ·)

-- The index, which its listing gives in sort order: `value` is the first sort value of a
-- document, null and last where the document has no such field.
structure Index (Doc Key Value : Type) [LinearOrder Key] [LinearOrder Value] (order : Order) extends
    Listing Doc Key where
  value : Key → Option Value
  ranked : hits.Pairwise fun a b => ∀ w, value (sort b) = some w → ∃ v, value (sort a) = some v ∧
    order.le v w = true

-- `boundaries` of `_split_range_windows`: a value like the last one is left out.
def boundary (boundaries : List (Option Value)) (value : Option Value) : List (Option Value) :=
  if boundaries.getLast? = some value then boundaries else boundaries ++ [value]

def boundaries (value : Key → Option Value) (cursors : List (Option Key)) : List (Option Value) :=
  (cursors.tail.map (·.bind value)).foldl boundary []

def range_windows (boundaries : List (Option Value)) : List (RangeWindow Value) :=
  let edges := none :: (boundaries ++ [none])
  (edges.dropLast.zip edges.tail).map fun (after, upto) => ⟨after, upto⟩

end Range

-- The loop of `_fetch_range_window`, in a PIT of its own: (out, search_after).
def fetch_range_window (pit : Listing Doc Key) (size : ℕ) (limit : Option ℕ) :
    List Doc × Option Key → (List Doc × Option Key) ⊕ List Doc
  | (out, search_after) =>
      let hits := pit.search search_after size
      if hits.isEmpty then .inr out
      else match sample limit (out ++ hits) with
        | some out => .inr out
        | none => .inl (out ++ hits, hits.getLast?.map pit.sort)

-- The scroll of `fetch`: the records so far, and what the scroll has not given yet.
def scroll (size : ℕ) (limit : Option ℕ) : List Doc × List Doc → (List Doc × List Doc) ⊕ List Doc
  | (records, rest) =>
      let page_size := match limit with
        | some n => if n = 0 then size else min n size
        | none => size
      let hits := rest.take page_size
      if hits.isEmpty then .inr records
      else match sample limit (records ++ hits) with
        | some records => .inr records
        | none => .inl (records ++ hits, rest.drop page_size)

-- A source as `split` plans it: the source itself, or one narrowed to a window.
inductive Planned (Window : Type)
  | self
  | narrowed (window : Window)
  deriving DecidableEq, Repr

-- What `split` yields with `docs_per_job` when `_count_documents` has found `count` documents;
-- the windows are made from the cursors found.
def Plans {Window : Type} (pit : Listing Doc Key) (settings : Settings) (count : ℕ)
    (windows : List (Option Key) → List Window) (plan : List (Planned Window)) : Prop :=
  if count = 0 then plan = []
  else if num_windows settings count ≤ 1 then plan = [.self]
  else ∃ cursors, Returns (scan_window_cursors pit settings.size (window_size settings count)
    (num_windows settings count))
    ([none], 0, none) cursors ∧ plan = (windows cursors).map .narrowed

-- The plan for a snapshot,
def Splits (pit : Listing Doc Key) (settings : Settings) (count : ℕ) :
    List (Planned (Window Key)) → Prop :=
  Plans pit settings count fun cursors => cursors.map fun start =>
    ⟨start, window_size settings count⟩

-- and what `fetch` returns for it, without a limit.
def Fetches (pit : Listing Doc Key) (settings : Settings) : Planned (Window Key) → List Doc → Prop
  | .self, records => Returns (scroll settings.size none) ([], pit.hits) records
  | .narrowed window, records => Returns (fetch_window pit settings.size window.size none)
      ([], window.search_after) records

section Range

variable [LinearOrder Value] {order : Order}

-- The same in range mode, where the boundaries come from the index as well.
def SplitsRange (index : Index Doc Key Value order) (settings : Settings) (count : ℕ) :
    List (Planned (RangeWindow Value)) → Prop :=
  Plans index.toListing settings count fun cursors => range_windows (boundaries index.value cursors)

def FetchesRange (index : Index Doc Key Value order) (settings : Settings) :
    Planned (RangeWindow Value) → List Doc → Prop
  | .self, records => Returns (scroll settings.size none) ([], index.hits) records
  | .narrowed window, records =>
      let hits := index.restrict fun doc => range_clause order window (index.value (index.sort doc))
      Returns (fetch_range_window hits settings.size none) ([], none) records

end Range

-- A page of the composite aggregation: the buckets its sub-aggregations leave, and the
-- last key of the page.
def composite_page (buckets : Listing Bucket Key) (keep : Bucket → Bool)
    (after : Option Key) (size : ℕ) :
    List Bucket × Option Key :=
  let page := buckets.search after size
  (page.filter keep, page.getLast?.map buckets.sort)

-- The loop of `_fetch_composite` without a planned page: (records, after).
def fetch_composite (buckets : Listing Bucket Key) (keep : Bucket → Bool) (size : ℕ)
    (limit : Option ℕ) :
    List Bucket × Option Key → (List Bucket × Option Key) ⊕ List Bucket
  | (records, after) =>
      let (page, after_key) := composite_page buckets keep after size
      match sample limit (records ++ page) with
      | some records => .inr records
      | none => if page.isEmpty || after_key.isNone then .inr (records ++ page)
          else .inl (records ++ page, after_key)

-- `config["composite_page"]`.
structure CompositePage (Key : Type) where
  after : Option Key
  size : ℕ
  deriving DecidableEq, Repr

-- `_fetch_composite` of a planned page; `start` is the query's own `after`.
def fetch_composite_page (buckets : Listing Bucket Key) (keep : Bucket → Bool) (start : Option Key)
    (limit : Option ℕ) (page : CompositePage Key) : List Bucket :=
  let records := (composite_page buckets keep (page.after <|> start) page.size).1
  match limit with
  | some n => if n = 0 then records else records.take n
  | none => records

-- The loop of `_split_composite`, which asks for no sub-aggregation: (planned, cursor).
def split_composite (buckets : Listing Bucket Key) (page_size : ℕ) :
    List (CompositePage Key) × Option Key → (List (CompositePage Key) × Option Key) ⊕ List
      (CompositePage Key)
  | (planned, cursor) =>
      let (page, after_key) := composite_page buckets (fun _ => true) cursor page_size
      if page.isEmpty then .inr planned
      else
        if page.length < page_size || after_key.isNone then .inr (planned ++ [⟨cursor, page_size⟩])
        else .inl (planned ++ [⟨cursor, page_size⟩], after_key)

end ElasticSource

end Reflowfy
