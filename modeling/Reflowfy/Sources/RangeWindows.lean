import Reflowfy.Paging.Partition
import Reflowfy.Sources.SnapshotWindows

namespace Reflowfy.ElasticSource

open Paging Arithmetic

variable {Doc Key Value : Type} [LinearOrder Key] [LinearOrder Value]

section Fetch

variable {pit : Listing Doc Key} {size : ℕ}

theorem fetch_range_window_step (hsize : 1 ≤ size) {s : List Doc × Option Key}
    (hread : Read pit 0 pit.hits.length s) :
    (∃ s', fetch_range_window pit size none s = .inl s' ∧ Read pit 0 pit.hits.length s' ∧
      pit.hits.length - s'.1.length < pit.hits.length - s.1.length) ∨
    ∃ out, fetch_range_window pit size none s = .inr out ∧ out = pit.hits := by
  obtain ⟨out, search_after⟩ := s
  by_cases hempty : pit.search search_after size = []
  · refine .inr ⟨out, by simp [fetch_range_window, hempty], ?_⟩
    rw [hread.all hsize hempty, List.drop_zero, List.take_length]
  · have hlen := hread.length_search size
    have hpos := List.length_pos_iff.mpr hempty
    refine .inl ⟨(out ++ pit.search search_after size,
      (pit.search search_after size).getLast?.map pit.sort), ?_, ?_, ?_⟩
    · simp [fetch_range_window, hempty, sample]
    · exact hread.page hempty (by omega)
    · show pit.hits.length - (out ++ _).length < pit.hits.length - out.length
      rw [List.length_append]
      omega

theorem fetch_range_window_returns (pit : Listing Doc Key) (hsize : 1 ≤ size) :
    Returns (fetch_range_window pit size none) ([], none) pit.hits := by
  obtain ⟨out, hreturns, rfl⟩ := returns_of_variant
    (fun s : List Doc × Option Key => pit.hits.length - s.1.length)
    (fun s hs => fetch_range_window_step hsize hs) (s := ([], none)) ⟨Nat.zero_le _, rfl, rfl⟩
  exact hreturns

theorem scroll_returns {size : ℕ} (hsize : 1 ≤ size) (hits : List Doc) :
    Returns (scroll size none) ([], hits) hits := by
  have hstep : ∀ s : List Doc × List Doc, s.1 ++ s.2 = hits →
      (∃ s', scroll size none s = .inl s' ∧ s'.1 ++ s'.2 = hits ∧ s'.2.length < s.2.length) ∨
      ∃ records, scroll size none s = .inr records ∧ records = hits := by
    rintro ⟨records, rest⟩ hs
    by_cases hrest : rest = []
    · refine .inr ⟨records, by simp [scroll, hrest], ?_⟩
      simpa [hrest] using hs
    · have hpos := List.length_pos_iff.mpr hrest
      refine .inl ⟨(records ++ rest.take size, rest.drop size), ?_, ?_, ?_⟩
      · simp [scroll, sample, hrest]
        omega
      · simpa using hs
      · show (rest.drop size).length < rest.length
        rw [List.length_drop]
        omega
  obtain ⟨records, hreturns, rfl⟩ := returns_of_variant
    (fun s : List Doc × List Doc => s.2.length) hstep
    (s := ([], hits)) rfl
  exact hreturns

end Fetch

section Edges

variable {order : Order} {index : Index Doc Key Value order}

theorem Order.le_eq_not_lt (order : Order) (a b : Value) : order.le a b = !order.lt b a := by
  cases order <;> simp [Order.le, Order.lt, ← not_lt]

theorem Order.lt_of_le_of_lt {a b v : Value} (hab : order.le a b) (hb : order.lt b v) :
    order.lt a v := by
  cases order with
  | asc =>
      simp only [Order.le, Order.lt, decide_eq_true_eq] at *
      exact hab.trans_lt hb
  | desc =>
      simp only [Order.le, Order.lt, decide_eq_true_eq] at *
      exact hb.trans_le hab

theorem range_clause_some (window : RangeWindow Value) (v : Value) :
    range_clause order window (some v) = InRange order.lt v (window.after, window.upto) := by
  simp only [range_clause, InRange, Option.any_some, order.le_eq_not_lt]

theorem boundaries_sublist (values acc : List (Option Value)) :
    (values.foldl boundary acc).Sublist (acc ++ values) := by
  induction values generalizing acc with
  | nil => simp
  | cons v values ih =>
      have hone : (boundary acc v).Sublist (acc ++ [v]) := by
        unfold boundary
        split
        · exact List.sublist_append_left acc [v]
        · exact List.Sublist.refl _
      have hrest := (ih (boundary acc v)).trans (hone.append (List.Sublist.refl values))
      rwa [List.append_assoc] at hrest

-- The first sort value at a cursor.
def value_at (index : Index Doc Key Value order) (seen : ℕ) : Option Value :=
  (index.cursor seen).bind index.value

theorem value_at_succ {k : ℕ} (hk : k < index.hits.length) :
    value_at index (k + 1) = index.value (index.sort index.hits[k]) := by
  rw [value_at, index.cursor_succ hk, Option.bind_some]

theorem value_at_ranked {i j : ℕ} (hi : 1 ≤ i) (hij : i ≤ j)
    (hj : j ≤ index.hits.length) {v w : Value}
    (hv : value_at index i = some v) (hw : value_at index j = some w) : order.le v w := by
  obtain ⟨i, rfl⟩ : ∃ k, i = k + 1 := ⟨i - 1, by omega⟩
  obtain ⟨j, rfl⟩ : ∃ k, j = k + 1 := ⟨j - 1, by omega⟩
  rcases Nat.eq_or_lt_of_le hij with heq | hlt
  · rw [heq, hw] at hv
    cases hv
    cases order <;> simp [Order.le]
  · rw [value_at_succ (by omega)] at hv hw
    obtain ⟨u, hu, hle⟩ := List.pairwise_iff_getElem.mp index.ranked i j (by omega)
      (by omega) (by omega) w hw
    rw [hv] at hu
    cases hu
    exact hle

theorem cuts_tail (pit : Listing Doc Key) (w n : ℕ) :
    (cuts pit w n pit.hits.length).tail =
      (List.range (min n (pit.hits.length / w + 1) - 1)).map fun k => pit.cursor ((k + 1) * w) := by
  rw [cuts]
  generalize min n (pit.hits.length / w + 1) = m
  cases m with
  | zero => rfl
  | succ m =>
      rw [List.range_succ_eq_map, List.map_cons, List.tail_cons, List.map_map]
      rfl

-- Where every document has the field, the boundaries are values in sort order.
theorem boundaries_ranked
    (hvalue : ∀ doc ∈ index.hits, ∃ v, index.value (index.sort doc) = some v) (w n : ℕ) :
    ∃ edges : List Value, boundaries index.value
      (cuts index.toListing w n index.hits.length) = edges.map some ∧
      edges.Pairwise fun a b => order.le a b := by
  generalize hm : min n (index.hits.length / w + 1) - 1 = m
  have hcuts : boundaries index.value (cuts index.toListing w n index.hits.length) =
      ((List.range m).map fun k => value_at index ((k + 1) * w)).foldl boundary [] := by
    rw [boundaries, cuts_tail, hm, List.map_map]
    rfl
  have hbound : ∀ k < m, 1 ≤ (k + 1) * w ∧ (k + 1) * w ≤ index.hits.length := by
    intro k hk
    have hle : (k + 1) * w ≤ index.hits.length :=
      (Nat.mul_le_mul_right w (by omega)).trans (Nat.div_mul_le_self _ w)
    rcases Nat.eq_zero_or_pos w with rfl | hw
    · rw [Nat.div_zero] at hm
      omega
    · exact ⟨Nat.mul_pos (Nat.succ_pos k) hw, hle⟩
  have hsub := boundaries_sublist ((List.range m).map fun k => value_at index ((k + 1) * w)) []
  rw [List.nil_append, ← hcuts] at hsub
  have hsome : ∀ o ∈ boundaries index.value (cuts index.toListing w n index.hits.length),
      o.isSome := by
    intro o ho
    obtain ⟨k, hk, rfl⟩ := List.mem_map.mp (hsub.subset ho)
    obtain ⟨hlo, hhi⟩ := hbound k (List.mem_range.mp hk)
    obtain ⟨j, hj⟩ : ∃ j, (k + 1) * w = j + 1 := ⟨(k + 1) * w - 1, by omega⟩
    obtain ⟨v, hv⟩ := hvalue index.hits[j] (List.getElem_mem (by omega))
    rw [hj, value_at_succ (by omega), hv]
    rfl
  have hranked : ((List.range m).map fun k => value_at index ((k + 1) * w)).Pairwise
      fun a b => ∀ v w, a = some v → b = some w → order.le v w := by
    rw [List.pairwise_map]
    refine List.pairwise_lt_range.imp_of_mem ?_
    intro i j hi hj hij v u hv hu
    exact value_at_ranked (hbound i (List.mem_range.mp hi)).1 (Nat.mul_le_mul_right w (by omega))
      (hbound j (List.mem_range.mp hj)).2 hv hu
  generalize boundaries index.value (cuts index.toListing w n index.hits.length) =
    found at hsub hsome
  have hedges : found = (found.filterMap id).map some := by
    rw [List.map_filterMap_some_eq_filter_map_isSome, List.map_id]
    exact (List.filter_eq_self.mpr hsome).symm
  refine ⟨found.filterMap id, hedges, ?_⟩
  have hfound := hranked.sublist hsub
  rw [hedges, List.pairwise_map] at hfound
  exact hfound.imp fun h => h _ _ rfl rfl

end Edges

section Plan

variable {order : Order} {index : Index Doc Key Value order} {settings : Settings}

theorem fetches_range_unique (job : Planned (RangeWindow Value)) (records records' : List Doc)
    (h : FetchesRange index settings job records) (h' : FetchesRange index settings job records') :
      records = records' := by
  cases job with
  | self => exact Returns.unique h h'
  | narrowed window => exact Returns.unique h h'

def in_window (index : Index Doc Key Value order) (window : RangeWindow Value) (doc : Doc) : Bool :=
  range_clause order window (index.value (index.sort doc))

-- The windows planned for all documents of the index, and what their jobs read.
def planned_windows (index : Index Doc Key Value order) (settings : Settings) :
    List (RangeWindow Value) :=
  range_windows (boundaries index.value
    (cuts index.toListing (window_size settings index.hits.length)
    (num_windows settings index.hits.length) index.hits.length))

theorem splits_planned_windows (index : Index Doc Key Value order) (hsize : 1 ≤ settings.size)
    (hplan : 1 < num_windows settings index.hits.length) :
    SplitsRange index settings index.hits.length ((planned_windows index settings).map .narrowed) :=
  plans_cuts index.toListing _ hsize hplan

theorem delivers_planned_windows (index : Index Doc Key Value order) (hsize : 1 ≤ settings.size) :
    Delivers (FetchesRange index settings) ((planned_windows index settings).map .narrowed)
      ((planned_windows index settings).flatMap fun window =>
        index.hits.filter (in_window index window)) :=
  delivers_map fun window _ => fetch_range_window_returns
    (index.restrict (in_window index window)) hsize

-- Each document that has the field is in exactly one window, if they all have it;
theorem countP_in_window
    (hvalue : ∀ doc ∈ index.hits, ∃ v, index.value (index.sort doc) = some v) {doc : Doc}
    (hdoc : doc ∈ index.hits) :
      (planned_windows index settings).countP (in_window index · doc) = 1 := by
  obtain ⟨v, hv⟩ := hvalue doc hdoc
  obtain ⟨edges, hedges, hranked⟩ := boundaries_ranked hvalue
    (window_size settings index.hits.length)
    (num_windows settings index.hits.length)
  have hcount : (ranges (none :: (edges.map some ++ [none]))).countP (InRange order.lt v) = _ :=
    countP_ranges (hranked.imp fun hab hb => Order.lt_of_le_of_lt hab hb) fun a ha => by cases ha
  rw [Option.all_none, if_pos rfl] at hcount
  rw [planned_windows, hedges, range_windows, List.countP_map]
  refine Eq.trans (List.countP_congr fun range _ => ?_) hcount
  show in_window index ⟨range.1, range.2⟩ doc = true ↔ _
  rw [in_window, hv, range_clause_some]

-- a document without it is in none.
theorem not_in_window {doc : Doc} (hnull : index.value (index.sort doc) = none)
    (windows : List (RangeWindow Value)) :
    windows.countP (in_window index · doc) = 0 := by
  rw [List.countP_eq_zero]
  intro window _
  simp [in_window, hnull, range_clause]

-- Windows that read every document once have found a value in each.
theorem value_of_partition (hsize : 1 ≤ settings.size)
    (hplan : 1 < num_windows settings index.hits.length)
    {plan : List (Planned (RangeWindow Value))} {records : List Doc}
    (hsplits : SplitsRange index settings index.hits.length plan)
    (hread : Delivers (FetchesRange index settings) plan records) (hall : records.Perm index.hits) :
    ∀ doc ∈ index.hits, ∃ v, index.value (index.sort doc) = some v := by
  rw [plans_unique hsplits (splits_planned_windows index hsize hplan)] at hread
  rw [hread.unique fetches_range_unique (delivers_planned_windows index hsize),
    perm_parts_iff] at hall
  refine fun doc hdoc => Option.ne_none_iff_exists'.mp fun hnull => ?_
  have hone := hall doc hdoc
  rw [not_in_window hnull] at hone
  exact absurd hone (by decide)

theorem range_windows_partition_iff (index : Index Doc Key Value order)
    (hsize : 1 ≤ settings.size) :
    (∃ plan records, SplitsRange index settings index.hits.length plan ∧
      Delivers (FetchesRange index settings) plan records ∧ records.Perm index.hits) ↔
    num_windows settings index.hits.length ≤ 1 ∨
      ∀ doc ∈ index.hits, ∃ v, index.value (index.sort doc) = some v := by
  by_cases hn : num_windows settings index.hits.length ≤ 1
  · refine iff_of_true ?_ (.inl hn)
    by_cases hcount : index.hits.length = 0
    · refine ⟨[], [], by rw [SplitsRange, Plans, if_pos hcount], ⟨[], .nil, rfl⟩, ?_⟩
      rw [List.length_eq_zero_iff.mp hcount]
    · have hself : SplitsRange index settings index.hits.length [.self] := by
        rw [SplitsRange, Plans, if_neg hcount, if_pos hn]
      refine ⟨[.self], index.hits, hself, ⟨[index.hits], ?_, by simp⟩, List.Perm.refl _⟩
      exact .cons (scroll_returns hsize index.hits) .nil
  · constructor
    · rintro ⟨plan, records, hsplits, hread, hall⟩
      exact .inr (value_of_partition hsize (by omega) hsplits hread hall)
    · rintro (hone | hvalue)
      · exact absurd hone hn
      · refine ⟨_, _, splits_planned_windows index hsize (by omega),
          delivers_planned_windows index hsize, ?_⟩
        exact (perm_parts_iff ..).mpr fun doc hdoc => countP_in_window hvalue hdoc

-- Numbers, two of them to a value; those from `fields` on lack the field.
def numbered (fields n : ℕ) : Index ℕ ℕ ℕ .asc where
  toListing := Listing.range n
  value k := if k < fields then some (k / 2) else none
  ranked := by
    refine (Listing.range n).sorted.imp fun {a b} hab w hw => ?_
    have hlt : a < b := hab
    have hb : b < fields := by
      by_contra hb
      exact absurd hw (by simp [Listing.range, hb])
    have hw' : b / 2 = w := by simpa [Listing.range, hb] using hw
    refine ⟨a / 2, by simp [Listing.range, hlt.trans hb], ?_⟩
    rw [← hw']
    exact decide_eq_true (Nat.div_le_div_right hlt.le)

theorem range_windows_partition_seven :
    ∃ plan records, SplitsRange (numbered 7 7) ⟨2, 3, 1024⟩ 7 plan ∧
      Delivers (FetchesRange (numbered 7 7) ⟨2, 3, 1024⟩) plan records ∧
        records.Perm (numbered 7 7).hits :=
  (range_windows_partition_iff (numbered 7 7) (by decide)).mpr
    (.inr fun doc hdoc => ⟨doc / 2, if_pos (List.mem_range.mp hdoc)⟩)

-- The document without the field is in no window.
theorem range_windows_lose_missing :
    ¬∃ plan records, SplitsRange (numbered 2 3) ⟨2, 1, 1024⟩ 3 plan ∧
      Delivers (FetchesRange (numbered 2 3) ⟨2, 1, 1024⟩) plan records ∧
        records.Perm (numbered 2 3).hits := by
  rintro ⟨plan, records, hsplits, hread, hall⟩
  obtain ⟨v, hv⟩ := value_of_partition (by decide) (by decide) hsplits hread hall 2 (by decide)
  exact absurd hv (by simp [numbered, Listing.range])

end Plan

end Reflowfy.ElasticSource
