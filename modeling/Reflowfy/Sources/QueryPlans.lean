import Reflowfy.ElasticQueries
import Reflowfy.Paging.Collect
import Reflowfy.Sources.RangeWindows

namespace Reflowfy.ElasticSource

open Paging Arithmetic

variable {Doc Key Field : Type} [LinearOrder Key] [LinearOrder Field]

-- `records[:limit] if limit else records`.
def limited (limit : Option ℕ) (records : List Doc) : List Doc :=
  match limit with
  | some n => if n = 0 then records else records.take n
  | none => records

section Loops

variable {limit : Option ℕ} {size : ℕ}

theorem limited_of_sample {records result : List Doc} (h : sample limit records = some result)
    (more : List Doc) :
    limited limit (records ++ more) = result := by
  cases limit with
  | none => cases h
  | some n =>
      simp only [sample, Option.ite_none_right_eq_some, Option.some.injEq] at h
      obtain ⟨⟨hn, hle⟩, rfl⟩ := h
      rw [limited, if_neg hn, List.take_append_of_le_length hle]

theorem limited_of_sample_none {records : List Doc} (h : sample limit records = none) :
    limited limit records = records := by
  cases limit with
  | none => rfl
  | some n =>
      simp only [sample, ite_eq_right_iff, reduceCtorEq, imp_false, not_and_or,
        not_not, not_le] at h
      rcases h with rfl | hlt
      · rfl
      · simp only [limited, List.take_of_length_le hlt.le, ite_self]

theorem sample_nil : sample limit ([] : List Doc) = none := by
  cases limit with
  | none => rfl
  | some n => cases n <;> rfl

theorem page_size_pos (hsize : 1 ≤ size) (limit : Option ℕ) : 1 ≤ page_size size limit := by
  unfold page_size
  split
  · split <;> omega
  · exact hsize

-- Every loop of `fetch` gives what it reads, up to the limit.
theorem returns_limited {σ : Type} {step : σ → σ ⊕ List Doc}
    (out rest : σ → List Doc) (I : σ → Prop)
    (hstep : ∀ s, I s →
      (∃ s' page, page ≠ [] ∧ rest s = page ++ rest s' ∧ out s' = out s ++ page ∧ I s' ∧
        step s = (sample limit (out s')).elim (.inl s') .inr) ∨
      rest s = [] ∧ step s = .inr (out s)) {s : σ} (hs : I s) (hout : out s = []) :
    Returns step s (limited limit (rest s)) := by
  have hreturns := returns_cut (fun _ _ => limited_of_sample)
    (fun _ => limited_of_sample_none) hstep hs
    (by rw [hout]; exact sample_nil)
  rwa [hout, List.nil_append] at hreturns

variable {query : Query Key} {pit : Listing Doc Key}

theorem Query.search_eq (query : Query Key) (pit : Listing Doc Key) (search_after : Option Key) :
    query.search pit search_after size = pit.search
      (search_after <|> query.search_after) size := rfl

theorem scroll_eq (records rest : List Doc) :
    scroll size limit (records, rest) =
      if (rest.take (page_size size limit)).isEmpty then .inr records
      else (sample limit (records ++ rest.take (page_size size limit))).elim
        (.inl
          (records ++ rest.take (page_size size limit), rest.drop (page_size size limit)))
        .inr := by
  cases limit with
  | none =>
      simp only [scroll, page_size]
      cases sample none (records ++ rest.take size) <;> rfl
  | some n =>
      simp only [scroll, page_size]
      cases sample (some n) (records ++ rest.take (if n = 0 then size else min n size)) <;> rfl

theorem scroll_limited (hsize : 1 ≤ size) (hits : List Doc) :
    Returns (scroll size limit) ([], hits) (limited limit hits) := by
  have hpage := page_size_pos hsize limit
  refine returns_limited Prod.fst Prod.snd (fun _ => True) ?_ trivial rfl
  rintro ⟨records, rest⟩ -
  by_cases hempty : rest.take (page_size size limit) = []
  · refine .inr ⟨(List.take_eq_nil_iff.mp hempty).resolve_left (by omega), ?_⟩
    rw [scroll_eq, hempty, if_pos List.isEmpty_nil]
  · refine .inl ⟨(records ++ rest.take (page_size size limit), rest.drop (page_size size limit)), _,
      hempty, (List.take_append_drop _ rest).symm, rfl, trivial, ?_⟩
    rw [scroll_eq, if_neg (by simpa using hempty)]

theorem fetch_range_window_limited (hsize : 1 ≤ size) (key : Option Key) :
    Returns (fetch_range_window pit size limit) ([], key) (limited limit (pit.after key)) := by
  refine returns_limited Prod.fst (fun s => pit.after s.2) (fun _ => True) ?_ trivial rfl
  rintro ⟨out, search_after⟩ -
  by_cases hempty : pit.search search_after size = []
  · exact .inr ⟨pit.after_eq_nil hsize hempty, by simp [fetch_range_window, hempty]⟩
  · refine .inl ⟨(out ++ pit.search search_after size,
      (pit.search search_after size).getLast?.map pit.sort), _, hempty,
      ?_, rfl, trivial, ?_⟩
    · show pit.after search_after = _ ++
        pit.after ((pit.search search_after size).getLast?.map pit.sort)
      rw [pit.after_search hempty]
      exact (List.take_append_drop size _).symm
    · simp only [fetch_range_window, List.isEmpty_iff, hempty, if_false]
      cases sample limit (out ++ pit.search search_after size) <;> rfl

theorem fetch_slice_limited (query : Query Key) (pit : Listing Doc Key) (hsize : 1 ≤ size)
    (limit : Option ℕ) :
    Returns (query.fetch_slice pit size limit) ([], none)
      (limited limit (pit.after query.search_after)) := by
  refine returns_limited Prod.fst (fun s => pit.after (s.2 <|> query.search_after)) (fun _ => True)
    (s := ([], none)) ?_ trivial rfl
  rintro ⟨records, search_after⟩ -
  by_cases hempty : query.search pit search_after size = []
  · exact .inr ⟨pit.after_eq_nil hsize hempty, by simp [Query.fetch_slice, hempty]⟩
  · refine .inl ⟨(records ++ query.search pit search_after size,
      (query.search pit search_after size).getLast?.map pit.sort),
      _, hempty, ?_, rfl, trivial, ?_⟩
    · show pit.after (search_after <|> query.search_after) = _
      rw [query.search_eq] at hempty ⊢
      rw [pit.next_cursor hempty, pit.after_search hempty]
      exact (List.take_append_drop size _).symm
    · simp only [Query.fetch_slice, List.isEmpty_iff, hempty, if_false]
      cases sample limit (records ++ query.search pit search_after size) <;> rfl

-- A positional window ends where it has read its documents.
theorem fetch_window_limited (hsize : 1 ≤ size) (target : ℕ) (key : Option Key) :
    Returns (query.fetch_window pit size target limit) ([], key)
      (limited limit ((pit.after (key <|> query.search_after)).take target)) := by
  refine returns_limited Prod.fst
    (fun s => (pit.after (s.2 <|> query.search_after)).take (target - s.1.length))
      (fun s => s.1.length ≤ target)
    (s := ([], key)) ?_ (Nat.zero_le _) rfl
  rintro ⟨out, search_after⟩ hle
  by_cases hlt : out.length < target
  · by_cases hempty : query.search pit search_after (min size (target - out.length)) = []
    · refine .inr ⟨?_, by simp [Query.fetch_window, hlt, hempty, List.take_of_length_le hle]⟩
      show (pit.after (search_after <|> query.search_after)).take (target - out.length) = []
      rw [pit.after_eq_nil (by omega) hempty, List.take_nil]
    · refine .inl ⟨(out ++ query.search pit search_after (min size (target - out.length)),
        (query.search pit search_after (min size (target - out.length))).getLast?.map pit.sort), _,
          hempty, ?_, rfl, ?_,
        ?_⟩
      · show (pit.after (search_after <|> query.search_after)).take (target - out.length) = _
        rw [query.search_eq] at hempty ⊢
        have hlen : (pit.search (search_after <|> query.search_after)
          (min size (target - out.length))).length ≤
            target - out.length := by
          rw [Listing.search, List.length_take]
          omega
        rw [pit.next_cursor hempty, pit.after_page hempty, List.length_append, Nat.sub_add_eq]
        conv_lhs => rw [← Nat.add_sub_cancel' hlen, List.take_add, pit.take_search_length]
      · show (out ++ _).length ≤ target
        rw [List.length_append, query.search_eq, Listing.search, List.length_take]
        omega
      · simp only [Query.fetch_window, hlt, List.isEmpty_iff, hempty, if_true, if_false]
        cases sample limit (out ++ query.search pit search_after
          (min size (target - out.length))) <;> rfl
  · refine .inr ⟨?_, by simp [Query.fetch_window, hlt, List.take_of_length_le hle]⟩
    show (pit.after (search_after <|> query.search_after)).take (target - out.length) = []
    rw [Nat.sub_eq_zero_of_le (Nat.le_of_not_lt hlt), List.take_zero]

end Loops

section Fetch

variable {query : Query Key} {cluster : Cluster Doc Key Field query} {size : ℕ}

-- A query with a cursor of its own, outside the plan's PIT and without a sort.
def Refused (query : Query Key) (pit_id : Bool) : Prop :=
  query.search_after.isSome ∧ pit_id = false ∧ query.sort.truthy = false

instance (pit_id : Bool) : Decidable (Refused query pit_id) :=
  inferInstanceAs (Decidable (_ ∧ _ ∧ _))

-- The documents that a source is there for.
def share (cluster : Cluster Doc Key Field query) : SubSource Key Field → List Doc
  | .self => cluster.after query.search_after
  | .window window => (cluster.after (window.search_after <|> query.search_after)).take window.size
  | .range field order window =>
      match query.search_after with
      | none => cluster.hits.filter fun doc => range_clause order window (cluster.get field doc)
      | some start => cluster.after (some start)
  | .slice id max => (cluster.after query.search_after).filter (cluster.slice id max)

theorem filter_after (pit : Listing Doc Key) (p : Doc → Bool) (key : Option Key) :
    (pit.restrict p).after key = (pit.after key).filter p := by
  cases key with
  | none => rfl
  | some cursor =>
      simp only [Listing.after, Listing.restrict, List.filter_filter]
      exact List.filter_congr fun doc _ => Bool.and_comm _ _

theorem exists_returns_iff {σ : Type} {step : σ → σ ⊕ List Doc} {s : σ} {records : List Doc}
    (h : Returns step s records) {result : Except Raised (List Doc)} :
    (∃ read, result = .ok read ∧ Returns step s read) ↔ result = .ok records := by
  constructor
  · rintro ⟨read, rfl, hread⟩
    rw [hread.unique h]
  · rintro rfl
    exact ⟨records, rfl, h⟩

-- Whatever a source was narrowed to, and in pages of any size, it fetches its share, up to the
-- limit, or is refused.
theorem fetches_iff (cluster : Cluster Doc Key Field query) (hsize : 1 ≤ size) (limit : Option ℕ)
    (source : SubSource Key Field) (result : Except Raised (List Doc)) :
    Query.Fetches cluster size limit source result ↔
      result = if Refused query source.pit_id then .error Query.no_sort
        else .ok (limited limit (share cluster source)) := by
  by_cases hown : query.search_after.isSome ∧ source.pit_id = false
  · rw [Query.Fetches, if_pos hown]
    by_cases hsort : query.sort.truthy
    · have hshare : share cluster source = cluster.after query.search_after := by
        obtain ⟨start, hstart⟩ := Option.isSome_iff_exists.mp hown.1
        cases source with
        | self => rfl
        | range field order window => simp only [share, hstart]
        | window window => cases hown.2
        | slice id max => cases hown.2
      have hpages : Returns (Query.fetch_search_after cluster.toListing size limit)
        ([], query.search_after)
          (limited limit (cluster.after query.search_after)) :=
            fetch_range_window_limited (page_size_pos hsize limit) _
      rw [if_pos hsort, if_neg fun h => absurd hsort (by simp [h.2.2]), hshare,
        ← exists_returns_iff hpages]
      exact exists_congr fun _ => and_comm
    · rw [if_neg hsort, if_pos ⟨hown.1, hown.2, by simpa using hsort⟩]
  · rw [Query.Fetches, if_neg hown, if_neg fun h => hown ⟨h.1, h.2.1⟩]
    cases source with
    | self =>
        have hnone : query.search_after = none := by simpa [SubSource.pit_id] using hown
        have hshare : share cluster .self = cluster.hits := by rw [share, hnone]; rfl
        rw [hshare]
        exact exists_returns_iff (scroll_limited hsize cluster.hits)
    | window window => exact exists_returns_iff (fetch_window_limited hsize window.size
        window.search_after)
    | range field order window =>
        have hnone : query.search_after = none := by simpa [SubSource.pit_id] using hown
        have hshare : share cluster (.range field order window) =
            cluster.hits.filter fun doc => range_clause order window (cluster.get field doc) := by
              simp only [share, hnone]
        rw [hshare]
        exact exists_returns_iff (fetch_range_window_limited hsize none)
    | slice id max =>
        have hslice := fetch_slice_limited query
          (cluster.restrict (cluster.slice id max)) hsize limit
        rw [filter_after] at hslice
        exact exists_returns_iff hslice

end Fetch

section Numbers

theorem countP_mod (doc : ℕ) {max : ℕ} (hmax : 1 ≤ max) :
    (List.range max).countP (fun id => doc % max = id) = 1 := by
  have hone := (List.nodup_range (n := max)).count (a := doc % max)
  rw [List.count_eq_countP, if_pos (List.mem_range.mpr (Nat.mod_lt doc hmax))] at hone
  refine (List.countP_congr fun id _ => ?_).trans hone
  rw [decide_eq_true_eq, beq_iff_eq, eq_comm]

-- The first numbers, sorted by themselves and sliced by their remainder.
def numbers (start : Option ℕ) (n : ℕ) : Cluster ℕ ℕ ℕ ⟨.list [.str "id"], start⟩ where
  toListing := Listing.range n
  first := some
  get _ doc := some doc
  first_sort _ _ _ _ := rfl
  ranked field order hkey := by
    have hfield : first_sort_key (.list [.str "id"]) = .ok (.str "id", .asc) := rfl
    obtain ⟨rfl, rfl⟩ := Prod.mk.inj (Except.ok.inj (hfield.symm.trans hkey))
    refine (Listing.range n).sorted.imp fun {a b} hab w hw => ⟨a, rfl, ?_⟩
    obtain rfl := Option.some.inj hw
    exact decide_eq_true hab.le
  slice id max doc := doc % max = id
  sliced max hmax doc _ := countP_mod doc hmax

theorem fetches_numbers : Query.Fetches (numbers (some 3) 10) 2 (some 2)
    (.slice 1 2) (.ok [5, 7]) :=
  (fetches_iff (numbers (some 3) 10) (by decide) (some 2) (.slice 1 2) (.ok [5, 7])).mpr rfl

end Numbers

section Scan

variable {query : Query Key} {pit : Listing Doc Key} {size w n : ℕ}

-- A cursor that the scan has come to is behind the query's own.
def Scanning (query : Query Key) (pit : Listing Doc Key)
    (s : List (Option Key) × ℕ × Option Key) : Prop :=
  ∀ c, s.2.2 = some c → ∃ doc ∈ pit.after query.search_after, pit.sort doc = c

theorem Scanning.page {s : List (Option Key) × ℕ × Option Key}
    (hs : Scanning query pit s) {hits : List Doc}
    (hhits : ∀ doc ∈ hits, doc ∈ pit.after query.search_after) :
      Scanning query pit (hits.foldl (note pit w n) s) := by
  induction hits generalizing s with
  | nil => exact hs
  | cons doc hits ih =>
      refine ih ?_ fun d hd => hhits d (List.mem_cons_of_mem doc hd)
      intro c hc
      exact ⟨doc, hhits doc List.mem_cons_self, Option.some.inj hc⟩

theorem Scanning.search {s : List (Option Key) × ℕ × Option Key} (hs : Scanning query pit s) :
    query.search pit s.2.2 size = (pit.behind query.search_after).search s.2.2 size :=
  pit.search_behind size hs

theorem mem_of_search {key : Option Key} {doc : Doc} (h : doc ∈ pit.search key size) :
    doc ∈ pit.hits := by
  obtain ⟨seen, hseen⟩ := pit.after_eq_drop key
  rw [Listing.search, hseen] at h
  exact List.mem_of_mem_drop (List.mem_of_mem_take h)

-- With a cursor of its own, a query is scanned like what is behind the cursor.
theorem scan_behind (query : Query Key) (pit : Listing Doc Key) (w : ℕ)
    (hsize : 1 ≤ size) (hn : 1 ≤ n) :
    Returns (query.scan_window_cursors pit size w n) ([none], 0, none)
      (cuts (pit.behind query.search_after) w n (pit.after query.search_after).length) := by
  have hscan : Returns (ElasticSource.scan_window_cursors (pit.behind query.search_after) size w n)
      ([none], 0, none) _ :=
    scan_returns hsize hn
  rw [Listing.behind_hits] at hscan
  refine Returns.congr (I := Scanning query pit) ?_ ?_ (by rintro c ⟨⟩) hscan
  · rintro ⟨cursors, seen, search_after⟩ hs
    have hsearch : query.search pit search_after size = _ := hs.search
    simp only [Query.scan_window_cursors, ElasticSource.scan_window_cursors, hsearch]
    rfl
  · rintro ⟨cursors, seen, search_after⟩ s' hs hnext
    have hsearch : query.search pit search_after size = _ := hs.search
    simp only [Query.scan_window_cursors] at hnext
    split at hnext
    · split at hnext
      · cases hnext
      · cases hnext
        refine hs.page fun doc hdoc => ?_
        rw [hsearch] at hdoc
        rw [← Listing.behind_hits]
        exact mem_of_search hdoc
    · cases hnext

end Scan

section Plan

variable {query : Query Key} {cluster : Cluster Doc Key Field query}
    {settings : PlanSettings} {count : ℕ}

-- A window from a cut on reads what is behind it.
theorem after_cut (pit : Listing Doc Key) (start : Option Key) (seen : ℕ) :
    pit.after ((pit.behind start).cursor seen <|> start) = (pit.after start).drop seen := by
  have hcut := (pit.behind start).after_cursor seen
  rw [Listing.behind_hits] at hcut
  rw [← hcut]
  refine pit.after_behind fun c hc => ?_
  rw [Listing.cursor, Listing.behind_hits, Option.map_eq_some_iff] at hc
  obtain ⟨doc, hdoc, rfl⟩ := hc
  exact ⟨doc, List.mem_of_mem_take (List.mem_of_getLast? hdoc), rfl⟩

-- The cursors that the plan is made from, and the plan.
def plan_cuts (cluster : Cluster Doc Key Field query) (settings : PlanSettings) (count : ℕ) :
    List (Option Key) :=
  cuts (cluster.behind query.search_after) (window_size settings.toSettings count)
    (num_windows settings.toSettings count)
    (cluster.after query.search_after).length

def planned (cluster : Cluster Doc Key Field query) (settings : PlanSettings) (count : ℕ) :
    Except Raised (List (SubSource Key Field)) :=
  if count = 0 then .ok []
  else if settings.docs_per_job = 0 then
    .ok (if settings.num_slices ≤ 1 then [.self]
      else (List.range settings.num_slices).map (.slice · settings.num_slices))
  else
    match settings.window_mode with
    | .range => (first_sort_key query.sort).map fun (field, order) =>
        if num_windows settings.toSettings count ≤ 1 then [.self]
        else (range_windows (boundaries cluster.first (plan_cuts cluster settings count))).map
          (.range field order)
    | .snapshot => .ok (
        if num_windows settings.toSettings count ≤ 1 then [.self]
        else (plan_cuts cluster settings count).map fun start =>
          .window ⟨start, window_size settings.toSettings count⟩)

theorem windows_iff (cluster : Cluster Doc Key Field query) (hsize : 1 ≤ settings.size) (count : ℕ)
    (windows : List (Option Key) → List (SubSource Key Field)) (plan : List (SubSource Key Field)) :
    Query.Windows cluster settings count windows plan ↔
      plan = if num_windows settings.toSettings count ≤ 1 then [.self]
        else windows (plan_cuts cluster settings count) := by
  unfold Query.Windows
  by_cases hn : num_windows settings.toSettings count ≤ 1
  · rw [if_pos hn, if_pos hn]
  · rw [if_neg hn, if_neg hn]
    have hscan := scan_behind query cluster.toListing (window_size settings.toSettings count) hsize
      (show 1 ≤ num_windows settings.toSettings count by omega)
    constructor
    · rintro ⟨cursors, hcursors, rfl⟩
      rw [hcursors.unique hscan]
      rfl
    · rintro rfl
      exact ⟨_, hscan, rfl⟩

theorem splits_iff (cluster : Cluster Doc Key Field query) (hsize : 1 ≤ settings.size) (count : ℕ)
    (result : Except Raised (List (SubSource Key Field))) :
    Query.Splits cluster settings count result ↔ result = planned cluster settings count := by
  unfold Query.Splits planned
  by_cases hcount : count = 0
  · rw [if_pos hcount, if_pos hcount]
  · rw [if_neg hcount, if_neg hcount]
    by_cases hdocs : settings.docs_per_job = 0
    · rw [if_pos hdocs, if_pos hdocs]
    · rw [if_neg hdocs, if_neg hdocs]
      cases settings.window_mode with
      | snapshot => simp only [windows_iff cluster hsize, exists_eq_left]
      | range =>
          cases first_sort_key query.sort with
          | error e => rfl
          | ok key => simp only [windows_iff cluster hsize, exists_eq_left, Except.map]

theorem delivers_iff (cluster : Cluster Doc Key Field query) {size : ℕ} (hsize : 1 ≤ size)
    (jobs : List (SubSource Key Field)) (records : List Doc) :
    Delivers (fun job part => Query.Fetches cluster size none job (.ok part)) jobs records ↔
      (∀ job ∈ jobs, ¬Refused query job.pit_id) ∧ records = jobs.flatMap (share cluster) := by
  induction jobs generalizing records with
  | nil => simp [delivers_nil_iff]
  | cons job jobs ih =>
      simp only [delivers_cons_iff, ih]
      simp only [fetches_iff cluster hsize, List.forall_mem_cons, List.flatMap_cons]
      by_cases hrefused : Refused query job.pit_id
      · simp [hrefused]
      · simp only [hrefused, if_false, limited, Except.ok.injEq, not_false_eq_true, true_and]
        constructor
        · rintro ⟨_, _, rfl, ⟨hjobs, rfl⟩, rfl⟩
          exact ⟨hjobs, rfl⟩
        · rintro ⟨hjobs, rfl⟩
          exact ⟨_, _, rfl, ⟨hjobs, rfl⟩, rfl⟩

-- The jobs of the plan read once what there is behind the query's cursor.
def ReadOnce (cluster : Cluster Doc Key Field query) (settings : PlanSettings) (count : ℕ) : Prop :=
  ∃ jobs records, Query.Splits cluster settings count (.ok jobs) ∧
    Delivers (fun job part => Query.Fetches cluster settings.size none job
      (.ok part)) jobs records ∧
    records.Perm (cluster.after query.search_after)

theorem readOnce_iff (cluster : Cluster Doc Key Field query)
    (hsize : 1 ≤ settings.size) (count : ℕ) :
    ReadOnce cluster settings count ↔
      ∃ jobs, planned cluster settings count = .ok jobs ∧
        (∀ job ∈ jobs, ¬Refused query job.pit_id) ∧
        (jobs.flatMap (share cluster)).Perm (cluster.after query.search_after) := by
  simp only [ReadOnce, splits_iff cluster hsize, delivers_iff cluster hsize]
  constructor
  · rintro ⟨jobs, _, hjobs, ⟨hserved, rfl⟩, hperm⟩
    exact ⟨jobs, hjobs.symm, hserved, hperm⟩
  · rintro ⟨jobs, hjobs, hserved, hperm⟩
    exact ⟨jobs, _, hjobs.symm, ⟨hserved, rfl⟩, hperm⟩

-- One job reads everything, unless it is refused.
theorem self_reads_once (cluster : Cluster Doc Key Field query) :
    ((∀ job ∈ ([.self] : List (SubSource Key Field)), ¬Refused query job.pit_id) ∧
      ([.self].flatMap (share cluster)).Perm (cluster.after query.search_after)) ↔
        ¬Refused query false := by
  simp [share, SubSource.pit_id]

-- Each slice has its part of what is behind the cursor.
theorem slices_read_once (cluster : Cluster Doc Key Field query) {max : ℕ} (hmax : 1 ≤ max) :
    (((List.range max).map (.slice · max)).flatMap (share cluster)).Perm
    (cluster.after query.search_after) := by
  rw [List.flatMap_map]
  refine (perm_parts_iff (fun id doc => cluster.slice id max doc) _ _).mpr fun doc hdoc => ?_
  rw [← Listing.behind_hits] at hdoc
  exact cluster.sliced max hmax doc (List.mem_filter.mp hdoc).1

theorem windows_share (cluster : Cluster Doc Key Field query)
    (settings : PlanSettings) (count : ℕ) :
    ((plan_cuts cluster settings count).map fun start =>
      .window ⟨start, window_size settings.toSettings count⟩).flatMap
      (share cluster) =
      (cluster.after query.search_after).take
        (num_windows settings.toSettings count * window_size settings.toSettings count) := by
  have hread := windows_read (cluster.behind query.search_after)
    (window_size settings.toSettings count)
    (num_windows settings.toSettings count)
  rw [Listing.behind_hits] at hread
  rw [← hread, plan_cuts, cuts, List.map_map, List.flatMap_map]
  simp only [Function.comp_def, share, after_cut]

theorem take_perm_iff {n : ℕ} {docs : List Doc} : (docs.take n).Perm docs ↔ docs.length ≤ n := by
  constructor
  · intro h
    have hlen := h.length_eq
    rw [List.length_take] at hlen
    omega
  · intro h
    rw [List.take_of_length_le h]

theorem constant_perm_iff {α : Type} {jobs : List α} {docs : List Doc} :
    (jobs.flatMap fun _ => docs).Perm docs ↔ jobs.length = 1 ∨ docs = [] := by
  constructor
  · intro h
    have hlen : jobs.length * docs.length = docs.length := by simpa using h.length_eq
    rcases Nat.eq_zero_or_pos docs.length with hnone | hsome
    · exact .inr (List.length_eq_zero_iff.mp hnone)
    · exact .inl (Nat.eq_of_mul_eq_mul_right hsome (hlen.trans (Nat.one_mul _).symm))
  · rintro (hone | rfl)
    · obtain ⟨job, rfl⟩ := List.length_eq_one_iff.mp hone
      simp
    · simp

theorem first_sort_key_truthy {sort : Value} {key : Reflowfy.Key × Order}
    (h : first_sort_key sort = .ok key) :
    sort.truthy = true := by
  cases sort with
  | str text =>
      by_cases htext : text = ""
      · subst htext
        simp [first_sort_key, Key.truthy] at h
      · simpa [Value.truthy] using htext
  | list items =>
      cases items with
      | nil => simp [first_sort_key] at h
      | cons item items => rfl
  | dict entries =>
      cases entries with
      | nil => simp [first_sort_key] at h
      | cons entry entries => rfl
  | _ => simp [first_sort_key] at h

omit [LinearOrder Field] in
theorem length_range_windows (values : List (Option Field)) :
    (range_windows values).length = values.length + 1 := by
  simp [range_windows]

theorem boundary_ne_nil (found : List (Option Field)) (value : Option Field) :
    boundary found value ≠ [] := by
  unfold boundary
  split
  · rintro rfl
    contradiction
  · simp

theorem foldl_boundary_ne_nil (values : List (Option Field)) {found : List (Option Field)}
    (hfound : found ≠ []) :
    values.foldl boundary found ≠ [] := by
  induction values generalizing found with
  | nil => exact hfound
  | cons value values ih => exact ih (boundary_ne_nil found value)

omit [LinearOrder Key] in
-- There is one window exactly where the scan has found no other cursor.
theorem boundaries_eq_nil_iff {first : Key → Option Field} {cursors : List (Option Key)} :
    boundaries first cursors = [] ↔ cursors.length ≤ 1 := by
  cases cursors with
  | nil => simp [boundaries]
  | cons start cursors =>
      cases cursors with
      | nil => simp [boundaries]
      | cons c cursors =>
          simp only [List.length_cons, show ¬cursors.length + 1 + 1 ≤ 1 by omega, iff_false]
          exact foldl_boundary_ne_nil (cursors.map (·.bind first))
            (boundary_ne_nil [] (c.bind first))

-- With a cursor of its own, every window is read from the cursor to the end.
theorem ranges_from_cursor (hcount : 0 < count) (hn : ¬num_windows settings.toSettings count ≤ 1)
    (hstart : query.search_after.isSome) (field : Reflowfy.Key) (order : Order) :
    (((range_windows (boundaries cluster.first (plan_cuts cluster settings count))).map
      (SubSource.range field order)).flatMap
      (share cluster)).Perm (cluster.after query.search_after) ↔
      (cluster.after query.search_after).length < window_size settings.toSettings count := by
  obtain ⟨start, hstart⟩ := Option.isSome_iff_exists.mp hstart
  have hshare : (fun window => share cluster (SubSource.range field order window)) =
      fun _ => cluster.after query.search_after := by
    funext window
    simp only [share, hstart]
  have hpos : 0 < window_size settings.toSettings count := ceilTrueDiv_pos hcount (by omega)
  rw [List.flatMap_map, hshare, constant_perm_iff, length_range_windows, Nat.succ_inj,
    List.length_eq_zero_iff,
    boundaries_eq_nil_iff, plan_cuts, cuts, List.length_map, List.length_range,
      ← Nat.div_eq_zero_iff_lt hpos]
  have hfew (found : ℕ) : min (num_windows settings.toSettings count) (found + 1) ≤ 1 ↔
    found = 0 := by omega
  rw [hfew]
  constructor
  · rintro (hdiv | hnone)
    · exact hdiv
    · rw [hnone, List.length_nil, Nat.zero_div]
  · exact .inl

-- The query's documents, as range windows are cut out of them.
def Cluster.index (cluster : Cluster Doc Key Field query) {field : Reflowfy.Key} {order : Order}
    (hkey : first_sort_key query.sort = .ok (field, order)) : Index Doc Key Field order where
  toListing := cluster.toListing
  value := cluster.first
  ranked := cluster.ranked field order hkey

-- Without one, each window reads its range.
theorem ranges_share (cluster : Cluster Doc Key Field query) {field : Reflowfy.Key} {order : Order}
    (hkey : first_sort_key query.sort = .ok (field, order)) (hstart : query.search_after = none)
    (hcount : count = cluster.hits.length) :
    ((range_windows (boundaries cluster.first (plan_cuts cluster settings count))).map
      (SubSource.range field order)).flatMap
      (share cluster) =
    (planned_windows (cluster.index hkey) settings.toSettings).flatMap fun window =>
      cluster.hits.filter (in_window (cluster.index hkey) window) := by
  have hcuts : plan_cuts cluster settings count = cuts cluster.toListing
    (window_size settings.toSettings count)
      (num_windows settings.toSettings count) cluster.hits.length := by
    rw [plan_cuts, hstart, Listing.behind_none]
    rfl
  rw [List.flatMap_map, hcuts, hcount]
  refine List.flatMap_congr (l := planned_windows (cluster.index hkey) settings.toSettings)
    fun window _ => ?_
  simp only [share, hstart]
  refine List.filter_congr fun doc _ => ?_
  rw [← cluster.first_sort field order hkey doc]
  rfl

theorem ranges_read_once_iff {field : Reflowfy.Key} {order : Order}
    (hkey : first_sort_key query.sort = .ok (field, order))
    (hstart : query.search_after = none) (hcount : count = cluster.hits.length) :
    (((range_windows (boundaries cluster.first (plan_cuts cluster settings count))).map
      (SubSource.range field order)).flatMap
      (share cluster)).Perm (cluster.after query.search_after) ↔
      ∀ doc ∈ cluster.hits, (cluster.first (cluster.sort doc)).isSome := by
  rw [ranges_share cluster hkey hstart hcount, hstart]
  show List.Perm _ (cluster.index hkey).hits ↔ _
  refine (perm_parts_iff (in_window (cluster.index hkey)) _ (cluster.index hkey).hits).trans ?_
  constructor
  · intro hone doc hdoc
    by_contra hnull
    have hnull' : (cluster.index hkey).value ((cluster.index hkey).sort doc) = none :=
      Option.not_isSome_iff_eq_none.mp hnull
    have hone' := hone doc hdoc
    rw [not_in_window hnull'] at hone'
    exact absurd hone' (by decide)
  · intro hvalue doc hdoc
    exact countP_in_window (fun d hd => Option.isSome_iff_exists.mp (hvalue d hd)) hdoc

-- When a plan reads everything once, in the order in which `split` decides it.
def Whole (cluster : Cluster Doc Key Field query) (settings : PlanSettings) (count : ℕ) : Prop :=
  if count = 0 then cluster.after query.search_after = []
  else if settings.docs_per_job = 0 then
    settings.num_slices ≤ 1 → ¬Refused query false
  else
    match settings.window_mode with
    | .range => (∃ key, first_sort_key query.sort = .ok key) ∧
        (num_windows settings.toSettings count ≤ 1 ∨
          if query.search_after.isSome then
            (cluster.after query.search_after).length < window_size settings.toSettings count
          else ∀ doc ∈ cluster.hits, (cluster.first (cluster.sort doc)).isSome)
    | .snapshot =>
        if num_windows settings.toSettings count ≤ 1 then ¬Refused query false
        else (cluster.after query.search_after).length ≤
          num_windows settings.toSettings count * window_size settings.toSettings count

theorem read_once_iff (cluster : Cluster Doc Key Field query) (hsize : 1 ≤ settings.size)
    (hcount : settings.window_mode = .range → count = cluster.hits.length) :
    ReadOnce cluster settings count ↔ Whole cluster settings count := by
  rw [readOnce_iff cluster hsize]
  unfold planned Whole
  by_cases hnone : count = 0
  · simp only [hnone, if_pos, Except.ok.injEq, exists_eq_left', List.flatMap_nil,
      List.nil_perm, List.not_mem_nil,
      false_imp_iff, implies_true, true_and]
  · rw [if_neg hnone, if_neg hnone]
    by_cases hdocs : settings.docs_per_job = 0
    · rw [if_pos hdocs, if_pos hdocs]
      simp only [Except.ok.injEq, exists_eq_left']
      by_cases hslices : settings.num_slices ≤ 1
      · rw [if_pos hslices, self_reads_once]
        simp only [hslices, forall_const]
      · rw [if_neg hslices]
        refine iff_of_true ⟨fun job hjob => ?_, slices_read_once cluster (by omega)⟩
          fun h => absurd h hslices
        obtain ⟨id, -, rfl⟩ := List.mem_map.mp hjob
        rintro ⟨-, ⟨⟩, -⟩
    · rw [if_neg hdocs, if_neg hdocs]
      cases hmode : settings.window_mode with
      | snapshot =>
          simp only [Except.ok.injEq, exists_eq_left']
          by_cases hn : num_windows settings.toSettings count ≤ 1
          · simp only [if_pos hn, self_reads_once]
          · rw [if_neg hn, if_neg hn, windows_share, take_perm_iff]
            refine and_iff_right fun job hjob => ?_
            obtain ⟨start, -, rfl⟩ := List.mem_map.mp hjob
            rintro ⟨-, ⟨⟩, -⟩
      | range =>
          cases hkey : first_sort_key query.sort with
          | error e => simp [Except.map]
          | ok key =>
              obtain ⟨field, order⟩ := key
              have hserved (pit_id : Bool) : ¬Refused query pit_id := by
                rintro ⟨-, -, hsort⟩
                exact absurd (first_sort_key_truthy hkey) (by simp [hsort])
              simp only [Except.map, Except.ok.injEq, exists_eq_left', exists_eq', true_and,
                hserved, not_false_eq_true,
                implies_true]
              by_cases hn : num_windows settings.toSettings count ≤ 1
              · simp [hn, share]
              · rw [if_neg hn, or_iff_right hn]
                by_cases hstart : query.search_after.isSome
                · rw [if_pos hstart]
                  exact ranges_from_cursor (Nat.pos_of_ne_zero hnone) hn hstart field order
                · rw [if_neg hstart]
                  exact ranges_read_once_iff hkey
                    (Option.not_isSome_iff_eq_none.mp hstart) (hcount hmode)

-- Slices keep to the query's cursor; ranges read all that is behind it, each of them.
theorem read_once_numbers :
    ReadOnce (numbers (some 3) 10) ⟨⟨2, 0, 1024⟩, .snapshot, 3⟩ 10 ∧
    ¬ReadOnce (numbers (some 3) 10) ⟨⟨2, 4, 1024⟩, .range, 1⟩ 10 := by
  refine ⟨(read_once_iff (numbers (some 3) 10) (by decide) (by decide)).mpr ?_, ?_⟩
  · intro hslices
    exact absurd hslices (by decide)
  · intro hread
    obtain ⟨-, hfew | hfew⟩ :=
      (read_once_iff (numbers (some 3) 10) (by decide) fun _ => rfl).mp hread
    · exact absurd hfew (by decide)
    · exact absurd hfew (by decide)

end Plan

end Reflowfy.ElasticSource
