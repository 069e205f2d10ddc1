import Reflowfy.Sources.Elastic

namespace Reflowfy.ElasticSource

open Paging

variable {Bucket Key : Type} [LinearOrder Key] {buckets : Listing Bucket Key} {keep : Bucket → Bool}
    {start : Option Key}

-- The pipeline leaves nothing of these buckets.
def Blank (keep : Bucket → Bool) (page : List Bucket) : Prop := page.filter keep = []

instance (page : List Bucket) : Decidable (Blank keep page) :=
  inferInstanceAs (Decidable (page.filter keep = []))

theorem Blank.drop {page : List Bucket} (h : Blank keep page) (n : ℕ) :
    Blank keep (page.drop n) := by
  rw [Blank, List.filter_eq_nil_iff] at h ⊢
  exact fun b hb => h b (List.mem_of_mem_drop hb)

section Unsplit

variable {size : ℕ}

-- The walk has come through `n` pages, and each of them had a bucket left.
def Walked (buckets : Listing Bucket Key) (keep : Bucket → Bool) (start : Option Key) (size n : ℕ) :
    List Bucket × Option Key → Prop
  | (records, after) =>
      buckets.after after = (buckets.after start).drop (n * size) ∧
        records = ((buckets.after start).take (n * size)).filter keep ∧
        ∀ k < n, ¬Blank keep (((buckets.after start).drop (k * size)).take size)

-- The walk ends at the first page with no bucket left.
def Ended (buckets : Listing Bucket Key) (keep : Bucket → Bool) (start : Option Key) (size n : ℕ)
    (records : List Bucket) : Prop :=
  records = ((buckets.after start).take (n * size)).filter keep ∧
    Blank keep (((buckets.after start).drop (n * size)).take size) ∧
    ∀ k < n, ¬Blank keep (((buckets.after start).drop (k * size)).take size)

theorem fetch_composite_step {s : List Bucket × Option Key} {n : ℕ}
    (hs : Walked buckets keep start size n s) :
    (∃ s', fetch_composite buckets keep size none s = .inl s' ∧
      Walked buckets keep start size (n + 1) s' ∧
      (buckets.after s'.2).length < (buckets.after s.2).length) ∨
    ∃ records, fetch_composite buckets keep size none s = .inr records ∧
      Ended buckets keep start size n records := by
  obtain ⟨records, after⟩ := s
  obtain ⟨hafter, hrecords, hwalked⟩ := hs
  have hpage : buckets.search after size = ((buckets.after start).drop (n * size)).take size := by
    rw [Listing.search, hafter]
  by_cases hblank : Blank keep (buckets.search after size)
  · refine .inr ⟨records, ?_, hrecords, hpage ▸ hblank, hwalked⟩
    rw [Blank] at hblank
    simp [fetch_composite, composite_page, hblank, sample]
  · have hne : buckets.search after size ≠ [] := fun h => hblank (by rw [h]; rfl)
    refine .inl ⟨(records ++ (buckets.search after size).filter keep,
      (buckets.search after size).getLast?.map buckets.sort),
      ?_, ⟨?_, ?_, ?_⟩, ?_⟩
    · rw [Blank] at hblank
      simp [fetch_composite, composite_page, hblank, hne, sample]
    · rw [buckets.after_search hne, hafter, List.drop_drop, Nat.succ_mul]
    · rw [hrecords, hpage, ← List.filter_append, Nat.succ_mul, List.take_add]
    · intro k hk
      rcases Nat.lt_succ_iff_lt_or_eq.mp hk with hlt | rfl
      · exact hwalked k hlt
      · exact hpage ▸ hblank
    · have hlen := List.length_pos_iff.mpr hne
      show (buckets.after ((buckets.search after size).getLast?.map buckets.sort)).length <
        (buckets.after after).length
      rw [buckets.after_search hne, List.length_drop]
      rw [Listing.search, List.length_take] at hlen
      omega

theorem fetch_composite_returns (buckets : Listing Bucket Key) (keep : Bucket → Bool)
    (start : Option Key) (size : ℕ) :
    ∃ records, Returns (fetch_composite buckets keep size none) ([], start) records ∧
      ∃ n, Ended buckets keep start size n records := by
  refine returns_of_variant (I := fun s => ∃ n, Walked buckets keep start size n s)
    (fun s => (buckets.after s.2).length)
    ?_ ⟨0, by simp [Walked]⟩
  rintro s ⟨n, hs⟩
  rcases fetch_composite_step hs with ⟨s', hnext, hs', hlt⟩ | ⟨records, hret, hend⟩
  · exact .inl ⟨s', hnext, ⟨n + 1, hs'⟩, hlt⟩
  · exact .inr ⟨records, hret, ⟨n, hend⟩⟩

end Unsplit

section Split

variable {page_size : ℕ}

-- What the jobs planned so far fetch, and what is left behind the cursor.
def PlannedTo (buckets : Listing Bucket Key) (keep : Bucket → Bool) (start : Option Key) (n : ℕ) :
    List (CompositePage Key) × Option Key → Prop
  | (planned, cursor) =>
      buckets.after cursor = (buckets.after start).drop n ∧ cursor.or start = cursor ∧
        planned.flatMap (fetch_composite_page buckets keep start none) =
          ((buckets.after start).take n).filter keep

theorem split_composite_step (hsize : 1 ≤ page_size)
    {s : List (CompositePage Key) × Option Key} {n : ℕ} (hs : PlannedTo buckets keep start n s) :
    (∃ s', split_composite buckets page_size s = .inl s' ∧
      PlannedTo buckets keep start (n + page_size) s' ∧
      (buckets.after s'.2).length < (buckets.after s.2).length) ∨
    ∃ planned, split_composite buckets page_size s = .inr planned ∧
      planned.flatMap (fetch_composite_page buckets keep start none) =
        (buckets.after start).filter keep := by
  obtain ⟨planned, cursor⟩ := s
  obtain ⟨hafter, hcursor, hplanned⟩ := hs
  have hpage : buckets.search cursor page_size = ((buckets.after start).drop n).take page_size := by
    rw [Listing.search, hafter]
  by_cases hempty : buckets.search cursor page_size = []
  · refine .inr ⟨planned, by simp [split_composite, composite_page, hempty], ?_⟩
    have hend : (buckets.after start).length ≤ n := by
      rw [hpage, List.take_eq_nil_iff, List.drop_eq_nil_iff] at hempty
      omega
    rw [hplanned, List.take_of_length_le hend]
  · have hlen : 1 ≤ (buckets.search cursor page_size).length := List.length_pos_iff.mpr hempty
    have hleft : (buckets.search cursor page_size).length = min page_size
        ((buckets.after start).length - n) := by
      rw [hpage, List.length_take, List.length_drop]
    obtain ⟨after_key, hkey⟩ : ∃ k, (buckets.search cursor page_size).getLast?.map
        buckets.sort = some k :=
      ⟨_, by rw [List.getLast?_eq_getLast_of_ne_nil hempty, Option.map_some]⟩
    have hfetch : (planned ++ [(⟨cursor, page_size⟩ : CompositePage Key)]).flatMap
        (fetch_composite_page buckets keep start none) =
            ((buckets.after start).take (n + page_size)).filter keep := by
      rw [List.flatMap_append, hplanned, List.take_add, List.filter_append, ← hpage]
      simp [fetch_composite_page, composite_page, hcursor]
    by_cases hshort : (buckets.search cursor page_size).length < page_size
    · refine .inr ⟨planned ++ [⟨cursor, page_size⟩],
        by simp [split_composite, composite_page, hempty, hshort], ?_⟩
      rw [hfetch, List.take_of_length_le (by omega)]
    · have hbehind := buckets.after_search hempty
      rw [hkey, hafter, List.drop_drop] at hbehind
      refine .inl ⟨(planned ++ [⟨cursor, page_size⟩], some after_key), ?_,
        ⟨hbehind, rfl, hfetch⟩, ?_⟩
      · simp [split_composite, composite_page, hempty, hshort, hkey]
      · show (buckets.after (some after_key)).length < (buckets.after cursor).length
        rw [hbehind, hafter, List.length_drop, List.length_drop]
        omega

theorem split_composite_returns (hsize : 1 ≤ page_size) (buckets : Listing Bucket Key)
    (keep : Bucket → Bool) (start : Option Key) :
    ∃ planned, Returns (split_composite buckets page_size) ([], start) planned ∧
      planned.flatMap (fetch_composite_page buckets keep start none) =
        (buckets.after start).filter keep := by
  refine returns_of_variant (I := fun s => ∃ n, PlannedTo buckets keep start n s)
    (fun s => (buckets.after s.2).length)
    ?_ ⟨0, by simp [PlannedTo]⟩
  rintro s ⟨n, hs⟩
  rcases split_composite_step hsize hs with ⟨s', hnext, hs', hlt⟩ | ⟨planned, hret, hall⟩
  · exact .inl ⟨s', hnext, ⟨n + page_size, hs'⟩, hlt⟩
  · exact .inr ⟨planned, hret, hall⟩

end Split

-- The planned pages hold every bucket that is kept; the walk stops at a page that holds none.
theorem composite_split_iff {size page_size : ℕ} (hpage : 1 ≤ page_size) :
    (∃ planned records, Returns (split_composite buckets page_size) ([], start) planned ∧
      Returns (fetch_composite buckets keep size none) ([], start) records ∧
      planned.flatMap (fetch_composite_page buckets keep start none) = records) ↔
    ∀ n, Blank keep (((buckets.after start).drop (n * size)).take size) →
      Blank keep ((buckets.after start).drop (n * size)) := by
  obtain ⟨planned, hplanned, hall⟩ := split_composite_returns hpage buckets keep start
  obtain ⟨records, hrecords, m, hwalk, hblank, hwalked⟩ :=
    fetch_composite_returns buckets keep start size
  have hsplit : (buckets.after start).filter keep = records ++
      ((buckets.after start).drop (m * size)).filter keep := by
    rw [hwalk, ← List.filter_append, List.take_append_drop]
  have hstop : (buckets.after start).filter keep = records ↔
      Blank keep ((buckets.after start).drop (m * size)) := by
    rw [hsplit, List.append_right_eq_self, Blank]
  constructor
  · rintro ⟨planned', records', hplanned', hrecords', heq⟩ n hn
    rw [hplanned'.unique hplanned, hrecords'.unique hrecords, hall, hstop] at heq
    have hmn : m ≤ n := by
      by_contra hlt
      exact hwalked n (by omega) hn
    have hrest := heq.drop (n * size - m * size)
    rwa [List.drop_drop, Nat.add_sub_cancel' (Nat.mul_le_mul_right size hmn)] at hrest
  · intro hcond
    refine ⟨planned, records, hplanned, hrecords, ?_⟩
    rw [hall]
    exact hstop.mpr (hcond m hblank)

-- The even buckets of five, in pages of two and of three.
theorem composite_split_five :
    ∃ planned records, Returns (split_composite (Listing.range 5) 3) ([], none) planned ∧
      Returns (fetch_composite (Listing.range 5) (· % 2 == 0) 2 none) ([], none) records ∧
      planned.flatMap (fetch_composite_page (Listing.range 5)
        (· % 2 == 0) none none) = records := by
  refine (composite_split_iff (by decide)).mpr fun n hn => ?_
  rcases n with _ | _ | _ | n
  · exact absurd hn (by decide)
  · exact absurd hn (by decide)
  · exact absurd hn (by decide)
  · have hend : (Listing.range 5).hits.drop ((n + 3) * 2) = [] := by
      rw [List.drop_eq_nil_iff]
      simp only [Listing.range, List.length_range]
      omega
    show Blank _ ((Listing.range 5).hits.drop ((n + 3) * 2))
    rw [hend]
    rfl

-- The only bucket of the first page is removed: the walk stops there, and the second page
-- is planned all the same.
theorem composite_split_differs :
    ¬∃ planned records, Returns (split_composite (Listing.range 2) 1) ([], none) planned ∧
      Returns (fetch_composite (Listing.range 2) (· == 1) 1 none) ([], none) records ∧
      planned.flatMap (fetch_composite_page (Listing.range 2) (· == 1) none none) = records := by
  rintro ⟨planned, records, hplanned, hrecords, heq⟩
  have hplan : Returns (split_composite (Listing.range 2) 1) ([], none)
    [⟨none, 1⟩, ⟨some 0, 1⟩] := ⟨3, by decide⟩
  have hwalk : Returns (fetch_composite (Listing.range 2) (· == 1) 1 none) ([], none)
    [] := ⟨1, by decide⟩
  rw [hplanned.unique hplan, hrecords.unique hwalk] at heq
  exact absurd heq (by decide)

end Reflowfy.ElasticSource
