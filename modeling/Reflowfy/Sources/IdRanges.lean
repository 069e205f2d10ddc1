import Reflowfy.Paging.Partition
import Reflowfy.Sources.Sql
import Mathlib.Tactic.Linarith

namespace Reflowfy.SqlSource

open Paging

variable {Row : Type} {id : Row → Option ℚ} {batch_size : ℤ} {rows : List Row}

section Int

theorem lt_int_add_one (q : ℚ) : q < int q + 1 := by
  unfold int
  split
  · exact Int.lt_floor_add_one q
  · have hle := Int.le_ceil q
    linarith

theorem int_mono {a b : ℚ} (hab : a ≤ b) : int a ≤ int b := by
  unfold int
  by_cases ha : 0 ≤ a
  · rw [if_pos ha, if_pos (ha.trans hab)]
    exact Int.floor_mono hab
  · rw [if_neg ha]
    by_cases hb : 0 ≤ b
    · rw [if_pos hb]
      have hceil : ⌈a⌉ ≤ 0 := Int.ceil_le.mpr (by simpa using (not_le.mp ha).le)
      exact hceil.trans (Int.floor_nonneg.mpr hb)
    · rw [if_neg hb]
      exact Int.ceil_mono hab

-- Cutting off does not go up, except below zero and for a fraction.
theorem int_le_iff {q : ℚ} : (int q : ℚ) ≤ q ↔ 0 ≤ q ∨ ∃ n : ℤ, q = n := by
  unfold int
  by_cases hq : 0 ≤ q
  · rw [if_pos hq]
    exact iff_of_true (Int.floor_le q) (.inl hq)
  · rw [if_neg hq]
    constructor
    · intro hle
      exact .inr ⟨⌈q⌉, le_antisymm (Int.le_ceil q) hle⟩
    · rintro (hpos | ⟨n, rfl⟩)
      · exact absurd hpos hq
      · rw [Int.ceil_intCast]

end Int

section Windows

variable {lo hi cur : ℤ}

-- The slices so far make up the range from the first one to the cursor.
def Covered (lo : ℤ) : List Slice × ℤ → Prop
  | (slices, cur) =>
      lo ≤ cur ∧ ∀ q : ℚ, slices.countP (in_slice · (some q)) = if (lo : ℚ) ≤ q ∧
        q < cur then 1 else 0

theorem in_slice_some {slice : Slice} {q : ℚ} : in_slice slice (some q) = true ↔
    (slice.lo : ℚ) ≤ q ∧ q < slice.hi := by
  simp [in_slice]

theorem windows_step (hbatch : 1 ≤ batch_size) {s : List Slice × ℤ} (hs : Covered lo s) :
    (∃ s', windows batch_size hi s = .inl s' ∧ Covered lo s' ∧
      (hi + 1 - s'.2).toNat < (hi + 1 - s.2).toNat) ∨
    ∃ slices, windows batch_size hi s = .inr slices ∧ ∃ stop, hi < stop ∧
      Covered lo (slices, stop) := by
  obtain ⟨slices, cur⟩ := s
  by_cases hcur : cur ≤ hi
  · refine .inl ⟨(slices ++ [⟨cur, cur + batch_size⟩], cur + batch_size),
      by simp [windows, hcur], ⟨?_, ?_⟩, ?_⟩
    · have hlo : lo ≤ cur := hs.1
      omega
    · intro q
      have hlo : (lo : ℚ) ≤ cur := by exact_mod_cast hs.1
      have hnext : (cur : ℚ) ≤ (cur + batch_size : ℤ) := by
        exact_mod_cast (by omega : cur ≤ cur + batch_size)
      rw [List.countP_append, hs.2 q, List.countP_singleton]
      by_cases hq : q < cur
      · have hout : ¬in_slice ⟨cur, cur + batch_size⟩ (some q) = true :=
          fun h => absurd (in_slice_some.mp h).1 (not_le.mpr hq)
        simp only [hout, hq, hq.trans_le hnext, and_true, Bool.false_eq_true,
          if_false, Nat.add_zero]
      · have hge : (cur : ℚ) ≤ q := not_lt.mp hq
        simp only [in_slice_some, hq, hge, hlo.trans hge, and_false, true_and,
          if_false, Nat.zero_add]
    · show (hi + 1 - (cur + batch_size)).toNat < (hi + 1 - cur).toNat
      omega
  · exact .inr ⟨slices, by simp [windows, hcur], cur, by omega, hs⟩

theorem windows_returns (hbatch : 1 ≤ batch_size) (lo hi : ℤ) :
    ∃ slices, Returns (windows batch_size hi) ([], lo) slices ∧ ∃ stop, hi < stop ∧
      Covered lo (slices, stop) := by
  refine returns_of_variant (I := Covered lo) (fun s => (hi + 1 - s.2).toNat)
    (fun s hs => windows_step hbatch hs)
    ⟨le_refl lo, fun q => ?_⟩
  have hnone : ¬((lo : ℚ) ≤ q ∧ q < lo) := fun h => absurd h.2 (not_lt.mpr h.1)
  rw [if_neg hnone, List.countP_nil]

-- With a step of zero or back the cursor never comes past the last id.
theorem windows_not_returns (hbatch : batch_size ≤ 0) (hle : lo ≤ hi) (slices : List Slice) :
    ¬Returns (windows batch_size hi) ([], lo) slices := by
  refine not_returns_of_invariant (I := fun s => s.2 ≤ hi) (fun s hs => ?_) hle
  refine ⟨(s.1 ++ [⟨s.2, s.2 + batch_size⟩], s.2 + batch_size), by simp [windows, hs], ?_⟩
  show s.2 + batch_size ≤ hi
  omega

end Windows

section Plan

variable {plan : List Slice} {records : List Row}

-- What the slices fetch is what the rows' ids say, up to the order of the rows.
theorem perm_of_delivers (h : Delivers (Fetches id rows) plan records) :
    records.Perm (plan.flatMap fun slice => rows.filter fun row => in_slice slice (id row)) := by
  obtain ⟨parts, hparts, rfl⟩ := h
  induction hparts with
  | nil => exact List.Perm.refl _
  | cons hfetch _ ih =>
      rw [List.flatten_cons, List.flatMap_cons]
      exact List.Perm.append hfetch ih

theorem delivers_slices (id : Row → Option ℚ) (rows : List Row) (plan : List Slice) :
    Delivers (Fetches id rows) plan
      (plan.flatMap fun slice => rows.filter fun row => in_slice slice (id row)) := by
  have h : Delivers (Fetches id rows) (plan.map fun slice => slice)
      (plan.flatMap fun slice => rows.filter fun row => in_slice slice (id row)) :=
    delivers_map fun slice _ => List.Perm.refl _
  rwa [List.map_id'] at h

theorem perm_iff_countP (plan : List Slice) :
    (∃ records, Delivers (Fetches id rows) plan records ∧ records.Perm rows) ↔
      ∀ row ∈ rows, plan.countP (in_slice · (id row)) = 1 := by
  rw [← perm_parts_iff (fun slice row => in_slice slice (id row))]
  constructor
  · rintro ⟨records, hread, hall⟩
    exact (perm_of_delivers hread).symm.trans hall
  · intro hall
    exact ⟨_, delivers_slices id rows plan, hall⟩

end Plan

section Split

variable {least greatest : ℚ}

theorem min_max_eq (hleast : (rows.filterMap id).min? = some least)
    (hgreatest : (rows.filterMap id).max? = some greatest) :
    min_max id rows = (some least, some greatest) := by
  rw [min_max, hleast, hgreatest]

-- Without an id there is no window.
theorem splits_of_null (hnull : rows.filterMap id = []) (plan : List Slice) :
    Splits id batch_size rows plan ↔ plan = [] := by
  rw [Splits, min_max, hnull]
  rfl

theorem splits_iff (hleast : (rows.filterMap id).min? = some least)
    (hgreatest : (rows.filterMap id).max? = some greatest) (plan : List Slice) :
    Splits id batch_size rows plan ↔ Returns (windows batch_size (int greatest))
      ([], int least) plan := by
  rw [Splits, min_max_eq hleast hgreatest]

theorem least_le (hleast : (rows.filterMap id).min? = some least) {row : Row}
    (hrow : row ∈ rows) {q : ℚ} (hq : id row = some q) : least ≤ q :=
  (List.min?_eq_some_iff.mp hleast).2 q (List.mem_filterMap.mpr ⟨row, hrow, hq⟩)

theorem le_greatest (hgreatest : (rows.filterMap id).max? = some greatest) {row : Row}
    (hrow : row ∈ rows) {q : ℚ} (hq : id row = some q) : q ≤ greatest :=
  (List.max?_eq_some_iff.mp hgreatest).2 q (List.mem_filterMap.mpr ⟨row, hrow, hq⟩)

theorem extremes_of_ne_nil (hids : rows.filterMap id ≠ []) :
    ∃ least greatest, (rows.filterMap id).min? = some least ∧
      (rows.filterMap id).max? = some greatest ∧
      least ≤ greatest := by
  obtain ⟨least, hleast⟩ := Option.isSome_iff_exists.mp (List.isSome_min?_iff.mpr hids)
  obtain ⟨greatest, hgreatest⟩ := Option.isSome_iff_exists.mp (List.isSome_max?_iff.mpr hids)
  exact ⟨least, greatest, hleast, hgreatest,
    (List.min?_eq_some_iff.mp hleast).2 greatest (List.max?_eq_some_iff.mp hgreatest).1⟩

-- The windows take in what has an id and is not below the first of them.
theorem one_window_iff (hleast : (rows.filterMap id).min? = some least)
    (hgreatest : (rows.filterMap id).max? = some greatest) {slices : List Slice} {stop : ℤ}
    (hstop : int greatest < stop) (hcovered : Covered (int least) (slices, stop)) :
    (∀ row ∈ rows, slices.countP (in_slice · (id row)) = 1) ↔ (∀ row ∈ rows, id row ≠ none) ∧
    (int least : ℚ) ≤ least := by
  constructor
  · intro hone
    constructor
    · intro row hrow hnull
      have h := hone row hrow
      rw [hnull, List.countP_eq_zero.mpr (by simp [in_slice])] at h
      exact absurd h (by decide)
    · obtain ⟨row, hrow, hid⟩ := List.mem_filterMap.mp (List.min?_eq_some_iff.mp hleast).1
      have h := hone row hrow
      rw [hid, hcovered.2] at h
      by_contra hbelow
      rw [if_neg fun hin => hbelow hin.1] at h
      exact absurd h (by decide)
  · rintro ⟨hids, hlo⟩ row hrow
    obtain ⟨q, hq⟩ := Option.ne_none_iff_exists'.mp (hids row hrow)
    have hnext : (int greatest : ℚ) + 1 ≤ stop := by exact_mod_cast hstop
    have hlast : q < stop := by
      calc q ≤ greatest := le_greatest hgreatest hrow hq
        _ < int greatest + 1 := lt_int_add_one greatest
        _ ≤ stop := hnext
    rw [hq, hcovered.2, if_pos ⟨hlo.trans (least_le hleast hrow hq), hlast⟩]

end Split

-- The plan ends and its windows hold each row once iff there is a step to take, every row
-- has an id and the least one is not a fraction below zero.
theorem id_ranges_iff :
    (∃ plan, Splits id batch_size rows plan ∧ ∃ records, Delivers (Fetches id rows) plan records ∧
      records.Perm rows) ↔
    rows = [] ∨ (1 ≤ batch_size ∧ (∀ row ∈ rows, id row ≠ none) ∧
      ∃ least, (rows.filterMap id).min? = some least ∧ (0 ≤ least ∨ ∃ n : ℤ, least = n)) := by
  simp only [perm_iff_countP]
  by_cases hids : rows.filterMap id = []
  · simp only [splits_of_null hids, exists_eq_left, hids]
    constructor
    · intro hone
      refine .inl (List.eq_nil_iff_forall_not_mem.mpr fun row hrow => ?_)
      exact absurd (hone row hrow) (by rw [List.countP_nil]; decide)
    · rintro (rfl | ⟨-, -, least, hleast, -⟩)
      · exact fun row hrow => absurd hrow List.not_mem_nil
      · cases hleast
  · have hrows : rows ≠ [] := fun h => hids (by rw [h]; rfl)
    obtain ⟨least, greatest, hleast, hgreatest, hle⟩ := extremes_of_ne_nil hids
    simp only [splits_iff hleast hgreatest, hleast, Option.some.injEq, exists_eq_left', hrows,
      false_or, ← int_le_iff]
    by_cases hbatch : 1 ≤ batch_size
    · obtain ⟨slices, hreturns, stop, hstop, hcovered⟩ :=
        windows_returns hbatch (int least) (int greatest)
      rw [← one_window_iff hleast hgreatest hstop hcovered]
      constructor
      · rintro ⟨plan, hplan, hone⟩
        rw [hplan.unique hreturns] at hone
        exact ⟨hbatch, hone⟩
      · rintro ⟨-, hone⟩
        exact ⟨slices, hreturns, hone⟩
    · refine iff_of_false ?_ fun h => hbatch h.1
      rintro ⟨plan, hplan, -⟩
      exact windows_not_returns (by omega) (int_mono hle) plan hplan

-- A row without an id is in no window.
theorem id_ranges_lose_null :
    ¬∃ plan, Splits (fun row : Option ℚ => row) 1000 [some 1, none] plan ∧
      ∃ records, Delivers (Fetches (fun row : Option ℚ => row) [some 1, none]) plan records ∧
        records.Perm [some 1, none] := by
  rintro ⟨plan, -, hall⟩
  have hone := perm_iff_countP plan |>.mp hall none (by simp)
  rw [List.countP_eq_zero.mpr (by simp [in_slice])] at hone
  exact absurd hone (by decide)

end Reflowfy.SqlSource
