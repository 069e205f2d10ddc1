import Mathlib.Data.List.Basic
import Mathlib.Data.List.Pairwise
import Mathlib.Order.Lattice
import Mathlib.Order.Nat

namespace Paging

section Slices

variable {α : Type}

-- `[items[i : i + size] for i in range(0, len(items), size)]`.
def slices (size : ℕ) (items : List α) : List (List α) :=
  (List.range ((items.length + size - 1) / size)).map fun i => (items.drop (i * size)).take size

-- Consecutive slices of one size make up the front of the list.
theorem flatten_slices (size n : ℕ) (items : List α) :
    ((List.range n).map fun i => (items.drop (i * size)).take size).flatten =
    items.take (n * size) := by
  induction n with
  | zero => simp
  | succ n ih => simp [List.range_succ, ih, Nat.succ_mul, List.take_add]

theorem slices_flatten {size : ℕ} (hsize : 0 < size) (items : List α) :
    (slices size items).flatten = items := by
  rw [slices, flatten_slices]
  refine List.take_of_length_le ?_
  have hdiv := Nat.div_add_mod' (items.length + size - 1) size
  have hmod := Nat.mod_lt (items.length + size - 1) hsize
  omega

theorem mem_slices_ne_nil {size : ℕ} (hsize : 0 < size) {items : List α} :
    ∀ part ∈ slices size items, part ≠ [] := by
  intro part hpart
  obtain ⟨i, hi, rfl⟩ := List.mem_map.mp hpart
  have hle : (i + 1) * size ≤ items.length + size - 1 :=
    (Nat.le_div_iff_mul_le hsize).mp (List.mem_range.mp hi)
  rw [Nat.succ_mul] at hle
  rw [ne_eq, List.take_eq_nil_iff, List.drop_eq_nil_iff]
  omega

theorem length_slices (size : ℕ) (items : List α) :
    (slices size items).length = (items.length + size - 1) / size := by
  rw [slices, List.length_map, List.length_range]

-- As many slices as there are items.
theorem length_slices_eq_iff {size : ℕ} (hsize : 0 < size) {items : List α} :
    (slices size items).length = items.length ↔ size = 1 ∨ items.length ≤ 1 := by
  rw [length_slices, Nat.div_eq_iff hsize]
  constructor
  · rintro ⟨hlow, -⟩
    by_contra hne
    obtain ⟨n, hn⟩ := Nat.exists_eq_add_of_le (show 2 ≤ items.length by omega)
    obtain ⟨m, rfl⟩ := Nat.exists_eq_add_of_le (show 2 ≤ size by omega)
    rw [hn, Nat.add_mul, Nat.mul_add n] at hlow
    omega
  · rintro (rfl | hle)
    · omega
    · rcases Nat.le_one_iff_eq_zero_or_eq_one.mp hle with h | h <;> rw [h] <;> omega

theorem slices_eq_map {size : ℕ} (hsize : 0 < size) {items : List α}
    (h : size = 1 ∨ items.length ≤ 1) :
    slices size items = items.map ([·]) := by
  refine List.ext_getElem (by rw [(length_slices_eq_iff hsize).mpr h, List.length_map])
    fun i hi hi' => ?_
  rw [List.length_map] at hi'
  simp only [slices, List.getElem_map, List.getElem_range]
  rcases h with rfl | hle
  · rw [Nat.mul_one, List.drop_eq_getElem_cons hi']
    rfl
  · obtain rfl : i = 0 := by omega
    rw [Nat.zero_mul, List.drop_zero, List.take_of_length_le (by omega)]
    obtain ⟨item, rfl⟩ := List.length_eq_one_iff.mp (show items.length = 1 by omega)
    rfl

theorem take_eq_self_iff {n : ℕ} {items : List α} : items.take n = items ↔ items.length ≤ n := by
  constructor
  · intro h
    have hlen := congrArg List.length h
    rw [List.length_take] at hlen
    omega
  · exact List.take_of_length_le

end Slices

variable {α κ : Type}

-- What a service lists, in the strict order of the sort values. A page of it follows a cursor.
structure Listing (α κ : Type) [LinearOrder κ] where
  hits : List α
  sort : α → κ
  sorted : hits.Pairwise fun a b => sort a < sort b

namespace Listing

variable [LinearOrder κ]

def after (listing : Listing α κ) : Option κ → List α
  | none => listing.hits
  | some cursor => listing.hits.filter (cursor < listing.sort ·)

def search (listing : Listing α κ) (search_after : Option κ) (size : ℕ) : List α :=
  (listing.after search_after).take size

-- The cursor behind the first `seen` hits.
def cursor (listing : Listing α κ) (seen : ℕ) : Option κ :=
  (listing.hits.take seen).getLast?.map listing.sort

variable (listing : Listing α κ)

@[simp] theorem cursor_zero : listing.cursor 0 = none := rfl

-- What follows a hit in the listing is what is sorted behind it.
theorem filter_behind {front back : List α} {h : α} (heq : listing.hits = front ++ h :: back) :
    listing.hits.filter (listing.sort h < listing.sort ·) = back := by
  have hsorted := listing.sorted
  rw [heq, List.pairwise_append, List.pairwise_cons] at hsorted
  obtain ⟨-, ⟨hback, -⟩, hfront⟩ := hsorted
  have hout : ∀ a ∈ front, ¬listing.sort h < listing.sort a := fun a ha =>
    lt_asymm (hfront a ha h List.mem_cons_self)
  rw [heq, List.filter_append, List.filter_cons_of_neg (by simp),
    List.filter_eq_nil_iff.mpr (by simpa using hout),
    List.nil_append]
  exact List.filter_eq_self.mpr (by simpa using hback)

theorem after_cursor (seen : ℕ) : listing.after (listing.cursor seen) = listing.hits.drop seen := by
  have hsplit := List.take_append_drop seen listing.hits
  rcases List.eq_nil_or_concat (listing.hits.take seen) with hnil | ⟨front, h, hfront⟩
  · rw [cursor, hnil]
    rw [hnil] at hsplit
    exact hsplit.symm
  · rw [List.concat_eq_append] at hfront
    have heq : listing.hits = front ++ h :: listing.hits.drop seen := by
      rw [hfront, List.append_assoc] at hsplit
      exact hsplit.symm
    rw [cursor, hfront, List.getLast?_concat]
    exact listing.filter_behind heq

theorem search_cursor (seen size : ℕ) :
    listing.search (listing.cursor seen) size = (listing.hits.drop seen).take size := by
  rw [search, after_cursor]

theorem length_search (seen size : ℕ) :
    (listing.search (listing.cursor seen) size).length = min size (listing.hits.length - seen) := by
  rw [search_cursor, List.length_take, List.length_drop]

theorem search_eq_nil_iff {seen size : ℕ} (hsize : 1 ≤ size) :
    listing.search (listing.cursor seen) size = [] ↔ listing.hits.length ≤ seen := by
  rw [← List.length_eq_zero_iff, length_search]
  omega

-- What is behind a cursor begins with the page.
theorem take_length_search (seen size : ℕ) :
    (listing.hits.drop seen).take (listing.search (listing.cursor seen) size).length =
      listing.search (listing.cursor seen) size := by
  rw [search_cursor, List.length_take, ← List.take_eq_take_min]

-- The last hit of a page is the cursor to the next one.
theorem cursor_search {seen size : ℕ} (hpage : listing.search (listing.cursor seen) size ≠ []) :
    (listing.search (listing.cursor seen) size).getLast?.map listing.sort =
      listing.cursor (seen + (listing.search (listing.cursor seen) size).length) := by
  have hmore : listing.hits.take (seen + (listing.search (listing.cursor seen) size).length) =
      listing.hits.take seen ++ listing.search (listing.cursor seen) size := by
    rw [List.take_add, take_length_search]
  show _ = (listing.hits.take
    (seen + (listing.search (listing.cursor seen) size).length)).getLast?.map listing.sort
  rw [hmore, List.getLast?_append_of_ne_nil _ hpage]

theorem cursor_succ {seen : ℕ} (h : seen < listing.hits.length) :
    listing.cursor (seen + 1) = some (listing.sort listing.hits[seen]) := by
  rw [cursor, List.take_succ_eq_append_getElem h, List.getLast?_concat]
  rfl

theorem filter_eq_drop {hits : List α} {sort : α → κ}
    (hsorted : hits.Pairwise fun a b => sort a < sort b) (cursor : κ) :
    ∃ seen, hits.filter (cursor < sort ·) = hits.drop seen := by
  induction hits with
  | nil => exact ⟨0, rfl⟩
  | cons h hits ih =>
      rw [List.pairwise_cons] at hsorted
      by_cases hbehind : cursor < sort h
      · refine ⟨0, List.filter_eq_self.mpr fun a ha => decide_eq_true ?_⟩
        rcases List.mem_cons.mp ha with rfl | ha
        · exact hbehind
        · exact hbehind.trans (hsorted.1 a ha)
      · obtain ⟨seen, hseen⟩ := ih hsorted.2
        refine ⟨seen + 1, ?_⟩
        rw [List.filter_cons_of_neg (by simpa using hbehind), hseen, List.drop_succ_cons]

-- Behind any key, which may be in the listing or not.
theorem after_eq_drop (key : Option κ) : ∃ seen, listing.after key = listing.hits.drop seen := by
  cases key with
  | none => exact ⟨0, rfl⟩
  | some cursor => exact filter_eq_drop listing.sorted cursor

-- Behind a page is what the page was cut from, without the page.
theorem after_search {key : Option κ} {size : ℕ} (hpage : listing.search key size ≠ []) :
    listing.after ((listing.search key size).getLast?.map listing.sort) =
      (listing.after key).drop size := by
  obtain ⟨seen, hseen⟩ := listing.after_eq_drop key
  have hsame : listing.search key size = listing.search (listing.cursor seen) size := by
    rw [search, hseen, search_cursor]
  rw [hsame] at hpage ⊢
  rw [listing.cursor_search hpage, after_cursor, hseen, List.drop_drop, length_search]
  rcases Nat.le_total size (listing.hits.length - seen) with hfull | hlast
  · rw [Nat.min_eq_left hfull]
  · rw [Nat.min_eq_right hlast, List.drop_of_length_le (by omega),
      List.drop_of_length_le (by omega)]

-- A part of the listing, cut out by a filter.
def restrict (p : α → Bool) : Listing α κ where
  hits := listing.hits.filter p
  sort := listing.sort
  sorted := listing.sorted.filter p

-- The first numbers, in their order.
def range (n : ℕ) : Listing ℕ ℕ where
  hits := List.range n
  sort := id
  sorted := List.pairwise_lt_range

end Listing

end Paging
