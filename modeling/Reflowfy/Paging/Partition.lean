import Mathlib.Data.List.Basic
import Mathlib.Data.List.Pairwise

namespace Paging

section Parts

variable {α β : Type}

-- How often a record is in parts that filters cut out of one list.
theorem count_parts [DecidableEq β] (p : α → β → Bool) (parts : List α) (records : List β) (b : β) :
    (parts.flatMap fun part => records.filter (p part)).count b = parts.countP (p · b) *
    records.count b := by
  induction parts with
  | nil => simp
  | cons part parts ih =>
      rw [List.flatMap_cons, List.count_append, ih, List.countP_cons, Nat.add_mul, Nat.add_comm]
      congr 1
      by_cases hp : p part b
      · rw [List.count_filter hp, if_pos hp, Nat.one_mul]
      · have hout : b ∉ records.filter (p part) := fun hb => hp (List.of_mem_filter hb)
        rw [List.count_eq_zero.mpr hout, if_neg hp, Nat.zero_mul]

-- The parts make up the list iff each record is in exactly one of them.
theorem perm_parts_iff (p : α → β → Bool) (parts : List α) (records : List β) :
    (parts.flatMap fun part => records.filter (p part)).Perm records ↔
    ∀ b ∈ records, parts.countP (p · b) = 1 := by
  classical
  rw [List.perm_iff_count]
  constructor
  · intro hcount b hb
    have hpos := List.count_pos_iff.mpr hb
    have h := hcount b
    rw [count_parts] at h
    exact Nat.eq_of_mul_eq_mul_right hpos (h.trans (Nat.one_mul _).symm)
  · intro hone b
    rw [count_parts]
    by_cases hb : b ∈ records
    · rw [hone b hb, Nat.one_mul]
    · rw [List.count_eq_zero.mpr hb, Nat.mul_zero]

end Parts

section Ranges

variable {α : Type}

-- The ranges between one edge and the next; `none` leaves a side open.
def ranges (edges : List (Option α)) : List (Option α × Option α) := edges.dropLast.zip edges.tail

@[simp] theorem ranges_singleton (a : Option α) : ranges [a] = [] := rfl

@[simp] theorem ranges_cons_cons (a b : Option α) (edges : List (Option α)) :
    ranges (a :: b :: edges) = (a, b) :: ranges (b :: edges) := by
  cases edges <;> rfl

-- Behind the lower edge and not behind the upper one.
def InRange (behind : α → α → Bool) (value : α) : Option α × Option α → Bool
  | (lower, upper) => lower.all (behind · value) && upper.all (!behind · value)

-- Along edges that come one after the other a value is in exactly one range.
theorem countP_ranges {behind : α → α → Bool} {value : α} {edges : List α} {lower : Option α}
    (hedges : edges.Pairwise fun a b => behind b value → behind a value)
    (hlower : ∀ a, lower = some a → ∀ b ∈ edges, behind b value → behind a value) :
    (ranges (lower :: (edges.map some ++ [none]))).countP (InRange behind value) =
      if lower.all (behind · value) then 1 else 0 := by
  induction edges generalizing lower with
  | nil => simp [InRange]
  | cons b edges ih =>
      rw [List.pairwise_cons] at hedges
      have hrest : (ranges (some b :: (edges.map some ++ [none]))).countP
          (InRange behind value) = _ :=
        ih hedges.2 fun a ha => Option.some.inj ha ▸ hedges.1
      rw [List.map_cons, List.cons_append, ranges_cons_cons, List.countP_cons, hrest]
      by_cases hb : behind b value
      · have hl : lower.all (behind · value) := by
          rw [Option.all_eq_true]
          exact fun a ha => hlower a ha b List.mem_cons_self hb
        simp [InRange, hb, hl]
      · simp [InRange, hb]

end Ranges

end Paging
