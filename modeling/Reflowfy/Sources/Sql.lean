import Reflowfy.Paging.Loop
import Mathlib.Data.Rat.Floor

namespace Reflowfy

open Paging

namespace SqlSource

variable {Row : Type}

-- `int` of a number: what is behind the point is cut off.
def int (q : ℚ) : ℤ := if 0 ≤ q then ⌊q⌋ else ⌈q⌉

-- `config["slice"]`.
structure Slice where
  lo : ℤ
  hi : ℤ
  deriving DecidableEq, Repr

-- `WHERE id >= lo AND id < hi`: NULL is neither.
def in_slice (slice : Slice) (value : Option ℚ) : Bool :=
  value.any fun q => (slice.lo : ℚ) ≤ q ∧ q < slice.hi

-- `SELECT MIN(id), MAX(id)`: NULL where no row has an id.
def min_max (id : Row → Option ℚ) (rows : List Row) : Option ℚ × Option ℚ :=
  ((rows.filterMap id).min?, (rows.filterMap id).max?)

-- The loop of `split`: (the slices yielded so far, cur).
def windows (batch_size hi : ℤ) : List Slice × ℤ → (List Slice × ℤ) ⊕ List Slice
  | (slices, cur) =>
      if cur ≤ hi then
        let nxt := cur + batch_size
        .inl (slices ++ [⟨cur, nxt⟩], nxt)
      else .inr slices

-- What `split` yields by the id column of a base query that returns these rows,
def Splits (id : Row → Option ℚ) (batch_size : ℤ) (rows : List Row) (plan : List Slice) : Prop :=
  match min_max id rows with
  | (some lo, some hi) => Returns (windows batch_size (int hi)) ([], int lo) plan
  | _ => plan = []

-- and what `fetch` returns for a slice: the rows in it, in any order.
def Fetches (id : Row → Option ℚ) (rows : List Row) (slice : Slice) (records : List Row) : Prop :=
  records.Perm (rows.filter fun row => in_slice slice (id row))

end SqlSource

end Reflowfy
