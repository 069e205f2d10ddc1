import Mathlib.Data.List.Basic
import Mathlib.Data.List.Nodup
import Mathlib.Data.Nat.Notation

namespace Interleaving

variable {K S O : Type}

-- Which transaction has each row locked.
abbrev Locks (K : Type) := K → Option ℕ

namespace Locks

variable {locks : Locks K} {i j : ℕ} {ks : List K} {k : K}

-- A transaction that ends gives up all its locks.
def release (locks : Locks K) (i : ℕ) : Locks K :=
  fun k => if locks k = some i then none else locks k

theorem release_eq_some_iff : locks.release i k = some j ↔ locks k = some j ∧ j ≠ i := by
  unfold release
  split
  · rename_i hk
    simp [hk, eq_comm]
  · rename_i hk
    exact ⟨fun h => ⟨h, fun hji => hk (hji ▸ h)⟩, And.left⟩

theorem release_eq_none_iff : locks.release i k = none ↔ locks k = none ∨ locks k = some i := by
  unfold release
  split <;> simp_all

variable [DecidableEq K]

def take (locks : Locks K) (i : ℕ) (ks : List K) : Locks K :=
  fun k => if k ∈ ks then some i else locks k

theorem take_eq_self_iff : locks.take i ks k = some i ↔ k ∈ ks ∨ locks k = some i := by
  unfold take
  split <;> simp_all

theorem take_eq_some_iff (hfree : ∀ k ∈ ks, locks k = none) (hne : j ≠ i) :
    locks.take i ks k = some j ↔ locks k = some j := by
  unfold take
  split
  · rename_i hk
    simp [hfree k hk, hne.symm]
  · rfl

theorem take_eq_none_iff : locks.take i ks k = none ↔ k ∉ ks ∧ locks k = none := by
  unfold take
  split <;> simp_all

end Locks

section Lookup

variable {V : Type} [DecidableEq K] {writes : List (K × V)} {k : K} {v : V}

-- What a transaction has pending for a row.
theorem lookup_eq_none_of_notMem (h : k ∉ writes.map Prod.fst) : writes.lookup k = none := by
  refine List.lookup_eq_none_iff.mpr fun p hp => ?_
  by_contra hk
  exact h (List.mem_map.mpr ⟨p, hp, by simp only [bne_iff_ne, ne_eq, not_not] at hk; exact hk.symm⟩)

theorem mem_of_lookup_eq_some (h : writes.lookup k = some v) : (k, v) ∈ writes := by
  obtain ⟨front, back, rfl, -⟩ := List.lookup_eq_some_iff.mp h
  simp

theorem exists_lookup_eq_some (h : k ∈ writes.map Prod.fst) : ∃ v, writes.lookup k = some v ∧
    (k, v) ∈ writes := by
  obtain ⟨p, hp, rfl⟩ := List.mem_map.mp h
  obtain ⟨v, hv⟩ := Option.isSome_iff_exists.mp
    (List.lookup_isSome_iff.mpr ⟨p, hp, beq_self_eq_true _⟩)
  exact ⟨v, hv, mem_of_lookup_eq_some hv⟩

theorem lookup_eq_some_of_mem (hnodup : (writes.map Prod.fst).Nodup) (h : (k, v) ∈ writes) :
    writes.lookup k = some v := by
  have hk : k ∈ writes.map Prod.fst := List.mem_map.mpr ⟨_, h, rfl⟩
  obtain ⟨w, hw, hmem⟩ := exists_lookup_eq_some hk
  rw [hw]
  exact congrArg some (congrArg Prod.snd (List.inj_on_of_nodup_map hnodup hmem h rfl))

end Lookup

-- What transaction `i` has locked in `s` it still has locked in `s'`, and nothing more; and
-- what `obs` shows of those rows is the same.
structure Guarded (locks : S → Locks K) (obs : S → K → O) (i : ℕ) (s s' : S) : Prop where
  held : ∀ k, locks s' k = some i ↔ locks s k = some i
  kept : ∀ k, locks s k = some i → obs s' k = obs s k

section Guarded

variable {locks : S → Locks K} {obs : S → K → O} {i j : ℕ} {s s' : S}

-- Another transaction writes rows that it has locked.
theorem Guarded.of_write (hij : i ≠ j) (hlocks : locks s' = locks s)
    (hobs : ∀ k, locks s k ≠ some j → obs s' k = obs s k) : Guarded locks obs i s s' where
  held k := by rw [hlocks]
  kept k hk := hobs k (by simp [hk, hij])

-- Another transaction ends.
theorem Guarded.of_release (hij : i ≠ j) (hlocks : locks s' = (locks s).release j)
    (hobs : ∀ k, locks s k ≠ some j → obs s' k = obs s k) : Guarded locks obs i s s' where
  held k := by rw [hlocks, Locks.release_eq_some_iff]; simp [hij]
  kept k hk := hobs k (by simp [hk, hij])

variable [DecidableEq K]

-- Another transaction locks rows that are free.
theorem Guarded.of_take (hij : i ≠ j) {ks : List K} (hfree : ∀ k ∈ ks, locks s k = none)
    (hlocks : locks s' = (locks s).take j ks) (hobs : obs s' = obs s) :
      Guarded locks obs i s s' where
  held k := by rw [hlocks, Locks.take_eq_some_iff hfree hij]
  kept k _ := by rw [hobs]

end Guarded

end Interleaving
