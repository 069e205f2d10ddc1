import Mathlib.Logic.Relation
import Mathlib.Data.List.Nodup
import Mathlib.Data.Nat.Find

namespace Interleaving

variable {α : Type} {r : α → α → Prop}

-- `x` stands before `y` in the list.
def Before (l : List α) (x y : α) : Prop := [x, y].Sublist l

section Before

variable {l l₁ l₂ : List α} {x y z : α}

theorem Before.mem_left (h : Before l x y) : x ∈ l := h.subset List.mem_cons_self

theorem Before.mem_right (h : Before l x y) : y ∈ l := h.subset (by simp)

theorem before_of_mem_left (h : x ∈ l₁) : Before (l₁ ++ y :: l₂) x y :=
  (List.singleton_sublist.mpr h).append (List.cons_sublist_cons.mpr (List.nil_sublist l₂))

theorem before_of_mem_right (h : y ∈ l₂) : Before (l₁ ++ x :: l₂) x y :=
  (List.cons_sublist_cons.mpr (List.singleton_sublist.mpr h)).trans (List.sublist_append_right ..)

theorem Before.split (h : Before l x y) : ∃ l₁ l₂ l₃, l = l₁ ++ x :: (l₂ ++ y :: l₃) := by
  obtain ⟨front, back, rfl, hx, hy⟩ := List.cons_sublist_iff.mp h
  obtain ⟨l₁, l₂, rfl⟩ := List.append_of_mem hx
  obtain ⟨l₃, l₄, rfl⟩ := List.append_of_mem (List.singleton_sublist.mp hy)
  exact ⟨l₁, l₂ ++ l₃, l₄, by simp⟩

theorem Before.ne (hl : l.Nodup) (h : Before l x y) : x ≠ y := by
  have hpair := h.nodup hl
  simpa using hpair

-- Of two things in a list one comes first.
theorem before_or (hx : x ∈ l) (hy : y ∈ l) (hne : x ≠ y) : Before l x y ∨ Before l y x := by
  obtain ⟨l₁, l₂, rfl⟩ := List.append_of_mem hx
  rcases List.mem_append.mp hy with hy | hy
  · exact .inr (before_of_mem_left hy)
  · rcases List.mem_cons.mp hy with rfl | hy
    · exact absurd rfl hne
    · exact .inl (before_of_mem_right hy)

theorem Before.idxOf_lt [DecidableEq α] (hl : l.Nodup) (h : Before l x y) :
    l.idxOf x < l.idxOf y := by
  obtain ⟨l₁, l₂, l₃, rfl⟩ := h.split
  have hx : x ∉ l₁ := fun hx => (List.nodup_append.mp hl).2.2 x hx x List.mem_cons_self rfl
  have hy : y ∉ l₁ := fun hy => (List.nodup_append.mp hl).2.2 y hy y (by simp) rfl
  rw [List.idxOf_append_of_notMem hx, List.idxOf_append_of_notMem hy, List.idxOf_cons_self,
    List.idxOf_cons_ne _ (h.ne hl)]
  omega

theorem Before.trans (hl : l.Nodup) (hxy : Before l x y) (hyz : Before l y z) : Before l x z := by
  classical
  have hlt := Nat.lt_trans (hxy.idxOf_lt hl) (hyz.idxOf_lt hl)
  have hne : x ≠ z := fun h => Nat.lt_irrefl _ (h ▸ hlt)
  rcases before_or hxy.mem_left hyz.mem_right hne with hxz | hzx
  · exact hxz
  · exact absurd (hzx.idxOf_lt hl) (Nat.lt_asymm hlt)

end Before

-- `c 0, …, c n` is a walk along `r` that ends where it began.
structure IsCycle (r : α → α → Prop) (n : ℕ) (c : ℕ → α) : Prop where
  pos : 0 < n
  edge : ∀ k, k < n → r (c k) (c (k + 1))
  closed : c n = c 0

theorem exists_walk {a b : α} (h : Relation.TransGen r a b) :
    ∃ (n : ℕ) (c : ℕ → α), 0 < n ∧ (∀ k, k < n → r (c k) (c (k + 1))) ∧ c 0 = a ∧ c n = b := by
  induction h with
  | @single b hab =>
      refine ⟨1, fun k => if k = 0 then a else b, Nat.one_pos, fun k hk => ?_, rfl, rfl⟩
      obtain rfl : k = 0 := by omega
      exact hab
  | @tail b d _ hbd ih =>
      obtain ⟨n, c, hn, hedge, h0, hlast⟩ := ih
      have hold : ∀ k, k ≤ n → (if k ≤ n then c k else d) = c k := fun k hk => if_pos hk
      have hnew : (if n + 1 ≤ n then c (n + 1) else d) = d := if_neg (by omega)
      refine ⟨n + 1, fun k => if k ≤ n then c k else d, by omega, fun k hk => ?_, ?_, hnew⟩
      · show r (if k ≤ n then c k else d) (if k + 1 ≤ n then c (k + 1) else d)
        by_cases hkn : k < n
        · rw [hold k (by omega), hold (k + 1) hkn]
          exact hedge k hkn
        · obtain rfl : k = n := by omega
          rw [hold k (by omega), hnew, hlast]
          exact hbd
      · show (if 0 ≤ n then c 0 else d) = a
        rw [hold 0 (by omega), h0]

theorem exists_cycle {a : α} (h : Relation.TransGen r a a) : ∃ n c, IsCycle r n c := by
  obtain ⟨n, c, hn, hedge, h0, hlast⟩ := exists_walk h
  exact ⟨n, c, hn, hedge, hlast.trans h0.symm⟩

-- The way from one point of a walk to a later one.
theorem transGen_of_edges {n : ℕ} {c : ℕ → α} (hedge : ∀ k, k < n → r (c k) (c (k + 1)))
    {i j : ℕ} (hij : i < j) (hj : j ≤ n) : Relation.TransGen r (c i) (c j) := by
  induction j, hij using Nat.le_induction with
  | base => exact .single (hedge i (by omega))
  | succ j hij ih => exact (ih (by omega)).tail (hedge j (by omega))

theorem IsCycle.transGen {n : ℕ} {c : ℕ → α} (h : IsCycle r n c) :
    Relation.TransGen r (c 0) (c 0) := by
  have hway := transGen_of_edges h.edge h.pos (Nat.le_refl n)
  rwa [h.closed] at hway

-- An edge that skips a part of the cycle cuts it short.
theorem IsCycle.shortcut {n : ℕ} {c : ℕ → α} (h : IsCycle r n c) {i j : ℕ} (hi : i < n) (hj : j < n)
    (hr : r (c i) (c j)) (hnext : j ≠ i + 1) (hlast : ¬(i + 1 = n ∧ j = 0)) :
    ∃ m < n, ∃ c', IsCycle r m c' := by
  by_cases hij : i < j
  · -- leave out what stands between `i` and `j`
    have hgap : ∀ k, k ≤ i → (if k ≤ i then c k else c (k + (j - i - 1))) = c k :=
      fun k hk => if_pos hk
    have hrest : ∀ k, i < k → (if k ≤ i then c k else c (k + (j - i - 1))) = c (k + (j - i - 1)) :=
      fun k hk => if_neg (Nat.not_le.mpr hk)
    refine ⟨n - (j - i - 1),
      by omega, fun k => if k ≤ i then c k else c (k + (j - i - 1)), by omega,
      fun k hk => ?_, ?_⟩
    · rcases Nat.lt_trichotomy k i with hlt | rfl | hgt
      · rw [hgap k (by omega), hgap (k + 1) (by omega)]
        exact h.edge k (by omega)
      · rw [hgap k (by omega), hrest (k + 1) (by omega), show k + 1 + (j - k - 1) = j by omega]
        exact hr
      · rw [hrest k hgt, hrest (k + 1) (by omega),
          show k + 1 + (j - i - 1) = k + (j - i - 1) + 1 by omega]
        exact h.edge _ (by omega)
    · rw [hrest _ (by omega), hgap 0 (by omega), show n - (j - i - 1) + (j - i - 1) = n by omega]
      exact h.closed
  · -- go round from `j` to `i` and back
    have hin : ∀ k, k ≤ i - j → (if k ≤ i - j then c (j + k) else c j) = c (j + k) :=
      fun k hk => if_pos hk
    have hend : (if i - j + 1 ≤ i - j then c (j + (i - j + 1)) else c j) = c j := if_neg (by omega)
    refine ⟨i - j + 1, by
      omega, fun k => if k ≤ i - j then c (j + k) else c j, by omega, fun k hk => ?_, ?_⟩
    · by_cases hlt : k < i - j
      · rw [hin k (by omega), hin (k + 1) hlt]
        exact h.edge (j + k) (by omega)
      · obtain rfl : k = i - j := by omega
        rw [hin _ (by omega), hend, show j + (i - j) = i by omega]
        exact hr
    · rw [hend, hin 0 (by omega), Nat.add_zero]

-- Where there is a cycle there is one without shortcuts.
theorem exists_chordless {a : α} (h : Relation.TransGen r a a) :
    ∃ n c, IsCycle r n c ∧ ∀ i j, i < n → j < n → r (c i) (c j) → j = i + 1 ∨
      (i + 1 = n ∧ j = 0) := by
  classical
  have hex := exists_cycle h
  obtain ⟨c, hc⟩ := Nat.find_spec hex
  refine ⟨Nat.find hex, c, hc, fun i j hi hj hr => ?_⟩
  by_contra hchord
  obtain ⟨hnext, hlast⟩ := not_or.mp hchord
  obtain ⟨m, hm, c', hc'⟩ := hc.shortcut hi hj hr hnext hlast
  exact Nat.find_min hex hm ⟨c', hc'⟩

-- On a cycle without shortcuts no point is passed twice.
theorem IsCycle.ne_of_lt {n : ℕ} {c : ℕ → α} (h : IsCycle r n c)
    (hchord : ∀ i j, i < n → j < n → r (c i) (c j) → j = i + 1 ∨ (i + 1 = n ∧ j = 0))
    {i j : ℕ} (hij : i < j) (hj : j < n) : c i ≠ c j := by
  intro heq
  have hedge := h.edge j hj
  rw [← heq] at hedge
  by_cases hlast : j + 1 = n
  · rw [hlast, h.closed] at hedge
    rcases hchord i 0 (by omega) h.pos hedge with h0 | ⟨hin, -⟩ <;> omega
  · rcases hchord i (j + 1) (by omega) (by omega) hedge with hnext | ⟨-, h0⟩ <;> omega

theorem IsCycle.injective {n : ℕ} {c : ℕ → α} (h : IsCycle r n c)
    (hchord : ∀ i j, i < n → j < n → r (c i) (c j) → j = i + 1 ∨ (i + 1 = n ∧ j = 0))
    {i j : ℕ} (hi : i < n) (hj : j < n) (heq : c i = c j) : i = j := by
  rcases Nat.lt_trichotomy i j with hij | hij | hji
  · exact absurd heq (h.ne_of_lt hchord hij hj)
  · exact hij
  · exact absurd heq.symm (h.ne_of_lt hchord hji hi)

-- Wherever the one a task waits for waits in its turn, the wait goes with a step along
-- `r`. So a circle of waits is one of `r`.
theorem transGen_of_waits {waits : ℕ → ℕ → Prop} {f : ℕ → α}
    (hstep : ∀ i j k, waits i j → waits j k → r (f i) (f j)) {i j k : ℕ}
    (h : Relation.TransGen waits i j) (hj : waits j k) : Relation.TransGen r (f i) (f j) := by
  induction h generalizing k with
  | single hij => exact .single (hstep _ _ _ hij hj)
  | tail _ hbc ih => exact (ih hbc).tail (hstep _ _ _ hbc hj)

end Interleaving
