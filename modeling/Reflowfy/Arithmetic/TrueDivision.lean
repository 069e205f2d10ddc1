import Mathlib.Algebra.Group.Nat.Defs
import Mathlib.Data.Nat.Notation

namespace Arithmetic

-- `n / d` as an integer, halves to the even one.
def roundHalfEven (n d : ℕ) : ℕ :=
  if 2 * (n % d) < d ∨ (2 * (n % d) = d ∧ n / d % 2 = 0) then n / d else n / d + 1

-- `ceil(a / b)` of a quotient that is first rounded to a binary float of 53 digits. The
-- quotient lies in [2 ^ k, 2 ^ (k + 1)).
def ceilTrueDiv (a b : ℕ) : ℕ :=
  if a < b then (if a = 0 then 0 else 1)
  else
    let k := Nat.log2 (a / b)
    if k ≤ 52 then (roundHalfEven (a * 2 ^ (52 - k)) b + 2 ^ (52 - k) - 1) / 2 ^ (52 - k)
    else roundHalfEven a (b * 2 ^ (k - 52)) * 2 ^ (k - 52)

@[simp] theorem ceilTrueDiv_zero (b : ℕ) : ceilTrueDiv 0 b = 0 := by
  have hround : roundHalfEven 0 b = 0 := by
    unfold roundHalfEven
    rw [if_pos (by simp; omega), Nat.zero_div]
  unfold ceilTrueDiv
  split
  · rfl
  · simp [hround]

theorem roundHalfEven_le {n d m : ℕ} (hd : 0 < d) (h : n ≤ m * d) : roundHalfEven n d ≤ m := by
  have hdiv := Nat.div_add_mod' n d
  have hle : n / d ≤ m := Nat.div_le_of_le_mul (by rwa [Nat.mul_comm])
  unfold roundHalfEven
  split
  · exact hle
  · rename_i hup
    -- rounding up needs a remainder, so `m` has not been reached
    rcases Nat.lt_or_ge (n / d) m with hlt | hge
    · exact hlt
    · have heq : n / d * d = m * d := by rw [Nat.le_antisymm hle hge]
      exact absurd (.inl (by omega)) hup

theorem lt_roundHalfEven {n d m r : ℕ} (hpos : 0 < d) (hd : d < 2 * r) (h : m * d + r ≤ n) :
    m < roundHalfEven n d := by
  have hdiv := Nat.div_add_mod' n d
  have hle : m ≤ n / d := (Nat.le_div_iff_mul_le hpos).mpr (by omega)
  rcases Nat.lt_or_ge m (n / d) with hlt | hge
  · unfold roundHalfEven
    split <;> omega
  · have heq : n / d * d = m * d := by rw [Nat.le_antisymm hge hle]
    unfold roundHalfEven
    rw [if_neg (by omega)]
    omega

theorem div_le_roundHalfEven (n d : ℕ) : n / d ≤ roundHalfEven n d := by
  unfold roundHalfEven
  split <;> omega

theorem ceilTrueDiv_pos {a b : ℕ} (ha : 0 < a) (hb : 0 < b) : 0 < ceilTrueDiv a b := by
  unfold ceilTrueDiv
  by_cases hlt : a < b
  · simp [hlt, Nat.ne_of_gt ha]
  · have hq : a / b ≠ 0 := Nat.ne_of_gt (Nat.div_pos (Nat.not_lt.mp hlt) hb)
    have hlog : 2 ^ Nat.log2 (a / b) ≤ a / b := (Nat.le_log2 hq).mp (Nat.le_refl _)
    rw [if_neg hlt]
    simp only
    split
    · have hround := div_le_roundHalfEven (a * 2 ^ (52 - Nat.log2 (a / b))) b
      have hscaled : 2 ^ (52 - Nat.log2 (a / b)) ≤ a * 2 ^ (52 - Nat.log2 (a / b)) / b := by
        rw [Nat.le_div_iff_mul_le hb, Nat.mul_comm]
        exact Nat.mul_le_mul_right _ (Nat.not_lt.mp hlt)
      exact Nat.div_pos (by have := Nat.two_pow_pos (52 - Nat.log2 (a / b)); omega)
        (Nat.two_pow_pos _)
    · refine Nat.mul_pos ?_ (Nat.two_pow_pos _)
      refine Nat.lt_of_lt_of_le (Nat.div_pos ?_ (Nat.mul_pos hb (Nat.two_pow_pos _)))
        (div_le_roundHalfEven ..)
      have hpow : 2 ^ (Nat.log2 (a / b) - 52) ≤ a / b :=
        Nat.le_trans (Nat.pow_le_pow_right (by decide) (Nat.sub_le ..)) hlog
      rw [Nat.mul_comm]
      exact (Nat.le_div_iff_mul_le hb).mp hpow

-- Below 2 ^ 53 the quotient is so precise that its ceiling is the exact one.
theorem ceilTrueDiv_eq {a b : ℕ} (ha : a < 2 ^ 53) (hb : 0 < b) :
    ceilTrueDiv a b = (a + b - 1) / b := by
  have hdiv := Nat.div_add_mod' (a + b - 1) b
  have hmod := Nat.mod_lt (a + b - 1) hb
  unfold ceilTrueDiv
  by_cases hlt : a < b
  · rw [if_pos hlt]
    split
    next hzero => rw [hzero, Nat.div_eq_of_lt (by omega)]
    next hne =>
        symm
        rw [Nat.div_eq_iff hb]
        omega
  · have hq : a / b ≠ 0 := Nat.ne_of_gt (Nat.div_pos (Nat.not_lt.mp hlt) hb)
    have hlog := (Nat.le_log2 hq).mp (Nat.le_refl _)
    have hsmall : Nat.log2 (a / b) ≤ 52 :=
      Nat.le_of_lt_succ ((Nat.log2_lt hq).mpr (Nat.lt_of_le_of_lt (Nat.div_le_self a b) ha))
    rw [if_neg hlt]
    simp only
    rw [if_pos hsmall]
    generalize Nat.log2 (a / b) = k at hlog hsmall
    generalize hm : (a + b - 1) / b = m at hdiv
    obtain ⟨m, rfl⟩ : ∃ n, m = n + 1 := ⟨m - 1, by
      have hpos : 0 < m := hm ▸ Nat.div_pos (by omega) hb
      omega⟩
    rw [Nat.succ_mul] at hdiv
    -- the bits that the rounding keeps behind the binary point tell the quotient from `m`
    have hbits : b < 2 * 2 ^ (52 - k) := by
      have hmul : 2 ^ k * b ≤ a := (Nat.le_div_iff_mul_le hb).mp hlog
      have hpow : 2 ^ k * (2 * 2 ^ (52 - k)) = 2 ^ 53 := by
        rw [Nat.mul_left_comm, ← Nat.pow_add, Nat.add_sub_cancel' hsmall, ← Nat.pow_succ']
      rw [← hpow] at ha
      exact Nat.lt_of_mul_lt_mul_left (Nat.lt_of_le_of_lt hmul ha)
    have hlow : m * 2 ^ (52 - k) < roundHalfEven (a * 2 ^ (52 - k)) b := by
      refine lt_roundHalfEven hb hbits ?_
      have hscaled : (m * b + 1) * 2 ^ (52 - k) ≤ a * 2 ^ (52 - k) :=
        Nat.mul_le_mul_right _ (by omega)
      rwa [Nat.add_mul, Nat.one_mul, Nat.mul_right_comm] at hscaled
    have hhigh : roundHalfEven (a * 2 ^ (52 - k)) b ≤ (m + 1) * 2 ^ (52 - k) := by
      refine roundHalfEven_le hb ?_
      have hscaled : a * 2 ^ (52 - k) ≤ ((m + 1) * b) * 2 ^ (52 - k) :=
        Nat.mul_le_mul_right _ (by rw [Nat.succ_mul]; omega)
      rwa [Nat.mul_right_comm] at hscaled
    rw [Nat.succ_mul] at hhigh
    rw [Nat.div_eq_iff (Nat.two_pow_pos _), Nat.succ_mul]
    omega

end Arithmetic
