import Mathlib.Data.Int.Log
import Mathlib.Data.Rat.Floor
import Mathlib.Algebra.Order.Field.Rat
import Mathlib.Tactic.Linarith
import Mathlib.Tactic.NormNum
import Mathlib.Tactic.Positivity
import Mathlib.Tactic.Ring

namespace Arithmetic

-- The nearest integer, halves to the even one.
def roundEven (x : ℚ) : ℤ :=
  if Int.fract x < 1 / 2 ∨ (Int.fract x = 1 / 2 ∧ ⌊x⌋ % 2 = 0) then ⌊x⌋ else ⌊x⌋ + 1

-- The exponent of the last bit that a binary float of 64 bits keeps of `x`.
def lastBit (x : ℚ) : ℤ := max (Int.log 2 x - 52) (-1074)

-- Rounding to a binary float of 64 bits. A number beyond the largest finite one stays a
-- number here, where the float is infinite.
def binary64 (x : ℚ) : ℚ :=
  if x < 0 then -(2 ^ lastBit (-x) * roundEven (-x / 2 ^ lastBit (-x)))
  else 2 ^ lastBit x * roundEven (x / 2 ^ lastBit x)

-- A significand of 53 bits, and an exponent.
def Representable (x : ℚ) : Prop := ∃ m e : ℤ, |m| ≤ 2 ^ 53 ∧ -1074 ≤ e ∧ x = m * 2 ^ e

-- The finite floats.
structure Binary64 where
  val : ℚ
  representable : Representable val
  finite : |val| < 2 ^ 1024

-- An integer of 53 bits.
def Binary64.ofInt (n : ℤ) (h : |n| ≤ 2 ^ 53) : Binary64 where
  val := n
  representable := ⟨n, 0, h, by omega, by rw [zpow_zero, mul_one]⟩
  finite := by
    have hle : |(n : ℚ)| ≤ 2 ^ 53 := by exact_mod_cast h
    exact hle.trans_lt (pow_lt_pow_right₀ one_lt_two (by omega))

-- The least positive one.
def least : ℚ := 2 ^ (-1074 : ℤ)

section Integers

theorem roundEven_le {x : ℚ} {n : ℤ} (h : x ≤ n) : roundEven x ≤ n := by
  have hfloor : ⌊x⌋ ≤ n := Int.floor_le_iff.mpr (h.trans_lt (lt_add_one _))
  unfold roundEven
  split
  · exact hfloor
  · rename_i hup
    -- rounding up needs a fraction, so `n` has not been reached
    refine Int.add_one_le_iff.mpr (lt_of_le_of_ne hfloor fun heq => hup (.inl ?_))
    have hfract : Int.fract x ≤ 0 := by
      rw [Int.fract, heq]
      linarith
    linarith

theorem le_roundEven {x : ℚ} {n : ℤ} (h : n ≤ x) : n ≤ roundEven x := by
  have hfloor : n ≤ ⌊x⌋ := Int.le_floor.mpr h
  unfold roundEven
  split <;> omega

theorem roundEven_mono {x y : ℚ} (h : x ≤ y) : roundEven x ≤ roundEven y := by
  rcases (Int.floor_mono h).lt_or_eq with hlt | heq
  · have hle : roundEven x ≤ ⌊x⌋ + 1 := by
      unfold roundEven
      split <;> omega
    exact hle.trans ((Int.add_one_le_iff.mpr hlt).trans (le_roundEven (Int.floor_le y)))
  · have hfract : Int.fract x ≤ Int.fract y := by
      rw [Int.fract, Int.fract, heq]
      linarith
    unfold roundEven
    rw [heq]
    split
    · split <;> omega
    · rename_i hx
      rw [if_neg fun hy => hx ?_]
      rcases hy with hlow | ⟨hhalf, heven⟩
      · exact .inl (hfract.trans_lt hlow)
      · rcases (hhalf ▸ hfract).lt_or_eq with hlow | hhalf
        · exact .inl hlow
        · exact .inr ⟨hhalf, heven⟩

end Integers

section Floats

variable {x y m : ℚ}

theorem two_zpow_pos (e : ℤ) : (0 : ℚ) < 2 ^ e := zpow_pos two_pos e

theorem binary64_of_nonneg (h : 0 ≤ x) :
    binary64 x = 2 ^ lastBit x * roundEven (x / 2 ^ lastBit x) :=
  if_neg (not_lt.mpr h)

@[simp] theorem binary64_zero : binary64 0 = 0 := by
  rw [binary64_of_nonneg le_rfl, zero_div, show roundEven 0 = 0 by
    simp [roundEven], Int.cast_zero, mul_zero]

theorem binary64_neg (x : ℚ) : binary64 (-x) = -binary64 x := by
  rcases lt_trichotomy x 0 with hneg | rfl | hpos
  · rw [binary64_of_nonneg (by linarith), binary64, if_pos hneg, neg_neg]
  · simp
  · rw [binary64_of_nonneg hpos.le, binary64, if_pos (by linarith), neg_neg]

theorem lastBit_le (x : ℚ) : -1074 ≤ lastBit x := le_max_right ..

-- Every power of two from the last bit on is a multiple of it.
theorem zpow_eq_mul {k e : ℤ} (h : k ≤ e) : ∃ n : ℤ, (2 : ℚ) ^ e = 2 ^ k * n := by
  obtain ⟨d, hd⟩ := Int.le.dest h
  refine ⟨2 ^ d, ?_⟩
  rw [← hd, zpow_add₀ two_ne_zero, zpow_natCast]
  norm_num

-- A float above zero is a multiple of the last bit of `x`, or below the leading one.
theorem Representable.multiple_or_lt (hm : Representable m) (x : ℚ) :
    (∃ n : ℤ, m = 2 ^ lastBit x * n) ∨ m ≤ 2 ^ Int.log 2 x ∧ lastBit x = Int.log 2 x - 52 := by
  obtain ⟨n, e, hn, he, rfl⟩ := hm
  by_cases hle : lastBit x ≤ e
  · obtain ⟨d, hd⟩ := zpow_eq_mul hle
    exact .inl ⟨d * n, by rw [hd]; push_cast; ring⟩
  · have hbit : lastBit x = Int.log 2 x - 52 := by
      unfold lastBit at hle ⊢
      omega
    refine .inr ⟨?_, hbit⟩
    have hexp : e + 53 ≤ Int.log 2 x := by omega
    calc (n : ℚ) * 2 ^ e ≤ 2 ^ 53 * 2 ^ e := by
          refine mul_le_mul_of_nonneg_right ?_ (two_zpow_pos e).le
          exact_mod_cast (le_abs_self n).trans hn
      _ = 2 ^ (e + 53) := by rw [zpow_add₀ two_ne_zero, mul_comm]; norm_num
      _ ≤ 2 ^ Int.log 2 x := zpow_le_zpow_right₀ one_le_two hexp

theorem lead_multiple (hbit : lastBit x = Int.log 2 x - 52) :
    ∃ n : ℤ, (2 : ℚ) ^ Int.log 2 x = 2 ^ lastBit x * n :=
  zpow_eq_mul (by omega)

-- Rounding does not pass a multiple of the last bit.
theorem le_of_multiple (hx : 0 ≤ x) {n : ℤ} (h : 2 ^ lastBit x * n ≤ x) :
    2 ^ lastBit x * n ≤ binary64 x := by
  have hpos := two_zpow_pos (lastBit x)
  rw [binary64_of_nonneg hx]
  refine mul_le_mul_of_nonneg_left ?_ hpos.le
  exact_mod_cast le_roundEven (by rwa [le_div_iff₀ hpos, mul_comm])

theorem of_le_multiple (hx : 0 ≤ x) {n : ℤ} (h : x ≤ 2 ^ lastBit x * n) :
    binary64 x ≤ 2 ^ lastBit x * n := by
  have hpos := two_zpow_pos (lastBit x)
  rw [binary64_of_nonneg hx]
  refine mul_le_mul_of_nonneg_left ?_ hpos.le
  exact_mod_cast roundEven_le (by rwa [div_le_iff₀ hpos, mul_comm])

-- Rounding does not pass a float.
theorem le_binary64 (hm : Representable m) (hx : 0 < x) (h : m ≤ x) : m ≤ binary64 x := by
  rcases hm.multiple_or_lt x with ⟨n, rfl⟩ | ⟨hlead, hbit⟩
  · exact le_of_multiple hx.le h
  · obtain ⟨n, hn⟩ := lead_multiple hbit
    have hlog : (2 : ℚ) ^ Int.log 2 x ≤ x := Int.zpow_log_le_self one_lt_two hx
    exact hlead.trans (hn ▸ le_of_multiple hx.le (hn ▸ hlog))

theorem binary64_le (hm : Representable m) (hx : 0 < x) (h : x ≤ m) : binary64 x ≤ m := by
  rcases hm.multiple_or_lt x with ⟨n, rfl⟩ | ⟨hlead, hbit⟩
  · exact of_le_multiple hx.le h
  · obtain ⟨n, hn⟩ := lead_multiple hbit
    have hlog : (2 : ℚ) ^ Int.log 2 x ≤ x := Int.zpow_log_le_self one_lt_two hx
    have hsame : m = 2 ^ lastBit x * n := hn ▸ le_antisymm hlead (hlog.trans h)
    rw [hsame] at h ⊢
    exact of_le_multiple hx.le h

theorem representable_zpow {e : ℤ} (h : -1074 ≤ e) : Representable (2 ^ e) :=
  ⟨1, e, by norm_num, h, by norm_num⟩

theorem representable_least : Representable least := representable_zpow le_rfl

theorem least_pos : 0 < least := two_zpow_pos _

-- What is no smaller than the least float does not vanish.
theorem least_le_binary64 (h : least ≤ x) : least ≤ binary64 x :=
  le_binary64 representable_least (least_pos.trans_le h) h

theorem binary64_nonneg (h : 0 ≤ x) : 0 ≤ binary64 x := by
  have hmul := le_of_multiple (n := 0) h (by simpa)
  simpa using hmul

theorem binary64_mono (hx : 0 ≤ x) (h : x ≤ y) : binary64 x ≤ binary64 y := by
  rcases hx.eq_or_lt with rfl | hx
  · rw [binary64_zero]
    exact binary64_nonneg h
  have hy := hx.trans_le h
  have hlog : Int.log 2 x ≤ Int.log 2 y := Int.log_mono_right hx h
  by_cases hbit : lastBit x = lastBit y
  · rw [binary64_of_nonneg hx.le, binary64_of_nonneg hy.le, hbit]
    refine mul_le_mul_of_nonneg_left ?_ (two_zpow_pos _).le
    exact_mod_cast roundEven_mono (div_le_div_of_nonneg_right h (two_zpow_pos _).le)
  · -- a power of two is between them
    have hlt : Int.log 2 x + 1 ≤ Int.log 2 y := by
      refine Int.add_one_le_iff.mpr (lt_of_le_of_ne hlog fun heq => hbit ?_)
      rw [lastBit, lastBit, heq]
    have hrep : Representable (2 ^ Int.log 2 y) := by
      refine representable_zpow ?_
      unfold lastBit at hbit
      omega
    have hbelow : x ≤ 2 ^ Int.log 2 y :=
      (Int.lt_zpow_succ_log_self one_lt_two x).le.trans (zpow_le_zpow_right₀ one_le_two hlt)
    exact (binary64_le hrep hx hbelow).trans
      (le_binary64 hrep hy (Int.zpow_log_le_self one_lt_two hy))

-- Floats are multiples of the least one, so two of them differ by at least as much.
def Multiple (x : ℚ) : Prop := ∃ n : ℤ, x = n * least

theorem Representable.multiple (h : Representable x) : Multiple x := by
  obtain ⟨m, e, -, he, rfl⟩ := h
  obtain ⟨n, hn⟩ := zpow_eq_mul he
  replace hn : (2 : ℚ) ^ e = least * n := hn
  exact ⟨m * n, by rw [hn]; push_cast; ring⟩

theorem multiple_binary64 (x : ℚ) : Multiple (binary64 x) := by
  have hpos (z : ℚ) (n : ℤ) : Multiple (2 ^ lastBit z * n) := by
    obtain ⟨d, hd⟩ := zpow_eq_mul (lastBit_le z)
    replace hd : (2 : ℚ) ^ lastBit z = least * d := hd
    exact ⟨d * n, by rw [hd]; push_cast; ring⟩
  unfold binary64
  split
  · obtain ⟨n, hn⟩ := hpos (-x) (roundEven (-x / 2 ^ lastBit (-x)))
    exact ⟨-n, by rw [hn]; push_cast; ring⟩
  · exact hpos ..

theorem Multiple.least_le_sub (hx : Multiple x) (hy : Multiple y) (h : x < y) : least ≤ y - x := by
  obtain ⟨i, rfl⟩ := hx
  obtain ⟨j, rfl⟩ := hy
  have hlt : i < j := by
    have := lt_of_mul_lt_mul_right h least_pos.le
    exact_mod_cast this
  have hone : (1 : ℚ) ≤ j - i := by exact_mod_cast Int.sub_pos_of_lt hlt
  calc least = 1 * least := (one_mul _).symm
    _ ≤ (j - i) * least := mul_le_mul_of_nonneg_right hone least_pos.le
    _ = j * least - i * least := sub_mul ..

end Floats

end Arithmetic
