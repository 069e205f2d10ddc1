import Mathlib.Algebra.Order.Field.Basic
import Mathlib.Data.Nat.Cast.Order.Ring
import Mathlib.Data.Nat.Notation
import Mathlib.Tactic.Linarith
import Mathlib.Tactic.Ring

namespace Arithmetic

section Log

variable {K : Type} [LinearOrder K]

-- The grants from `t` on, of a log of times.
def since (t : K) (log : List K) : ℕ := log.countP fun g => t ≤ g

-- The grants of a window.
def within (t u : K) (log : List K) : ℕ := log.countP fun g => t ≤ g ∧ g ≤ u

theorem since_cons_of_le {t g : K} (h : t ≤ g) (log : List K) :
    since t (g :: log) = since t log + 1 :=
  List.countP_cons_of_pos (by simpa using h)

theorem since_eq_zero {t : K} {log : List K} (h : ∀ g ∈ log, g < t) : since t log = 0 := by
  refine List.countP_eq_zero.mpr fun g hg => ?_
  simpa using h g hg

theorem within_le_since (t u : K) (log : List K) : within t u log ≤ since t log :=
  List.countP_mono_left fun g _ h => by simp only [decide_eq_true_eq] at h ⊢; exact h.1

end Log

section Bucket

variable {K : Type} [Field K] [LinearOrder K]

-- A bucket as it was when it was last written.
structure Bucket (K : Type) where
  level : K
  updated : K

-- What it holds at `now`: `rate` tokens a second, and no more than `capacity`.
def Bucket.refill (capacity rate : K) (b : Bucket K) (now : K) : K :=
  min (b.level + (now - b.updated) * rate) capacity

def Bucket.take (capacity rate : K) (b : Bucket K) (now : K) : Bucket K :=
  ⟨b.refill capacity rate now - 1, now⟩

-- A log of a bucket, the newest grant first: from no time on have there been more grants
-- than a full bucket and the refill up to the last one allow.
def Paced (capacity rate : K) : List K → Prop
  | [] => True
  | g :: log => (∀ t ≤ g, (since t (g :: log) : K) ≤ capacity + (g - t) * rate) ∧
      Paced capacity rate log

-- The potential: the tokens left and the grants from `t` on, of which there is one.
def Accounted (capacity rate : K) (b : Bucket K) (log : List K) : Prop :=
  (∀ g ∈ log, g ≤ b.updated) ∧ ∀ t, since t log ≠ 0 →
    since t log + b.level ≤ capacity + (b.updated - t) * rate

variable {capacity rate now : K} {b : Bucket K} {log : List K}

theorem Bucket.refill_le (capacity rate : K) (b : Bucket K) (now : K) :
    b.refill capacity rate now ≤ capacity := min_le_right ..

theorem accounted_nil (b : Bucket K) : Accounted capacity rate b [] :=
  ⟨by simp, fun t h => absurd rfl h⟩

variable [IsStrictOrderedRing K]

-- A token comes back in `1 / rate`.
theorem one_le_refill (hrate : 0 < rate) (hcap : 1 ≤ capacity) (hlevel : 0 ≤ b.level)
    (hnow : b.updated + 1 / rate ≤ now) : 1 ≤ b.refill capacity rate now := by
  refine le_min ?_ hcap
  have hwait : 1 / rate ≤ now - b.updated := by linarith
  have hgain : 1 ≤ (now - b.updated) * rate := (div_le_iff₀ hrate).mp hwait
  linarith

-- One more grant is paid for by the token it takes.
theorem Accounted.grant (hrate : 0 ≤ rate) (hacc : Accounted capacity rate b log)
    (hnow : b.updated ≤ now) :
    Accounted capacity rate (b.take capacity rate now) (now :: log) := by
  obtain ⟨hlast, hpaid⟩ := hacc
  refine ⟨?_, fun t ht => ?_⟩
  · intro g hg
    rcases List.mem_cons.mp hg with rfl | hg
    · exact le_rfl
    · exact (hlast g hg).trans hnow
  · show ((since t (now :: log) : ℕ) : K) + (b.refill capacity rate now - 1) ≤
      capacity + (now - t) * rate
    by_cases htn : t ≤ now
    · rw [since_cons_of_le htn, Nat.cast_add, Nat.cast_one]
      by_cases hnone : since t log = 0
      · -- the first grant of the window: a full bucket at most
        have hgain : 0 ≤ (now - t) * rate := mul_nonneg (sub_nonneg.mpr htn) hrate
        have hfull := b.refill_le capacity rate now
        rw [hnone, Nat.cast_zero]
        linarith
      · have hbefore := hpaid t hnone
        have hlevel : b.refill capacity rate now ≤ b.level + (now - b.updated) *
          rate := min_le_left ..
        have hsplit : (now - t) * rate = (now - b.updated) * rate +
          (b.updated - t) * rate := by ring
        linarith
    · rw [not_le] at htn
      exact absurd (since_eq_zero fun g hg => by
        rcases List.mem_cons.mp hg with rfl | hg
        · exact htn
        · exact ((hlast g hg).trans hnow).trans_lt htn) ht

theorem Paced.grant (hrate : 0 ≤ rate) (hpaced : Paced capacity rate log)
    (hacc : Accounted capacity rate b log)
    (hnow : b.updated ≤ now) (htoken : 1 ≤ b.refill capacity rate now) :
      Paced capacity rate (now :: log) := by
  refine ⟨fun t ht => ?_, hpaced⟩
  have hpaid := (hacc.grant hrate hnow).2 t (by rw [since_cons_of_le ht]; exact Nat.succ_ne_zero _)
  have hleft : 0 ≤ (b.take capacity rate now).level := sub_nonneg.mpr htoken
  calc (since t (now :: log) : K) ≤ since t (now :: log) + (b.take capacity rate
    now).level := by linarith
    _ ≤ capacity + (now - t) * rate := hpaid

-- The bound of a window, from its last grant.
theorem Paced.window (hrate : 0 ≤ rate) (hcap : 0 ≤ capacity)
    (hpaced : Paced capacity rate log) {t u : K}
    (htu : t ≤ u) : (within t u log : K) ≤ capacity + (u - t) * rate := by
  have hgain : 0 ≤ (u - t) * rate := mul_nonneg (sub_nonneg.mpr htu) hrate
  induction log with
  | nil =>
      simp only [within, List.countP_nil, Nat.cast_zero]
      linarith
  | cons g log ih =>
      by_cases hg : t ≤ g ∧ g ≤ u
      · have hmost := hpaced.1 t hg.1
        have hfewer : (within t u (g :: log) : K) ≤ since t (g :: log) :=
          Nat.cast_le.mpr (within_le_since t u _)
        have hlater : (g - t) * rate ≤ (u - t) * rate :=
          mul_le_mul_of_nonneg_right (sub_le_sub_right hg.2 t) hrate
        linarith
      · have hskip : within t u (g :: log) = within t u log :=
          List.countP_cons_of_neg (by simpa using hg)
        rw [hskip]
        exact ih hpaced.2

end Bucket

end Arithmetic
