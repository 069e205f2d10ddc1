import Reflowfy.AcquireToken
import Mathlib.Algebra.Order.Archimedean.Basic

namespace Reflowfy.RateLimiter.Float64

open Arithmetic

-- A clock that a sleep moves on by at least its length.
def Clock (r : Request) (as : ℕ → Attempt) : Prop :=
  r.start_time ≤ (as 0).time ∧ ∀ k, (as k).time + r.sleep_time (as k) ≤ (as (k + 1)).time

-- The call returns: True when it has taken one token, False when it has taken none and
-- `max_wait` has passed.
def Total (r : Request) (as : ℕ → Attempt) (row : Option RateLimitState) : Prop :=
  ∃ fuel call, acquire_token r as fuel row = some call ∧
    (call.outcome = .acquired ∨ call.outcome = .timed_out) ∧
    (call.outcome = .acquired ↔ call.consumed = 1) ∧
    (call.outcome = .timed_out → call.consumed = 0 ∧
      r.max_wait.val ≤ r.elapsed (as (call.attempts - 1)))

-- The first turn of the loop is the last: there is a token, or no time to wait for one.
def EndsAtOnce (r : Request) (a : Attempt) (row : Option RateLimitState) : Prop :=
  1 ≤ new_tokens (r.found a row) a.now ∨ r.max_wait.val ≤ r.elapsed a

section Sleep

variable {r : Request} {a : Attempt}

theorem pos_of_binary64_pos {x : ℚ} (h : 0 < binary64 x) : 0 < x := by
  by_contra hle
  have hneg := binary64_nonneg (x := -x) (by linarith)
  rw [binary64_neg] at hneg
  linarith

-- The reciprocal of a float is no float that vanishes.
theorem least_le_recip {x : ℚ} (hx : x ≤ 2 ^ (1024 : ℤ)) (h : 0 < binary64 x) :
    least ≤ binary64 (1 / binary64 x) := by
  refine least_le_binary64 ?_
  have hle : binary64 x ≤ 2 ^ (1024 : ℤ) := binary64_le (representable_zpow (by omega))
    (pos_of_binary64_pos h) hx
  calc least ≤ 2 ^ (-1024 : ℤ) := zpow_le_zpow_right₀ one_le_two (by omega)
    _ = 1 / 2 ^ (1024 : ℤ) := by rw [zpow_neg, one_div]
    _ ≤ 1 / binary64 x := one_div_le_one_div_of_le h hle

theorem div_minute_le {x : ℚ} (h : |x| < 2 ^ 1024) : x / SECONDS_PER_MINUTE ≤ 2 ^ (1024 : ℤ) := by
  have habs : |x| / SECONDS_PER_MINUTE ≤ |x| :=
    div_le_self (abs_nonneg x) (by norm_num [SECONDS_PER_MINUTE])
  have hdiv : x / SECONDS_PER_MINUTE ≤ |x| / SECONDS_PER_MINUTE :=
    div_le_div_of_nonneg_right (le_abs_self x) (by norm_num [SECONDS_PER_MINUTE])
  exact hdiv.trans (habs.trans h.le)

theorem least_le_wait (h : 0 < r.refill_rate) : least ≤ r.wait_per_token :=
  least_le_recip (div_minute_le (r.rate_limit.getD r.default_rate).finite) h

theorem wait_neg (h : r.refill_rate < 0) : r.wait_per_token < 0 := by
  have hneg : -r.refill_rate = binary64 (-r.effective_rate / SECONDS_PER_MINUTE) := by
    rw [neg_div, binary64_neg]
    rfl
  have hrecip := least_le_recip (x := -r.effective_rate / SECONDS_PER_MINUTE)
    (div_minute_le (by rw [abs_neg]; exact (r.rate_limit.getD r.default_rate).finite))
      (by rw [← hneg]; linarith)
  rw [← hneg, one_div, inv_neg, binary64_neg, ← one_div] at hrecip
  have hpos := least_pos
  have hwait : r.wait_per_token = binary64 (1 / r.refill_rate) := rfl
  linarith

-- Time that is left is no less than the least float.
theorem least_le_remaining (h : r.elapsed a < r.max_wait.val) :
    least ≤ binary64 (r.max_wait.val - r.elapsed a) :=
  least_le_binary64 (Multiple.least_le_sub (multiple_binary64 _)
    r.max_wait.representable.multiple h)

theorem least_le_sleep (hrate : 0 < r.refill_rate) (h : r.elapsed a < r.max_wait.val) :
    least ≤ r.sleep_time a :=
  le_min (least_le_wait hrate) (least_le_remaining h)

theorem sleep_neg (hrate : r.refill_rate < 0) : r.sleep_time a < 0 :=
  (min_le_left ..).trans_lt (wait_neg hrate)

theorem sleep_error_neg {seconds : ℚ} (h : seconds < 0) :
    sleep_error seconds = some .overflow_error ∨ sleep_error seconds = some .value_error := by
  unfold sleep_error
  split
  · exact .inl rfl
  · exact .inr rfl

theorem sleep_error_nonneg {seconds : ℚ} (h : 0 ≤ seconds) :
    (sleep_error seconds = none ∧ binary64 (seconds * 10 ^ 9) < 2 ^ 63) ∨
      (sleep_error seconds = some .overflow_error ∧ 2 ^ 63 ≤ binary64 (seconds * 10 ^ 9)) := by
  have habs : |binary64 (seconds * 10 ^ 9)| = binary64 (seconds * 10 ^ 9) :=
    abs_of_nonneg (binary64_nonneg (mul_nonneg h (by norm_num)))
  unfold sleep_error
  rw [habs]
  split
  · rename_i hlong
    exact .inr ⟨rfl, hlong⟩
  · rename_i hshort
    exact .inl ⟨if_neg (not_lt.mpr h), not_le.mp hshort⟩

-- A later turn has less time left, and sleeps no longer.
theorem sleep_anti {b : Attempt} (hstart : r.start_time ≤ a.time) (hle : a.time ≤ b.time)
    (hleft : r.elapsed b < r.max_wait.val) : r.sleep_time b ≤ r.sleep_time a := by
  have helapsed : r.elapsed a ≤ r.elapsed b := binary64_mono (by linarith) (by linarith)
  exact min_le_min_left _ (binary64_mono (by linarith) (by linarith))

-- What `max_wait` has passed on the clock has passed for the code too.
theorem max_wait_le_elapsed (hmax : 0 ≤ r.max_wait.val)
    (h : r.start_time + r.max_wait.val ≤ a.time) :
    r.max_wait.val ≤ r.elapsed a := by
  rcases hmax.eq_or_lt with hzero | hpos
  · rw [← hzero]
    exact binary64_nonneg (by linarith)
  · exact le_binary64 r.max_wait.representable (by linarith) (by linarith)

end Sleep

section Loop

variable {r : Request} {as : ℕ → Attempt} {a : Attempt} {fuel k consumed : ℕ}
    {row : Option RateLimitState}

theorem consume_tokens_eq_none {state : RateLimitState} {now : ℚ} :
    consume_tokens state 1 now = none ↔ ¬1 ≤ new_tokens state now := by
  unfold consume_tokens
  rw [Nat.cast_one]
  split <;> simp_all

-- A turn that ends the loop.
theorem turn_ends (h : EndsAtOnce r a row) (k consumed : ℕ) :
    ∃ call, turn r a k consumed row = .inl call ∧
    (call.outcome = .acquired ∨ call.outcome = .timed_out) := by
  unfold turn
  cases htaken : consume_tokens (r.found a row) 1 a.now with
  | some state => exact ⟨_, rfl, .inl rfl⟩
  | none =>
      simp only [if_pos (h.resolve_left (consume_tokens_eq_none.mp htaken))]
      exact ⟨_, rfl, .inr rfl⟩

-- A turn that does not: it sleeps.
theorem turn_sleeps (h : ¬EndsAtOnce r a row) : turn r a k consumed row =
    match sleep_error (r.sleep_time a) with
    | some error => .inl ⟨error, some (r.found a row), consumed, k + 1⟩
    | none => .inr (r.found a row) := by
  obtain ⟨htoken, hopen⟩ := not_or.mp h
  unfold turn
  cases sleep_error (r.sleep_time a) <;> simp only [consume_tokens_eq_none.mpr htoken, if_neg hopen]

theorem sleep_error_cases {seconds : ℚ} {error : Outcome} (h : sleep_error seconds = some error) :
    error = .overflow_error ∨ error = .value_error := by
  unfold sleep_error at h
  split at h
  · exact .inl (Option.some.inj h).symm
  · split at h
    · exact .inr (Option.some.inj h).symm
    · cases h

-- What a call has taken when it ends, and when it gives up.
def Call.Accounted (r : Request) (as : ℕ → Attempt) (consumed : ℕ) (call : Call) : Prop :=
  (call.outcome = .acquired → call.consumed = consumed + 1) ∧
    (call.outcome ≠ .acquired → call.consumed = consumed) ∧
    (call.outcome = .timed_out → r.max_wait.val ≤ r.elapsed (as (call.attempts - 1)))

theorem turn_accounted {call : Call} (h : turn r (as k) k consumed row = .inl call) :
    call.Accounted r as consumed := by
  by_cases hends : EndsAtOnce r (as k) row
  · unfold turn at h
    cases htaken : consume_tokens (r.found (as k) row) 1 (as k).now with
    | some state =>
        rw [htaken] at h
        cases h
        exact ⟨fun _ => rfl, fun hne => absurd rfl hne, fun htimed => Outcome.noConfusion htimed⟩
    | none =>
        have hout := hends.resolve_left (consume_tokens_eq_none.mp htaken)
        simp only [htaken, if_pos hout] at h
        cases h
        exact ⟨fun htaken => Outcome.noConfusion htaken, fun _ => rfl, fun _ => hout⟩
  · rw [turn_sleeps hends] at h
    cases herror : sleep_error (r.sleep_time (as k)) with
    | none =>
        rw [herror] at h
        cases h
    | some error =>
        rw [herror] at h
        cases h
        rcases sleep_error_cases herror with rfl | rfl <;>
          exact ⟨fun htaken => Outcome.noConfusion htaken, fun _ => rfl, fun htimed =>
            Outcome.noConfusion htimed⟩

theorem wait_accounted {call : Call} (h : wait_for_token r as fuel k consumed row = some call) :
    call.Accounted r as consumed := by
  induction fuel generalizing k row with
  | zero => cases h
  | succ fuel ih =>
      rw [wait_for_token] at h
      split at h
      · rename_i hturn
        cases h
        exact turn_accounted hturn
      · exact ih h

theorem wait_ends (h : EndsAtOnce r (as k) row) : ∃ call,
    wait_for_token r as (fuel + 1) k consumed row = some call ∧
      (call.outcome = .acquired ∨ call.outcome = .timed_out) := by
  obtain ⟨call, hturn, hout⟩ := turn_ends h k consumed
  exact ⟨call, by rw [wait_for_token, hturn], hout⟩

-- Each turn that does not end the loop takes the clock on by the least float, so there is a
-- last one.
theorem wait_terminates (hmax : 0 ≤ r.max_wait.val) (hclock : Clock r as)
    (hrate : 0 < r.refill_rate)
    (hfits : binary64 (r.sleep_time (as 0) * 10 ^ 9) < 2 ^ 63) (turns : ℕ) :
    ∀ {k : ℕ} {row : Option RateLimitState}, (as 0).time ≤ (as k).time →
      r.start_time + r.max_wait.val ≤ (as k).time + turns * least →
      ∃ fuel call, wait_for_token r as fuel k consumed row = some call ∧
        (call.outcome = .acquired ∨ call.outcome = .timed_out) := by
  induction turns with
  | zero =>
      intro k row _ hleft
      have hout := max_wait_le_elapsed (a := as k) hmax (by simpa using hleft)
      exact ⟨1, wait_ends (.inr hout)⟩
  | succ turns ih =>
      intro k row hk hleft
      by_cases hends : EndsAtOnce r (as k) row
      · exact ⟨1, wait_ends hends⟩
      · have hopen : r.elapsed (as k) < r.max_wait.val := not_le.mp (not_or.mp hends).2
        have hsleep := least_le_sleep hrate hopen
        have hpos := least_pos
        have hnext := hclock.2 k
        have hshort : binary64 (r.sleep_time (as k) * 10 ^ 9) < 2 ^ 63 :=
          lt_of_le_of_lt (binary64_mono (by linarith)
            (by linarith [sleep_anti hclock.1 hk hopen])) hfits
        have hnone : sleep_error (r.sleep_time (as k)) = none :=
          (sleep_error_nonneg (by linarith)).elim And.left fun h => absurd hshort (not_lt.mpr h.2)
        obtain ⟨fuel, call, hcall, hout⟩ := @ih (k + 1)
            (some (r.found (as k) row)) (by linarith) (by
          push_cast at hleft
          linarith)
        refine ⟨fuel + 1, call, ?_, hout⟩
        rw [wait_for_token, turn_sleeps hends, hnone]
        exact hcall

-- A first turn that raises has ended the call.
theorem wait_raises {call : Call} (hends : ¬EndsAtOnce r (as k) row) {error : Outcome}
    (herror : sleep_error (r.sleep_time (as k)) = some error)
    (h : wait_for_token r as fuel k consumed row = some call) : call.outcome ≠ .acquired ∧
      call.outcome ≠ .timed_out := by
  cases fuel with
  | zero => cases h
  | succ fuel =>
      rw [wait_for_token, turn_sleeps hends, herror] at h
      cases h
      rcases sleep_error_cases herror with rfl | rfl <;>
        exact ⟨fun h => Outcome.noConfusion h, fun h => Outcome.noConfusion h⟩

end Loop

-- The call is total if and only if the rate is not 0 as a float, and if its first turn does
-- not end it, it is positive and `time.sleep` takes the first wait.
theorem acquire_token_total_iff (r : Request) (as : ℕ → Attempt) (row : Option RateLimitState)
    (hmax : 0 ≤ r.max_wait.val) (hclock : Clock r as) : Total r as row ↔
      r.refill_rate ≠ 0 ∧ (EndsAtOnce r (as 0) row ∨
        0 < r.refill_rate ∧ binary64 (r.sleep_time (as 0) * 10 ^ 9) < 2 ^ 63) := by
  constructor
  · rintro ⟨fuel, call, hcall, hout, -, -⟩
    unfold acquire_token at hcall
    split at hcall
    · cases hcall
      simp at hout
    · rename_i hrate
      refine ⟨hrate, or_iff_not_imp_left.mpr fun hends => ?_⟩
      have hopen : r.elapsed (as 0) < r.max_wait.val := not_le.mp (not_or.mp hends).2
      have hslept : ∀ error, sleep_error (r.sleep_time (as 0)) ≠ some error := by
        intro error herror
        obtain ⟨htaken, htimed⟩ := wait_raises hends herror hcall
        exact hout.elim htaken htimed
      rcases lt_or_gt_of_ne hrate with hneg | hpos
      · exact ((sleep_error_neg (sleep_neg (a := as 0) hneg)).elim (hslept _) (hslept _)).elim
      · have hsleep := least_le_sleep hpos hopen
        rcases sleep_error_nonneg (le_trans least_pos.le hsleep) with ⟨-, hfits⟩ | ⟨herror, -⟩
        · exact ⟨hpos, hfits⟩
        · exact (hslept _ herror).elim
  · rintro ⟨hrate, hcond⟩
    have hreturns : ∃ fuel call, wait_for_token r as fuel 0 0 row = some call ∧
        (call.outcome = .acquired ∨ call.outcome = .timed_out) := by
      rcases hcond with hends | ⟨hpos, hfits⟩
      · exact ⟨1, wait_ends hends⟩
      · obtain ⟨turns, hturns⟩ := exists_nat_ge (r.max_wait.val / least)
        have hstart := hclock.1
        have hleft := (div_le_iff₀ least_pos).mp hturns
        exact wait_terminates hmax hclock hpos hfits turns le_rfl (by linarith)
    obtain ⟨fuel, call, hcall, hout⟩ := hreturns
    obtain ⟨htaken, hkept, hgave⟩ := wait_accounted hcall
    refine ⟨fuel, call, by
      rw [acquire_token, if_neg hrate, hcall], hout, ⟨htaken, fun hone => ?_⟩, fun htimed => ?_⟩
    · by_contra hne
      have hzero := hkept hne
      omega
    · exact ⟨hkept (by rw [htimed]; decide), hgave htimed⟩

-- A request at so many jobs a minute, with five minutes to wait.
def request (rate_limit : ℤ) (h : |rate_limit| ≤ 2 ^ 53) : Request where
  rate_limit := some (.ofInt rate_limit h)
  default_rate := .ofInt 6000 (by decide)
  max_wait := .ofInt 300 (by decide)
  start_time := 0

-- A clock that ticks once a second.
def seconds (k : ℕ) : Attempt where
  others := id
  created := k
  now := k
  time := k

def empty_bucket (refill_rate : ℚ) : Option RateLimitState := some ⟨0, 1, refill_rate, 0⟩

-- One job a second, and an empty bucket: there is a token at the second turn.
theorem acquire_token_total_sixty : Clock (request 60 (by decide)) seconds ∧
    Total (request 60 (by decide)) seconds (empty_bucket 1) := by
  have hwait : (request 60 (by decide)).wait_per_token = 1 := by decide +kernel
  have hclock : Clock (request 60 (by decide)) seconds := by
    refine ⟨le_rfl, fun k => ?_⟩
    have hsleep : (request 60 (by decide)).sleep_time (seconds k) ≤ 1 := hwait ▸ min_le_left _ _
    show (k : ℚ) + _ ≤ ((k + 1 : ℕ) : ℚ)
    push_cast
    linarith
  refine ⟨hclock, (acquire_token_total_iff _ _ _ (by decide +kernel) hclock).mpr
    ⟨by decide +kernel, .inr ?_⟩⟩
  exact ⟨by decide +kernel, by decide +kernel⟩

-- A rate of 0 divides by zero; at a negative one an empty bucket asks for a sleep of less
-- than no time.
theorem zero_and_negative_rates :
    (∀ fuel, acquire_token (request 0 (by decide)) seconds fuel (empty_bucket 1) =
      some ⟨.zero_division_error, empty_bucket 1, 0, 0⟩) ∧
    (∀ fuel, acquire_token (request (-60) (by decide)) seconds (fuel + 1) (empty_bucket (-1)) =
      some ⟨.value_error, empty_bucket (-1), 0, 1⟩) ∧
    ¬Total (request 0 (by decide)) seconds (empty_bucket 1) ∧
    ¬Total (request (-60) (by decide)) seconds (empty_bucket (-1)) := by
  have hzero (fuel : ℕ) : acquire_token (request 0 (by decide)) seconds fuel (empty_bucket 1) =
      some ⟨.zero_division_error, empty_bucket 1, 0, 0⟩ := if_pos (by decide +kernel)
  have hnegative (fuel : ℕ) : acquire_token (request (-60) (by decide)) seconds (fuel + 1)
    (empty_bucket (-1)) =
      some ⟨.value_error, empty_bucket (-1), 0, 1⟩ := by
    have hturn : turn (request (-60) (by decide)) (seconds 0) 0 0 (empty_bucket (-1)) =
        .inl ⟨.value_error, empty_bucket (-1), 0, 1⟩ := by decide +kernel
    rw [acquire_token, if_neg (by decide +kernel), wait_for_token, hturn]
  refine ⟨hzero, hnegative, ?_, ?_⟩
  · rintro ⟨fuel, call, hcall, hout, -⟩
    rw [hzero] at hcall
    cases hcall
    simp at hout
  · rintro ⟨fuel, call, hcall, hout, -⟩
    cases fuel with
    | zero =>
        rw [acquire_token, if_neg (by decide +kernel)] at hcall
        cases hcall
    | succ fuel =>
        rw [hnegative] at hcall
        cases hcall
        simp at hout

end Reflowfy.RateLimiter.Float64
