import Reflowfy.RateLimiter
import Reflowfy.Arithmetic.Binary64

namespace Reflowfy.RateLimiter.Float64

open Arithmetic

-- The limiter's own arithmetic, each result rounded to a float.

-- `_tokens_per_second`.
def tokens_per_second (rate_per_minute : ℚ) : ℚ := binary64 (rate_per_minute / SECONDS_PER_MINUTE)

-- `_get_or_create_state`.
def get_or_create_state (refill_rate now : ℚ) : Option RateLimitState → RateLimitState
  | none => .create refill_rate now
  | some state => if state.refill_rate ≠ refill_rate then state.set_rate refill_rate else state

def new_tokens (state : RateLimitState) (now : ℚ) : ℚ :=
  min (binary64 (state.tokens + binary64 (binary64 (now - state.last_update) * state.refill_rate)))
    state.max_tokens

-- The locked part of `consume_tokens`.
def consume_tokens (state : RateLimitState) (count : ℕ) (now : ℚ) : Option RateLimitState :=
  if new_tokens state now ≥ count then
    some { state with tokens := binary64 (new_tokens state now - count), last_update := now }
  else none

-- What one turn of the loop meets: what the other managers have done to the row, the clock
-- that creates a row, the one of `consume_tokens`, and `time.time()` after it.
structure Attempt where
  others : RateLimitState → RateLimitState
  created : ℚ
  now : ℚ
  time : ℚ

inductive Outcome
  | acquired
  | timed_out
  | zero_division_error
  | value_error
  | overflow_error
  deriving DecidableEq, Repr

-- How a call ends: the row it leaves, how many tokens it has taken from it, and the turns of
-- its loop.
structure Call where
  outcome : Outcome
  row : Option RateLimitState
  consumed : ℕ
  attempts : ℕ
  deriving DecidableEq, Repr

structure Request where
  rate_limit : Option Binary64
  default_rate : Binary64
  max_wait : Binary64
  start_time : ℚ

namespace Request

def effective_rate (r : Request) : ℚ := (r.rate_limit.getD r.default_rate).val

def refill_rate (r : Request) : ℚ := tokens_per_second r.effective_rate

def wait_per_token (r : Request) : ℚ := binary64 (1 / r.refill_rate)

def elapsed (r : Request) (a : Attempt) : ℚ := binary64 (a.time - r.start_time)

def sleep_time (r : Request) (a : Attempt) : ℚ :=
  min r.wait_per_token (binary64 (r.max_wait.val - r.elapsed a))

-- `_get_or_create_state` and the locked row, as the attempt finds it.
def found (r : Request) (a : Attempt) (row : Option RateLimitState) : RateLimitState :=
  get_or_create_state r.refill_rate a.created (row.map a.others)

end Request

-- What `time.sleep` raises: it counts 64 bits of nanoseconds.
def sleep_error (seconds : ℚ) : Option Outcome :=
  if 2 ^ 63 ≤ |binary64 (seconds * 10 ^ 9)| then some .overflow_error
  else if seconds < 0 then some .value_error
  else none

-- Turn `k` of the loop: the call's end, or the row with which the next turn goes on.
-- `consumed` counts the tokens that the call has taken so far, and is read by no step.
@[irreducible] def turn (r : Request) (a : Attempt) (k consumed : ℕ) (row : Option RateLimitState) :
    Call ⊕ RateLimitState :=
  match consume_tokens (r.found a row) 1 a.now with
  | some state => .inl ⟨.acquired, some state, consumed + 1, k + 1⟩
  | none =>
      if r.elapsed a ≥ r.max_wait.val then .inl ⟨.timed_out, some (r.found a row), consumed, k + 1⟩
      else
        match sleep_error (r.sleep_time a) with
        | some error => .inl ⟨error, some (r.found a row), consumed, k + 1⟩
        | none => .inr (r.found a row)

-- The loop, from turn `k` on, for at most so many turns.
def wait_for_token (r : Request) (as : ℕ → Attempt) : ℕ → ℕ → ℕ →
    Option RateLimitState → Option Call
  | 0, _, _, _ => none
  | fuel + 1, k, consumed, row =>
      match turn r (as k) k consumed row with
      | .inl call => some call
      | .inr state => wait_for_token r as fuel (k + 1) consumed (some state)

def acquire_token (r : Request) (as : ℕ → Attempt) (fuel : ℕ)
    (row : Option RateLimitState) : Option Call :=
  if r.refill_rate = 0 then some ⟨.zero_division_error, row, 0, 0⟩
  else wait_for_token r as fuel 0 0 row

end Reflowfy.RateLimiter.Float64
