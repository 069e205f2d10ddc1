import Reflowfy.Interleaving.Pool
import Reflowfy.Models
import Mathlib.Algebra.Order.Ring.Unbundled.Rat

namespace Reflowfy

open Interleaving

namespace RateLimiter

def SECONDS_PER_MINUTE : ℚ := 60

-- A row of `rate_limit_state`. Times are in seconds.
structure RateLimitState where
  tokens : ℚ
  max_tokens : ℚ
  refill_rate : ℚ
  last_update : ℚ
  deriving DecidableEq, Repr

def tokens_per_second (rate_per_minute : ℚ) : ℚ := rate_per_minute / SECONDS_PER_MINUTE

namespace RateLimitState

-- The row that `_get_or_create_state` adds.
def create (refill_rate now : ℚ) : RateLimitState where
  tokens := 1
  max_tokens := max 1 refill_rate
  refill_rate := refill_rate
  last_update := now

-- The other rate that `_get_or_create_state` stores.
def set_rate (state : RateLimitState) (refill_rate : ℚ) : RateLimitState :=
  { state with refill_rate, max_tokens := max 1 refill_rate }

def new_tokens (state : RateLimitState) (now : ℚ) : ℚ :=
  min (state.tokens + (now - state.last_update) * state.refill_rate) state.max_tokens

-- The locked part of `consume_tokens`: the row to write, or none when it is refused.
def consume_tokens (state : RateLimitState) (count : ℕ) (now : ℚ) : Option RateLimitState :=
  if state.new_tokens now ≥ count then
    some { state with tokens := state.new_tokens now - count, last_update := now }
  else none

end RateLimitState

-- Where a call of `consume_tokens` with the count 1 stands.
inductive CallPc
  | idle
  -- `_get_or_create_state`: the unlocked SELECT, then the INSERT or UPDATE it may call for
  | get
  | add (state : RateLimitState)
  | set_rate
  -- SELECT … FOR UPDATE of the row as it is now (the session holds on to no older instance),
  -- the clock, and the transaction's end
  | lock
  | locked (state : RateLimitState)
  | commit (state : RateLimitState) (now : ℚ)
  | rollback
  deriving DecidableEq, Repr

-- The row of one pipeline, and the call that has it locked. `granted` is kept for the
-- statements about it and read by no step: the times of the calls that were granted, the
-- newest first.
structure LimiterStore where
  clock : ℚ
  row : Option RateLimitState
  lock : Option TaskId
  granted : List ℚ

abbrev LimiterSystem := Pool LimiterStore CallPc

inductive LimiterEvent
  | tick (now : ℚ)
  | call (i : TaskId)
  | go (i : TaskId)
  deriving DecidableEq, Repr

namespace CallPc

-- The next statement of a call, with what the table and the clock say to it.
def go (rate_limit : ℚ) (i : TaskId) (s : LimiterStore) : CallPc → Option (LimiterStore × CallPc)
  | idle => none
  | get =>
      match s.row with
      | none => some (s, add (.create (tokens_per_second rate_limit) s.clock))
      | some state => some (s, if state.refill_rate ≠ tokens_per_second rate_limit then
          set_rate else lock)
  | add state =>
      match s.row with
      | none => some ({ s with row := some state }, lock)
      -- another manager has inserted the row: IntegrityError
      | some _ => some (s, idle)
  | set_rate =>
      if s.lock = none then
        some ({ s with row := s.row.map fun state => state.set_rate (tokens_per_second
          rate_limit) }, lock)
      else none
  | lock =>
      if s.lock = none then s.row.map fun state => ({ s with lock := some i }, locked state)
      else none
  | locked state =>
      match state.consume_tokens 1 s.clock with
      | some state => some (s, commit state s.clock)
      | none => some (s, rollback)
  | commit state now =>
      some ({ s with row := some state, lock := none, granted := now :: s.granted }, idle)
  | rollback => some ({ s with lock := none }, idle)

section

variable {rate_limit : ℚ} {i : TaskId} {s : LimiterStore} {state : RateLimitState}

@[simp] theorem go_get : get.go rate_limit i s =
    match s.row with
    | none => some (s, add (.create (tokens_per_second rate_limit) s.clock))
    | some state => some (s, if state.refill_rate ≠ tokens_per_second rate_limit then
        set_rate else lock) := rfl

@[simp] theorem go_add : (add state).go rate_limit i s =
    match s.row with
    | none => some ({ s with row := some state }, lock)
    | some _ => some (s, idle) := rfl

@[simp] theorem go_lock : lock.go rate_limit i s =
    if s.lock = none then s.row.map fun state => ({ s with lock := some i }, locked state)
    else none := rfl

@[simp] theorem go_locked : (locked state).go rate_limit i s =
    match state.consume_tokens 1 s.clock with
    | some state => some (s, commit state s.clock)
    | none => some (s, rollback) := rfl

end

end CallPc

namespace LimiterSystem

def step (rate_limit : ℚ) (s : LimiterSystem) : LimiterEvent → Option LimiterSystem
  | .tick now => if s.store.clock ≤ now then
      some { s with store := { s.store with clock := now } } else none
  | .call i => if s.procs i = .idle then some (s.set i s.store .get) else none
  | .go i => ((s.procs i).go rate_limit i s.store).map fun (store, pc) => s.set i store pc

-- A row as a call at this rate leaves it.
def Left (rate_limit clock : ℚ) (state : RateLimitState) : Prop :=
  0 ≤ state.tokens ∧ state.tokens ≤ state.max_tokens ∧
    state.refill_rate = tokens_per_second rate_limit ∧
    state.max_tokens = max 1 (tokens_per_second rate_limit) ∧ state.last_update ≤ clock

-- No call has begun; the row is not there yet, or as an earlier process left it.
def Initial (rate_limit : ℚ) (s : LimiterSystem) : Prop :=
  s.store.lock = none ∧ s.store.granted = [] ∧
    (∀ state ∈ s.store.row, Left rate_limit s.store.clock state) ∧
    ∀ i, s.procs i = .idle

end LimiterSystem

end RateLimiter

end Reflowfy
