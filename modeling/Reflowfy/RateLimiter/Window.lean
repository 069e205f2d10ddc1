import Reflowfy.RateLimiter
import Reflowfy.Arithmetic.TokenBucket
import Mathlib.Algebra.Order.Field.Rat

namespace Reflowfy.RateLimiter

open Interleaving Arithmetic

variable {rate_limit : ℚ}

namespace RateLimitState

-- A row is a bucket of `max_tokens`.
def bucket (state : RateLimitState) : Bucket ℚ := ⟨state.tokens, state.last_update⟩

theorem new_tokens_eq (state : RateLimitState) (now : ℚ) :
    state.new_tokens now = state.bucket.refill state.max_tokens state.refill_rate now := rfl

theorem consume_tokens_eq_some {state next : RateLimitState} {now : ℚ} :
    state.consume_tokens 1 now = some next ↔
      1 ≤ state.new_tokens now ∧
        next = { state with tokens := state.new_tokens now - 1, last_update := now } := by
  unfold consume_tokens
  split
  · rename_i h
    rw [Nat.cast_one] at h ⊢
    simp [h, eq_comm]
  · rename_i h
    rw [Nat.cast_one] at h
    simp [h]

theorem bucket_consume {state next : RateLimitState} {now : ℚ}
    (h : state.consume_tokens 1 now = some next) :
    next.bucket = state.bucket.take state.max_tokens state.refill_rate now := by
  obtain ⟨-, rfl⟩ := consume_tokens_eq_some.mp h
  rfl

end RateLimitState

namespace LimiterSystem

theorem tokens_per_second_pos (hrate : 0 < rate_limit) : 0 < tokens_per_second rate_limit :=
  div_pos hrate (by norm_num [SECONDS_PER_MINUTE])

theorem Left.mono {clock clock' : ℚ} {state : RateLimitState} (h : Left rate_limit clock state)
    (hle : clock ≤ clock') :
    Left rate_limit clock' state :=
  ⟨h.1, h.2.1, h.2.2.1, h.2.2.2.1, h.2.2.2.2.trans hle⟩

theorem left_create (rate_limit clock : ℚ) :
    Left rate_limit clock (.create (tokens_per_second rate_limit) clock) :=
  ⟨zero_le_one, le_max_left .., rfl, rfl, le_rfl⟩

theorem Left.consume {clock now : ℚ} {state next : RateLimitState} (h : Left rate_limit clock state)
    (hnow : now ≤ clock) (hnext : state.consume_tokens 1 now = some next) :
      Left rate_limit clock next := by
  obtain ⟨-, -, hrefill, hmax, -⟩ := h
  obtain ⟨htoken, rfl⟩ := RateLimitState.consume_tokens_eq_some.mp hnext
  have hfull : state.new_tokens now ≤ state.max_tokens := min_le_right ..
  exact ⟨sub_nonneg.mpr htoken, (sub_le_self _ zero_le_one).trans hfull, hrefill, hmax, hnow⟩

-- The table: a row as the calls leave it, which has paid for every grant, and was last
-- written by the newest.
def Paid (rate_limit : ℚ) (s : LimiterStore) : Prop :=
  (s.row = none → s.granted = []) ∧
    Paced (max 1 (tokens_per_second rate_limit)) (tokens_per_second rate_limit) s.granted ∧
    ∀ state ∈ s.row, Left rate_limit s.clock state ∧
      Accounted (max 1 (tokens_per_second rate_limit)) (tokens_per_second rate_limit)
        state.bucket s.granted ∧
      ∀ last ∈ s.granted.head?, state.last_update = last

-- A call: between the lock and the end of its transaction the row is what it has read.
def Call (rate_limit : ℚ) (s : LimiterStore) (i : TaskId) : CallPc → Prop
  | .add state => Left rate_limit s.clock state
  | .set_rate => False
  | .locked state => s.lock = some i ∧ s.row = some state
  | .commit next now => s.lock = some i ∧ now ≤ s.clock ∧
      ∃ state, s.row = some state ∧ state.last_update ≤ now ∧ state.consume_tokens 1 now = some next
  | .rollback => s.lock = some i
  | _ => True

theorem Call.tick {s : LimiterStore} {now : ℚ} (hle : s.clock ≤ now) {i : TaskId} {pc : CallPc}
    (h : Call rate_limit s i pc) : Call rate_limit { s with clock := now } i pc := by
  cases pc with
  | add state => exact Left.mono h hle
  | commit next at_ => exact ⟨h.1, h.2.1.trans hle, h.2.2⟩
  | _ => exact h

-- Whoever takes the lock, or gives it back, finds no other call behind it.
theorem Call.other {s s' : LimiterStore} {j : TaskId} {pc : CallPc} (hclock : s'.clock = s.clock)
    (hlock : s.lock ≠ some j) (h : Call rate_limit s j pc) : Call rate_limit s' j pc := by
  cases pc with
  | add state => exact Left.mono h hclock.ge
  | locked state => exact absurd h.1 hlock
  | commit next now => exact absurd h.1 hlock
  | rollback => exact absurd h hlock
  | _ => exact h

theorem Paid.tick {s : LimiterStore} {now : ℚ} (hle : s.clock ≤ now) (h : Paid rate_limit s) :
    Paid rate_limit { s with clock := now } :=
  ⟨h.1, h.2.1, fun state hstate => ⟨(h.2.2 state hstate).1.mono hle, (h.2.2 state hstate).2⟩⟩

theorem Paid.create {s : LimiterStore} {state : RateLimitState} (h : Paid rate_limit s)
    (hnone : s.row = none)
    (hstate : Left rate_limit s.clock state) : Paid rate_limit { s with row := some state } := by
  have hgranted := h.1 hnone
  refine ⟨nofun, h.2.1, fun state' hstate' => ?_⟩
  cases hstate'
  show _ ∧ Accounted _ _ state.bucket s.granted ∧ ∀ last ∈ s.granted.head?, _
  rw [hgranted]
  exact ⟨hstate, accounted_nil _, nofun⟩

-- A grant takes its token from the bucket.
theorem Paid.grant {s : LimiterStore} {state next : RateLimitState} {now : ℚ}
    (hrate : 0 < rate_limit)
    (h : Paid rate_limit s) (hrow : s.row = some state) (hlast : state.last_update ≤ now)
    (hnow : now ≤ s.clock) (hnext : state.consume_tokens 1 now = some next) :
    Paid rate_limit { s with row := some next, lock := none, granted := now :: s.granted } := by
  have hpos := (tokens_per_second_pos hrate).le
  obtain ⟨hleft, hacc, -⟩ := h.2.2 state hrow
  have hrefill := hleft.2.2.1
  have hmax := hleft.2.2.2.1
  obtain ⟨htoken, hwritten⟩ := RateLimitState.consume_tokens_eq_some.mp hnext
  rw [RateLimitState.new_tokens_eq, hrefill, hmax] at htoken
  refine ⟨nofun, h.2.1.grant hpos hacc hlast htoken, fun state' hstate' => ?_⟩
  cases hstate'
  refine ⟨hleft.consume hnow hnext, ?_, fun last hhead => ?_⟩
  · rw [RateLimitState.bucket_consume hnext, hrefill, hmax]
    exact hacc.grant hpos hlast
  · cases hhead
    rw [hwritten]

theorem holds_initial {s : LimiterSystem} (h : Initial rate_limit s) :
    s.Holds (Paid rate_limit) (Call rate_limit) := by
  obtain ⟨-, hgranted, hrow, hidle⟩ := h
  refine ⟨⟨fun _ => hgranted, ?_, fun state hstate => ⟨hrow state hstate, ?_⟩⟩, fun i => ?_⟩
  · rw [hgranted]
    trivial
  · rw [hgranted]
    exact ⟨accounted_nil _, nofun⟩
  · rw [hidle i]
    trivial

-- What a call's next statement does to the row and the log, and that the other calls do
-- not see it.
theorem go_holds (hrate : 0 < rate_limit) {s : LimiterSystem}
    (hs : s.Holds (Paid rate_limit) (Call rate_limit))
    {i : TaskId} {store : LimiterStore} {pc : CallPc}
    (hgo : (s.procs i).go rate_limit i s.store = some (store, pc)) :
    (s.set i store pc).Holds (Paid rate_limit) (Call rate_limit) := by
  obtain ⟨hpaid, hcalls⟩ := hs
  have hcall := hcalls i
  cases hpc : s.procs i with
  | idle => rw [hpc] at hgo; cases hgo
  | get =>
      rw [hpc] at hgo
      rw [CallPc.go_get] at hgo
      cases hrow : s.store.row with
      | none =>
          rw [hrow] at hgo
          cases hgo
          exact Pool.Holds.set ⟨hpaid, hcalls⟩ hpaid (left_create rate_limit _) fun j _ h => h
      | some state =>
          rw [hrow] at hgo
          have hsame : state.refill_rate = tokens_per_second rate_limit :=
            (hpaid.2.2 state hrow).1.2.2.1
          simp only [hsame, ne_eq, not_true_eq_false, if_false] at hgo
          cases hgo
          exact Pool.Holds.set ⟨hpaid, hcalls⟩ hpaid trivial fun j _ h => h
  | add state =>
      rw [hpc] at hgo hcall
      rw [CallPc.go_add] at hgo
      cases hrow : s.store.row with
      | none =>
          rw [hrow] at hgo
          cases hgo
          refine Pool.Holds.set ⟨hpaid, hcalls⟩ (hpaid.create hrow hcall) trivial fun j _ h => ?_
          -- no call has locked a row that is not there
          cases hj : s.procs j with
          | locked state' => rw [hj] at h; rw [h.2] at hrow; cases hrow
          | commit next now =>
              rw [hj] at h
              obtain ⟨-, -, state', hrow', -⟩ := h
              rw [hrow'] at hrow
              cases hrow
          | _ => rw [hj] at h; exact h
      | some state' =>
          rw [hrow] at hgo
          cases hgo
          exact Pool.Holds.set ⟨hpaid, hcalls⟩ hpaid trivial fun j _ h => h
  | set_rate => rw [hpc] at hcall; exact hcall.elim
  | lock =>
      rw [hpc] at hgo
      rw [CallPc.go_lock] at hgo
      split at hgo
      · rename_i hfree
        obtain ⟨state, hrow, hgo⟩ := Option.map_eq_some_iff.mp hgo
        cases hgo
        exact Pool.Holds.set ⟨hpaid, hcalls⟩ hpaid ⟨rfl, hrow⟩ fun j _ h =>
          Call.other (s := s.store) rfl (by rw [hfree]; exact nofun) h
      · cases hgo
  | locked state =>
      rw [hpc] at hgo hcall
      rw [CallPc.go_locked] at hgo
      obtain ⟨hlock, hrow⟩ := hcall
      cases hnext : state.consume_tokens 1 s.store.clock with
      | some next =>
          rw [hnext] at hgo
          cases hgo
          exact Pool.Holds.set ⟨hpaid, hcalls⟩ hpaid
            ⟨hlock, le_rfl, state, hrow, (hpaid.2.2 state hrow).1.2.2.2.2, hnext⟩ fun j _ h => h
      | none =>
          rw [hnext] at hgo
          cases hgo
          exact Pool.Holds.set ⟨hpaid, hcalls⟩ hpaid hlock fun j _ h => h
  | commit next now =>
      rw [hpc] at hgo hcall
      cases hgo
      obtain ⟨hlock, hnow, state, hrow, hlast, hnext⟩ := hcall
      refine Pool.Holds.set ⟨hpaid, hcalls⟩ (hpaid.grant hrate hrow hlast hnow hnext)
        trivial fun j hj h => ?_
      exact Call.other (s := s.store) rfl
        (by rw [hlock]; exact fun h => hj (Option.some.inj h).symm) h
  | rollback =>
      rw [hpc] at hgo hcall
      cases hgo
      refine Pool.Holds.set ⟨hpaid, hcalls⟩ hpaid trivial fun j hj h => ?_
      exact Call.other (s := s.store) rfl
        (by rw [show s.store.lock =
        some i from hcall]; exact fun h => hj (Option.some.inj h).symm) h

theorem step_holds (hrate : 0 < rate_limit) {s s' : LimiterSystem} {e : LimiterEvent}
    (hs : s.Holds (Paid rate_limit) (Call rate_limit)) (hstep : step rate_limit s e = some s') :
    s'.Holds (Paid rate_limit) (Call rate_limit) := by
  cases e with
  | tick now =>
      simp only [step] at hstep
      split at hstep
      · rename_i hle
        cases hstep
        exact Pool.Holds.store hs (hs.1.tick hle) fun j p h => Call.tick hle h
      · cases hstep
  | call i =>
      simp only [step] at hstep
      split at hstep
      · cases hstep
        exact Pool.Holds.set hs hs.1 trivial fun j _ h => h
      · cases hstep
  | go i =>
      obtain ⟨⟨store, pc⟩, hgo, rfl⟩ := Option.map_eq_some_iff.mp hstep
      exact go_holds hrate hs hgo

theorem holds_of_reach (hrate : 0 < rate_limit) {s : LimiterSystem}
    (hr : Reach (step rate_limit) (Initial rate_limit) (fun _ _ => True) s) :
    s.Holds (Paid rate_limit) (Call rate_limit) :=
  hr.invariant (fun _ h => holds_initial h) fun _ _ _ _ hs _ hstep => step_holds hrate hs hstep

-- A token is there again `1 / r` after the last grant.
theorem granted_after (hrate : 0 < rate_limit) {s : LimiterStore} (hpaid : Paid rate_limit s)
    {state : RateLimitState} {last : ℚ} (hrow : s.row = some state)
    (hlast : s.granted.head? = some last)
    (hwait : last + 1 / tokens_per_second rate_limit ≤ s.clock) :
    ∃ next, state.consume_tokens 1 s.clock = some next := by
  obtain ⟨⟨hlevel, -, hrefill, hmax, -⟩, -, hwritten⟩ := hpaid.2.2 state hrow
  have hupdated : state.bucket.updated = last := hwritten last hlast
  have htoken : 1 ≤ state.new_tokens s.clock := by
    rw [RateLimitState.new_tokens_eq, hrefill, hmax]
    exact one_le_refill (tokens_per_second_pos hrate) (le_max_left ..) hlevel (hupdated ▸ hwait)
  exact ⟨_, RateLimitState.consume_tokens_eq_some.mpr ⟨htoken, rfl⟩⟩

-- The statements that write the row, and those that do not.
theorem go_cases {s : LimiterStore} {i : TaskId} {pc pc' : CallPc} {store : LimiterStore}
    (hgo : pc.go rate_limit i s = some (store, pc')) :
    (store.row = s.row ∧ store.granted = s.granted) ∨
    (∃ state, pc = .add state ∧ s.row = none) ∨ pc = .set_rate ∨
      ∃ next now, pc = .commit next now ∧ store.granted = now :: s.granted := by
  cases pc with
  | add state =>
      rw [CallPc.go_add] at hgo
      split at hgo
      · rename_i hnone
        exact .inr (.inl ⟨state, rfl, hnone⟩)
      · cases hgo
        exact .inl ⟨rfl, rfl⟩
  | set_rate => exact .inr (.inr (.inl rfl))
  | commit next now =>
      cases hgo
      exact .inr (.inr (.inr ⟨next, now, rfl, rfl⟩))
  | lock =>
      rw [CallPc.go_lock] at hgo
      split at hgo
      · obtain ⟨state, -, hgo⟩ := Option.map_eq_some_iff.mp hgo
        cases hgo
        exact .inl ⟨rfl, rfl⟩
      · cases hgo
  | idle => cases hgo
  | rollback =>
      cases hgo
      exact .inl ⟨rfl, rfl⟩
  | get =>
      rw [CallPc.go_get] at hgo
      split at hgo <;> · cases hgo; exact .inl ⟨rfl, rfl⟩
  | locked state =>
      rw [CallPc.go_locked] at hgo
      split at hgo <;> · cases hgo; exact .inl ⟨rfl, rfl⟩

-- Only a grant writes the row that is there.
theorem row_step {s s' : LimiterSystem} {e : LimiterEvent}
    (hs : s.Holds (Paid rate_limit) (Call rate_limit))
    (hstep : step rate_limit s e = some s') (hrow : s.store.row.isSome)
    (hgranted : s'.store.granted = s.store.granted) : s'.store.row = s.store.row := by
  cases e with
  | tick now =>
      simp only [step] at hstep
      split at hstep
      · cases hstep
        rfl
      · cases hstep
  | call i =>
      simp only [step] at hstep
      split at hstep
      · cases hstep
        rfl
      · cases hstep
  | go i =>
      obtain ⟨⟨store, pc⟩, hgo, rfl⟩ := Option.map_eq_some_iff.mp hstep
      rcases go_cases hgo with ⟨hsame, -⟩ | ⟨state, -, hnone⟩ | hpc | ⟨next, now, -, hgrant⟩
      · exact hsame
      · rw [hnone] at hrow
        cases hrow
      · have hcall := hs.2 i
        rw [hpc] at hcall
        exact hcall.elim
      · rw [show store.granted = s.store.granted from hgranted] at hgrant
        exact absurd hgrant.symm (List.cons_ne_self now _)

theorem replay_go {s : LimiterSystem} {i : TaskId} {store : LimiterStore} {pc : CallPc}
    (es : List LimiterEvent) (hgo : (s.procs i).go rate_limit i s.store = some (store, pc)) :
    replay (step rate_limit) (fun _ _ => true) s (.go i :: es) =
      replay (step rate_limit) (fun _ _ => true) (s.set i store pc) es :=
  replay_cons es rfl (Option.map_eq_some_iff.mpr ⟨_, hgo, rfl⟩)

-- The call of one task alone, from its start to its end.
theorem call_granted (hrate : 0 < rate_limit) {s : LimiterSystem}
    (hs : s.Holds (Paid rate_limit) (Call rate_limit))
    {i : TaskId} {last : ℚ} (hidle : s.procs i = .idle) (hlock : s.store.lock = none)
    (hlast : s.store.granted.head? = some last)
    (hwait : last + 1 / tokens_per_second rate_limit ≤ s.store.clock) :
    ∃ s', replay (step rate_limit) (fun _ _ => true) s
      [.call i, .go i, .go i, .go i, .go i] = some s' ∧
      s'.store.granted = s.store.clock :: s.store.granted := by
  obtain ⟨state, hrow⟩ : ∃ state, s.store.row = some state := by
    refine Option.ne_none_iff_exists'.mp fun hnone => ?_
    rw [hs.1.1 hnone] at hlast
    cases hlast
  have hrefill : state.refill_rate = tokens_per_second rate_limit := (hs.1.2.2 state hrow).1.2.2.1
  obtain ⟨next, hnext⟩ := granted_after hrate hs.1 hrow hlast hwait
  refine ⟨s.set i
    { s.store with row := some next, lock := none, granted := s.store.clock :: s.store.granted }
    .idle, ?_, rfl⟩
  have hget : CallPc.get.go rate_limit i s.store = some (s.store, .lock) := by simp [hrow, hrefill]
  have hlocked : CallPc.lock.go rate_limit i s.store =
      some ({ s.store with lock := some i }, .locked state) := by
    simp [hrow, hlock]
  have hconsume : (CallPc.locked state).go rate_limit i { s.store with lock := some i } =
      some ({ s.store with lock := some i }, .commit next s.store.clock) := by
    simp [hnext]
  rw [replay_cons _ rfl (if_pos hidle)]
  rw [replay_go _ (by rw [Pool.set_procs_self, Pool.set_store, hget]), Pool.set_set]
  rw [replay_go _ (by rw [Pool.set_procs_self, Pool.set_store, hlocked]), Pool.set_set]
  rw [replay_go _ (by rw [Pool.set_procs_self, Pool.set_store, hconsume]), Pool.set_set]
  rw [replay_go _ (by rw [Pool.set_procs_self, Pool.set_store]; rfl), Pool.set_set]
  rfl

end LimiterSystem

open LimiterSystem

-- A bucket that no rate of polling and no interleaving can overdraw or starve.
theorem rate_limit_kept (hrate : 0 < rate_limit) {s : LimiterSystem}
    (hr : Reach (step rate_limit) (Initial rate_limit) (fun _ _ => True) s) :
    (∀ state ∈ s.store.row, 0 ≤ state.tokens ∧
      state.tokens ≤ max 1 (tokens_per_second rate_limit)) ∧
    (∀ t T, 0 ≤ T → (within t (t + T) s.store.granted : ℚ) ≤
      max 1 (tokens_per_second rate_limit) + tokens_per_second rate_limit * T) ∧
    (∀ e s', step rate_limit s e = some s' → s.store.row.isSome →
      s'.store.granted = s.store.granted →
      s'.store.row = s.store.row) ∧
    (∀ last, s.store.granted.head? = some last →
      last + 1 / tokens_per_second rate_limit ≤ s.store.clock →
      (∀ i state, s.procs i = .locked state →
        ∃ next, state.consume_tokens 1 s.store.clock = some next) ∧
      ∀ i, s.procs i = .idle → s.store.lock = none →
        ∃ s', replay (step rate_limit) (fun _ _ => true) s
          [.call i, .go i, .go i, .go i, .go i] = some s' ∧
          s'.store.granted = s.store.clock :: s.store.granted) := by
  have hs := holds_of_reach hrate hr
  have hpos := tokens_per_second_pos hrate
  refine ⟨?_, ?_, ?_, ?_⟩
  · intro state hrow
    obtain ⟨hlevel, hfull, -, hmax, -⟩ := (hs.1.2.2 state hrow).1
    exact ⟨hlevel, hmax ▸ hfull⟩
  · intro t T hT
    have hwindow := hs.1.2.1.window hpos.le (zero_le_one.trans (le_max_left ..))
      (le_add_of_nonneg_right (a := t) hT)
    rwa [add_sub_cancel_left, mul_comm] at hwindow
  · intro e s' hstep hrow hgranted
    exact row_step hs hstep hrow hgranted
  · intro last hlast hwait
    refine ⟨fun i state hpc => ?_, fun i hidle hlock =>
      call_granted hrate hs hidle hlock hlast hwait⟩
    have hcall := hs.2 i
    rw [hpc] at hcall
    exact granted_after hrate hs.1 hcall.2 hlast hwait

-- One token a second: the call that creates the row is granted, and so is the next one, a
-- second later.
theorem rate_limit_kept_one : ∃ s, Reach (step 60) (Initial 60) (fun _ _ => True) s ∧
    s.store.granted = [0] ∧
    (within 0 (0 + 1) s.store.granted : ℚ) ≤ max 1 (tokens_per_second 60) +
    tokens_per_second 60 * 1 ∧
    ∃ s', replay (step 60) (fun _ _ => true) s [.call 1, .go 1, .go 1, .go 1, .go 1] = some s' ∧
      s'.store.granted = s.store.clock :: s.store.granted := by
  obtain ⟨s, hr, -, htest⟩ := Reach.replay (step 60) (Initial 60)
    (fun _ _ => True) (fun _ _ => true)
    (fun _ _ _ => trivial) (s := ⟨⟨0, none, none, []⟩, fun _ => .idle⟩)
      ⟨rfl, rfl, nofun, fun _ => rfl⟩
    [.call 0, .go 0, .go 0, .go 0, .go 0, .go 0, .tick 1]
    (fun s => s.store.granted = [0] ∧ s.store.clock = 1 ∧ s.store.lock = none ∧ s.procs 1 = .idle)
      (by decide +kernel)
  obtain ⟨hgranted, hclock, hlock, hidle⟩ := of_decide_eq_true htest
  have hkept := rate_limit_kept (by norm_num) hr
  refine ⟨s, hr, hgranted, hkept.2.1 0 1 zero_le_one, ?_⟩
  refine (hkept.2.2.2 0 (by rw [hgranted]; rfl) ?_).2 1 hidle hlock
  rw [hclock]
  norm_num [tokens_per_second, SECONDS_PER_MINUTE]

end Reflowfy.RateLimiter
