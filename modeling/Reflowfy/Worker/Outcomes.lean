import Reflowfy.Worker.JobSystem
import Reflowfy.Worker.Statements
import Reflowfy.Interleaving.Runs

namespace Reflowfy.JobSystem

open Interleaving

-- A delivery that is past its claim, whose job now belongs to no delivery or to another.
def Displaced (s : JobSystem) (d : ℕ) : Prop :=
  s.procs d ≠ .idle ∧ s.procs d ≠ .claim ∧ s.store.holder ≠ some d

-- What a step may do to a recorded outcome: only a retry changes a settled state,
-- a displaced delivery writes nothing of the result, and a report that the message
-- cannot be sent leaves the row of a claimed or finished job alone.
structure OutcomeKept (s : JobSystem) (e : JobEvent) (s' : JobSystem) : Prop where
  settled : s.store.row.state.unfinished = false → (∀ text, e ≠ .requeue_failed text) →
    s'.store.row.state = s.store.row.state
  displaced : ∀ d choice, e = .go d choice → Displaced s d →
    s'.store.row.state = s.store.row.state ∧ s'.store.row.stats = s.store.row.stats ∧
      s'.store.row.error_message = s.store.row.error_message
  unsendable : ∀ loop reason, e = .on_unsendable loop reason → s.store.row.state.unstarted = false →
    s'.store.row = s.store.row

-- The property in every state of every run whose steps `Ok` allows.
def OutcomesKept (cfg : Config) (Ok : JobSystem → JobEvent → Prop) : Prop :=
  ∀ s e s', Reach (step cfg) Initial Ok s → Ok s e → step cfg s e = some s' → OutcomeKept s e s'

-- A delivery that writes a result has been granted the claim, and no sweep has taken the
-- job back since. From a loop's fetch of the job to its report nobody claims, cancels or
-- reports it.
def Timely (s : JobSystem) : JobEvent → Prop
  | .go d (.result _) => s.store.holder = some d
  | .on_unsendable loop _ => loop ∈ s.store.fetched
  | _ => True

-- A job that a loop has fetched is still waiting for a worker.
def Waiting (store : JobStore) : Prop := store.fetched ≠ [] → store.row.state.unstarted = true

-- The delivery that holds the claim and executes the job finds it running. Before its claim
-- a delivery holds none.
def Holding (store : JobStore) (d : ℕ) : DeliveryPc → Prop
  | .live _ => store.holder = some d → store.row.state = .running
  | .idle | .claim | .blocked => store.holder ≠ some d
  | .closing | .ended => True

variable {cfg : Config} {s s' : JobSystem} {e : JobEvent} {store store' : JobStore} {d : ℕ}

theorem holding_initial (h : Initial s) : s.Holds Waiting Holding := by
  obtain ⟨hholder, hfetched, hidle⟩ := h
  refine ⟨fun hne => absurd hfetched hne, fun d => ?_⟩
  rw [hidle d]
  show s.store.holder ≠ some d
  rw [hholder]
  exact nofun

theorem running_of_unstarted {state : JobState} (h : state.unstarted = true) :
    state ≠ .running := by
  rintro rfl
  cases h

-- A claim that stays with its delivery, on a row that keeps running.
theorem Holding.mono {p : DeliveryPc} (h : Holding store d p)
    (hholder : store'.holder = store.holder)
    (hrow : store.row.state = .running → store'.row.state = .running) : Holding store' d p := by
  cases p with
  | live at_ => exact fun hd => hrow (h (hholder ▸ hd))
  | idle | claim | blocked => exact fun hd => h (hholder ▸ hd)
  | closing | ended => trivial

-- The claim is another delivery's.
theorem Holding.of_other {p : DeliveryPc} (hd : store.holder ≠ some d) : Holding store d p := by
  cases p with
  | live at_ => exact fun h => absurd h hd
  | idle | claim | blocked => exact hd
  | closing | ended => trivial

-- A statement that grants no claim, on a row that keeps running or waiting.
theorem holding_apply {stmt : JobStmt} {pc : DeliveryPc} (h : s.Holds Waiting Holding)
    (hstmt : stmt ≠ .claim_job)
    (hrunning : s.store.row.state = .running → (s.store.apply d stmt).row.state = .running)
    (hunstarted : s.store.row.state.unstarted = true →
      (s.store.apply d stmt).row.state.unstarted = true)
    (hpc : Holding (s.store.apply d stmt) d pc) :
      Pool.Holds Waiting Holding (s.set d (s.store.apply d stmt) pc) := by
  have hholder : (s.store.apply d stmt).holder = s.store.holder := by
    cases stmt <;> first | rfl | exact absurd rfl hstmt
  have hfetched : (s.store.apply d stmt).fetched = s.store.fetched := by
    cases stmt <;> first | rfl | exact absurd rfl hstmt
  refine Pool.Holds.set h (fun hne => hunstarted (h.1 (hfetched ▸ hne))) hpc fun j _ hj =>
    hj.mono hholder hrunning

theorem holding_claim (h : s.Holds Waiting Holding) (hd : s.store.holder ≠ some d) :
    Pool.Holds Waiting Holding (s.set d (s.store.apply d .claim_job)
      (if s.store.row.state.unstarted then .live s.store.clock else .blocked)) := by
  cases hstate : s.store.row.state.unstarted with
  | true =>
      refine Pool.Holds.set h ?_ ?_ fun j hj _ => .of_other ?_
      · intro hne
        simp [JobStore.apply, hstate] at hne
      · intro _
        simp [JobStore.apply, JobStmt.set, hstate]
      · simpa [JobStore.apply, hstate] using Ne.symm hj
  | false =>
      have hrow : (s.store.apply d .claim_job).row.state = s.store.row.state := by
        simp [JobStore.apply, JobStmt.set, hstate]
      have hholder : (s.store.apply d .claim_job).holder = s.store.holder := by
        simp [JobStore.apply, hstate]
      refine Pool.Holds.set h (fun hne => ?_) ?_ fun j _ hj => hj.mono hholder fun hrunning =>
        hrow.trans hrunning
      · rw [hrow]
        exact h.1 (by simpa [JobStore.apply, hstate] using hne)
      · simpa [Holding, hholder] using hd

theorem holding_go {choice : Choice} {a : DeliveryAct} (h : s.Holds Waiting Holding)
    (hok : Timely s (.go d choice)) (ha : (s.procs d).act s.store.clock choice = some a) :
    Pool.Holds Waiting Holding
      (s.set d (s.store.apply d a.stmt) (a.next (a.stmt.reply (some s.store.row)))) := by
  have hmine := h.2 d
  have hbeat : ∀ pc, Holding s.store d pc →
      Pool.Holds Waiting Holding (s.set d (s.store.apply d .heartbeat_job) pc) :=
    fun pc hpc => holding_apply h (by simp) (by simp [JobStore.apply, JobStmt.set])
      (by simp [JobStore.apply, JobStmt.set])
      (hpc.mono rfl (by simp [JobStore.apply, JobStmt.set]))
  cases hp : s.procs d with
  | idle | ended => cases choice <;> simp [hp, DeliveryPc.act] at ha
  | claim =>
      rw [hp] at hmine
      cases choice <;> simp only [hp, DeliveryPc.act, Option.some.injEq,
        reduceCtorEq] at ha <;> subst ha
      case ok => exact holding_claim h hmine
      all_goals exact holding_apply h (by simp) id id (.of_other hmine)
  | blocked =>
      rw [hp] at hmine
      cases choice <;> simp only [hp, DeliveryPc.act, Option.some.injEq,
        reduceCtorEq] at ha <;> subst ha
      all_goals exact holding_apply h (by simp) id id (.of_other hmine)
  | closing =>
      cases choice <;> simp only [hp, DeliveryPc.act, Option.some.injEq,
        reduceCtorEq] at ha <;> subst ha
      case beat => exact hbeat .closing trivial
      case ok => exact holding_apply h (by simp) id id trivial
  | live at_ =>
      rw [hp] at hmine
      cases choice <;> simp only [hp, DeliveryPc.act, Option.some.injEq,
        reduceCtorEq] at ha <;> subst ha
      case beat => exact hbeat (.live s.store.clock) hmine
      case result stats =>
        -- the claim is this delivery's, so that no other delivery's row has to keep running
        have hrunning : s.store.row.state = .running := hmine hok
        refine Pool.Holds.set h (fun hne => ?_) trivial fun j hj _ => .of_other ?_
        · exact absurd hrunning (running_of_unstarted (h.1 hne))
        · exact fun hother => hj (Option.some.inj (hother.symm.trans hok))
      all_goals exact holding_apply h (by simp) id id trivial

theorem holding_step (h : s.Holds Waiting Holding) (hok : Timely s e)
    (hs : step cfg s e = some s') :
    s'.Holds Waiting Holding := by
  cases e with
  | tick now =>
      simp only [step, Option.ite_none_right_eq_some, Option.some.injEq] at hs
      obtain ⟨-, rfl⟩ := hs
      exact Pool.Holds.store h h.1 fun _ _ hp => hp.mono rfl id
  | deliver d =>
      simp only [step, Option.ite_none_right_eq_some, Option.some.injEq] at hs
      obtain ⟨hidle, rfl⟩ := hs
      have hmine := h.2 d
      rw [hidle] at hmine
      exact Pool.Holds.set h h.1 hmine fun _ _ hj => hj
  | go d choice =>
      obtain ⟨a, ha, rfl⟩ := Option.map_eq_some_iff.mp hs
      exact holding_go h hok ha
  | mark_job_dispatched =>
      cases hs
      refine Pool.Holds.store h (fun hne => ?_) fun _ _ hp =>
        hp.mono rfl (by simp +contextual [JobStore.setRow])
      have hold := h.1 hne
      simp only [JobStore.setRow, Job.mark_job_dispatched_state]
      split
      · rfl
      · exact hold
  | cancel_unstarted_jobs =>
      cases hs
      exact Pool.Holds.store h (fun hne => absurd rfl hne) fun _ _ hp =>
        hp.mono rfl (by simp +contextual [JobState.unstarted])
  | requeue_failed error_contains =>
      cases hs
      have hkeep : ∀ state, s.store.row.state = state → state ≠ .failed →
          (s.store.row.requeue_failed cfg.like error_contains s.store.clock).state = state := by
        intro state hstate hne
        rw [Job.requeue_failed_state, if_neg fun hf => ?_]
        · exact hstate
        · exact hne (hstate.symm.trans (Job.failed_of_retryable hf))
      refine Pool.Holds.store h (fun hne => ?_) fun _ _ hp => hp.mono rfl fun hrow =>
        hkeep _ hrow (by decide)
      have hold := h.1 hne
      show (s.store.row.requeue_failed cfg.like error_contains s.store.clock).state.unstarted = true
      rw [hkeep _ rfl (by rintro hf; rw [hf] at hold; cases hold)]
      exact hold
  | reclaim_expired_leases now =>
      simp only [step, Option.ite_none_right_eq_some, Option.some.injEq] at hs
      obtain ⟨-, rfl⟩ := hs
      cases hstale : s.store.row.staleRunning cfg now with
      | true =>
          have hrunning := Job.running_of_staleRunning hstale
          refine Pool.Holds.store h (fun hne => absurd hrunning (running_of_unstarted (h.1 hne)))
            fun _ _ _ => .of_other ?_
          simp [JobStore.reclaim, hstale]
      | false =>
          refine Pool.Holds.store h (fun hne => ?_) fun _ _ hp =>
            hp.mono (by simp [JobStore.reclaim, hstale]) fun hrow => ?_
          · rcases Job.reclaim_cases cfg now s.store.row with
              ⟨hr, -⟩ | ⟨hr, -⟩ | ⟨-, hr⟩ | ⟨-, -, hr⟩
            · rw [hstale] at hr
              cases hr
            · rw [hstale] at hr
              cases hr
            · simp [JobStore.reclaim, hr, JobState.unstarted]
            · simpa [JobStore.reclaim, hr] using h.1 hne
          · simp only [JobStore.reclaim]
            rw [Job.reclaim_eq_self hstale (by simp [hrow]), hrow]
  | fetch loop =>
      cases hs
      split
      · rename_i hpending
        refine Pool.Holds.store h (fun _ => ?_) fun _ _ hp => hp.mono rfl id
        show s.store.row.state.unstarted = true
        rw [hpending]
        rfl
      · exact h
  | on_unsendable loop reason =>
      cases hs
      have hunstarted := h.1 (List.ne_nil_of_mem hok)
      exact Pool.Holds.store h (fun hne => absurd rfl hne) fun _ _ hp =>
        hp.mono rfl fun hrow => absurd hrow (running_of_unstarted hunstarted)

theorem settled_step (h : s.Holds Waiting Holding) (hok : Timely s e) (hs : step cfg s e = some s')
    (hsettled : s.store.row.state.unfinished = false) (hretry : ∀ text, e ≠ .requeue_failed text) :
    s'.store.row.state = s.store.row.state := by
  have hunstarted := JobState.unstarted_of_settled hsettled
  have hrunning : s.store.row.state ≠ .running := fun hp => by
    simp [hp, JobState.unfinished] at hsettled
  have hdispatched : s.store.row.state ≠ .dispatched := fun hp => by
    simp [hp, JobState.unfinished] at hsettled
  cases e with
  | tick now | deliver d =>
      simp only [step, Option.ite_none_right_eq_some, Option.some.injEq] at hs
      obtain ⟨-, rfl⟩ := hs
      rfl
  | go d choice =>
      obtain ⟨a, ha, rfl⟩ := Option.map_eq_some_iff.mp hs
      rcases DeliveryPc.act_stmt ha with ⟨at_, stats, hd, rfl, -⟩ | ⟨hresult, hreason⟩
      · -- the row of the delivery that holds the claim is running, so it is not settled
        have hmine := h.2 d
        rw [hd] at hmine
        exact absurd (hmine hok) hrunning
      · exact JobStmt.set_settled a.stmt hsettled hresult hreason
  | mark_job_dispatched =>
      cases hs
      exact JobStmt.set_settled .mark_job_dispatched hsettled (by simp) (by simp)
  | cancel_unstarted_jobs =>
      cases hs
      simp [hunstarted]
  | requeue_failed text => exact absurd rfl (hretry text)
  | reclaim_expired_leases now =>
      simp only [step, Option.ite_none_right_eq_some, Option.some.injEq] at hs
      obtain ⟨-, rfl⟩ := hs
      simp only [JobStore.reclaim]
      rw [Job.reclaim_eq_self _ hdispatched]
      simp [Job.staleRunning, hrunning]
  | fetch loop =>
      cases hs
      split <;> rfl
  | on_unsendable loop reason =>
      -- a loop that may report has fetched a job that is still waiting
      have hwaiting := h.1 (List.ne_nil_of_mem hok)
      rw [hunstarted] at hwaiting
      cases hwaiting

-- What a statement of a delivery that does not hold the claim leaves of the outcome.
theorem displaced_step {choice : Choice} (hok : Timely s (.go d choice)) (hd : Displaced s d)
    (hs : step cfg s (.go d choice) = some s') :
    s'.store.row.state = s.store.row.state ∧ s'.store.row.stats = s.store.row.stats ∧
      s'.store.row.error_message = s.store.row.error_message := by
  obtain ⟨hidle, hclaim, hholder⟩ := hd
  obtain ⟨a, ha, rfl⟩ := Option.map_eq_some_iff.mp hs
  have hbeat : ∀ now, (s.store.row.heartbeat_job now).state = s.store.row.state ∧
      (s.store.row.heartbeat_job now).stats = s.store.row.stats ∧
      (s.store.row.heartbeat_job now).error_message = s.store.row.error_message := by
    intro now
    unfold Job.heartbeat_job
    split <;> exact ⟨rfl, rfl, rfl⟩
  cases hp : s.procs d with
  | idle => exact absurd hp hidle
  | claim => exact absurd hp hclaim
  | live at_ =>
      cases choice <;> simp only [hp, DeliveryPc.act, Option.some.injEq,
        reduceCtorEq] at ha <;> subst ha
      case beat => exact hbeat s.store.clock
      case result stats => exact absurd hok hholder
      all_goals exact ⟨rfl, rfl, rfl⟩
  | blocked =>
      cases choice <;> simp only [hp, DeliveryPc.act, Option.some.injEq, reduceCtorEq] at ha <;>
        subst ha <;> exact ⟨rfl, rfl, rfl⟩
  | closing =>
      cases choice <;> simp only [hp, DeliveryPc.act, Option.some.injEq,
        reduceCtorEq] at ha <;> subst ha
      case beat => exact hbeat s.store.clock
      case ok => exact ⟨rfl, rfl, rfl⟩
  | ended => cases choice <;> simp [hp, DeliveryPc.act] at ha

theorem job_outcome_kept (cfg : Config) : OutcomesKept cfg Timely := by
  intro s e s' hr hok hs
  have hheld : s.Holds Waiting Holding :=
    hr.invariant (fun _ => holding_initial) fun _ _ _ _ h hok hs => holding_step h hok hs
  refine ⟨settled_step hheld hok hs, ?_, ?_⟩
  · rintro d choice rfl hd
    exact displaced_step hok hd hs
  · rintro loop reason rfl hstarted
    have hwaiting := hheld.1 (List.ne_nil_of_mem hok)
    rw [hstarted] at hwaiting
    cases hwaiting

def timely (s : JobSystem) : JobEvent → Bool
  | .go d (.result _) => s.store.holder == some d
  | .on_unsendable loop _ => s.store.fetched.contains loop
  | _ => true

theorem of_timely (h : timely s e = true) : Timely s e := by
  unfold timely at h
  split at h
  · simpa [Timely] using h
  · simpa [Timely] using h
  · unfold Timely
    split <;> first | trivial | simp_all

-- Delivery 0 stalls past its lease and is displaced; delivery 1 completes the job while the
-- other one still beats.
theorem job_outcome_kept_displaced : ∃ s at_, Reach (step Config.defaults) Initial Timely s ∧
    s.procs 0 = .live at_ ∧ Displaced s 0 ∧ s.store.row.state = .completed := by
  obtain ⟨s, hr, -, htest⟩ := Reach.replay (step Config.defaults) Initial Timely timely
    (fun _ _ => of_timely)
    (s := ⟨⟨0, .create_job 0 1 0, none, []⟩, fun _ => .idle⟩) ⟨rfl, rfl, fun _ => rfl⟩
    [.fetch 7, .deliver 0, .go 0 .ok, .tick (400 * second),
      .reclaim_expired_leases (400 * second), .deliver 1,
      .go 1 .ok, .go 0 .beat, .go 1 (.result ⟨false, true, 0, none, none⟩), .go 0 .beat]
    (fun s => s.procs 0 = .live (400 * second) ∧ s.store.holder = some 1 ∧
      s.store.row.state = .completed) (by decide)
  obtain ⟨hlive, hholder, hstate⟩ := of_decide_eq_true htest
  refine ⟨s, _, hr, hlive, ⟨?_, ?_, ?_⟩, hstate⟩
  · rw [hlive]
    exact nofun
  · rw [hlive]
    exact nofun
  · rw [hholder]
    exact nofun

-- Delivery 0 stalls past its lease, a sweep takes the job back, delivery 1 claims
-- and completes it, and then delivery 0 reports its own failure over that result.
theorem job_outcome_overwritten : ¬OutcomesKept Config.defaults fun _ _ => True := by
  intro hkept
  let ended (success : Bool) : JobStats := ⟨false, success, 0, none, none⟩
  let s₀ : JobSystem := ⟨⟨0, .create_job 0 1 0, none, []⟩, fun _ => .idle⟩
  let late : JobEvent := .go 0 (.result (ended false))
  obtain ⟨s, hr, -, htest⟩ := Reach.replay (step Config.defaults) Initial (fun _ _ => True)
    (fun _ _ => true) (fun _ _ _ => trivial) (s := s₀) ⟨rfl, rfl, fun _ => rfl⟩
    [.deliver 0, .go 0 .ok, .tick (400 * second),
      .reclaim_expired_leases (400 * second), .deliver 1,
      .go 1 .ok, .go 1 (.result (ended true))]
    (fun s => s.store.row.state == .completed &&
      (step Config.defaults s late).any (·.store.row.state == .failed)) (by decide)
  simp only [Bool.and_eq_true, beq_iff_eq, Option.any_eq_true] at htest
  obtain ⟨hcompleted, s', hs, hfailed⟩ := htest
  have hstate := (hkept s late s' hr trivial hs).settled (by rw [hcompleted]; rfl) (by simp [late])
  rw [hcompleted, hfailed] at hstate
  cases hstate

end Reflowfy.JobSystem
