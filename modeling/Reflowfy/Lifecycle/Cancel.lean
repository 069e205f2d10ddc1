import Reflowfy.Lifecycle.States
import Reflowfy.Manager.Jobs
import Reflowfy.Manager.Phases

namespace Reflowfy.Manager

open Interleaving

-- The execution is cancelled, and every cancel call that wrote so has returned.
def CancelDone (s : Manager) : Prop :=
  (∃ row, s.store.execution = some row ∧ row.state = .cancelled) ∧
    ∀ i, s.procs i ≠ .request .cancel .cancel_unstarted_jobs

-- A planner or a dispatch loop.
def Active : Proc → Prop
  | .plan _ _ | .drive _ _ | .settle (.loop _ _) _ _ _ => True
  | _ => False

-- No job waits for a worker.
def Cleared (store : Store) : Prop := ∀ job ∈ store.jobs, job.state.unstarted = false

def CancelComplete (cfg : Config) (Ok : Manager → Event → Prop) : Prop :=
  ∀ s, Reach (step cfg) Fresh Ok s → CancelDone s → (∀ i, ¬Active (s.procs i)) → Cleared s.store

-- A cancel call that has written the state returns: it is not killed, nor does its
-- second statement fail.
def CancelReturns (s : Manager) : Event → Prop
  | .crash i => s.procs i ≠ .request .cancel .cancel_unstarted_jobs
  | .go i choice => s.procs i = .request .cancel .cancel_unstarted_jobs → choice.raised = none
  | _ => True

-- A planner that may still save jobs or look at the execution's state.
def Checking : Proc → Prop
  | .plan _ (.total _) | .plan _ .mark | .plan _ .stop | .plan _ (.leave _) => False
  | .plan _ _ => True
  | _ => False

-- Whether a task is about to put back to pending a job that no longer waits for a worker.
def requeues (cfg : Config) : Proc → Job → Bool
  | .drive _ (.reclaim _ sweep), job => job.staleRunning cfg sweep &&
      job.attempts < cfg.JOB_MAX_ATTEMPTS
  | .resume .orphans, job => job.state == .running
  | .retry (.requeue error_contains), job => job.retryable cfg.like error_contains
  | _, _ => false

-- What may not happen behind a cancel that has returned: the planner ends with jobs
-- saved that it has not looked at the state after, or jobs are requeued with no planner
-- left to notice.
def Noticed (cfg : Config) (s : Manager) (e : Event) : Prop :=
  CancelDone s → match e with
    | .go i choice =>
        (∀ leased p, s.procs i = .plan leased (.last p) → choice = .ok →
          p.pending = 0 ∧ Cleared s.store) ∧
        (Checking (s.procs i) → choice.raised.isSome → Cleared s.store) ∧
        (¬Checking (s.procs 0) → choice = .ok →
          ∀ job ∈ s.store.jobs, requeues cfg (s.procs i) job = false)
    | .crash i => Checking (s.procs i) → Cleared s.store
    | _ => True

def Tidy (cfg : Config) (s : Manager) (e : Event) : Prop := CancelReturns s e ∧ Noticed cfg s e

variable {cfg : Config} {s s' : Manager} {e : Event} {Ok : Manager → Event → Prop}

theorem requeues_of_goes {i : TaskId} {store : Store} {p p' : Proc} {choice : Choice} {stmt : Stmt}
    {job : Job} (h : Goes cfg i store p choice stmt p') (hrequeues : stmt.requeues cfg job = true) :
    choice = .ok ∧ requeues cfg p job = true := by
  cases h
  case reclaim | orphans | retry_requeue | retry_none => exact ⟨rfl, hrequeues⟩
  all_goals cases hrequeues

-- Only a cancel call writes 'cancelled', and its next step sweeps the jobs.
theorem cancels_of_goes {i : TaskId} {store : Store} {p p' : Proc} {choice : Choice} {stmt : Stmt}
    {seen : Execution} (h : Goes cfg i store p choice stmt p') (hsound : p.Sound)
    (hsets : stmt.setsState = some (seen, .cancelled)) :
      p' = .request .cancel .cancel_unstarted_jobs := by
  cases h
  case cancel => rfl
  case settle_store | settle_store_resume =>
    cases hsets
    rcases hsound with h | h <;> cases h
  all_goals cases hsets

theorem cleared_cancel (store : Store) : Cleared (Stmt.run cfg store .cancel_unstarted_jobs) := by
  intro job' hjob'
  rcases Stmt.mem_run_jobs hjob' with ⟨job, -, rfl⟩ | ⟨-, hnew⟩
  · simp only [Stmt.onJob, Job.cancel_unstarted_jobs_state]
    cases hstate : job.state.unstarted
    · rw [if_neg (by simp), hstate]
    · rfl
  · cases hnew

theorem cleared_run {store : Store} {stmt : Stmt} (h : Cleared store)
    (hrequeues : ∀ job ∈ store.jobs, stmt.requeues cfg job = false)
    (hcreated : stmt.created store.clock = []) :
    Cleared (stmt.run cfg store) := by
  intro job' hjob'
  rcases Stmt.mem_run_jobs hjob' with ⟨job, hjob, rfl⟩ | ⟨-, hnew⟩
  · refine Bool.eq_false_iff.mpr fun hunstarted => ?_
    rcases Stmt.onJob_unstarted hunstarted with hold | hreq
    · rw [h job hjob] at hold
      cases hold
    · rw [hrequeues job hjob] at hreq
      cases hreq
  · rw [hcreated] at hnew
    cases hnew

-- A planner's step: it goes on checking, or leaves nothing behind.
theorem checking_goes {i : TaskId} {store : Store} {p p' : Proc} {choice : Choice} {stmt : Stmt}
    (h : Goes cfg i store p choice stmt p') (hchecking : Checking p) (hrow : store.execution.isSome)
    (hlast : ∀ leased pl, p = .plan leased (.last pl) → choice = .ok →
      pl.pending = 0 ∧ Cleared store)
    (hraised : choice.raised.isSome → Cleared store) : Checking p' ∨
      Cleared (stmt.run cfg store) := by
  cases h
  case plan_beat => exact .inl hchecking
  case plan_flush_refused hnone | plan_last_refused hnone => simp [hnone] at hrow
  case plan_abort => exact .inr (cleared_cancel store)
  case plan_last pl =>
    obtain ⟨hpending, hcleared⟩ := hlast _ pl rfl rfl
    refine .inr (cleared_run hcleared (fun _ _ => rfl) ?_)
    simp [Stmt.created, Planning.rows, hpending]
  case plan_error hchoice =>
    exact .inr (cleared_run (hraised (by rw [hchoice]; rfl)) (fun _ _ => rfl) rfl)
  all_goals first | exact .inl trivial | exact hchecking.elim

theorem cancelDone_go {i : TaskId} {choice : Choice} {stmt : Stmt} {p : Proc}
    (hsound : (s.procs i).Sound) (hgoes : Goes cfg i s.store (s.procs i) choice stmt p)
    (hi : s.procs i ≠ .request .cancel .cancel_unstarted_jobs)
    (h : CancelDone (s.set i (stmt.run cfg s.store) p)) : CancelDone s := by
  obtain ⟨⟨row', hrow', hstate⟩, hnone⟩ := h
  refine ⟨?_, fun j hj => ?_⟩
  · obtain ⟨row, hrow, rfl⟩ := Stmt.run_execution cfg s.store stmt hrow'
    refine ⟨row, hrow, ?_⟩
    rw [Stmt.onExecution_state] at hstate
    cases hsets : stmt.setsState with
    | none => simpa [hsets] using hstate
    | some write =>
        obtain ⟨seen, target⟩ := write
        simp only [hsets, updated] at hstate
        split at hstate
        · exact hstate
        · subst hstate
          refine absurd ?_ (hnone i)
          rw [Pool.set_procs_self]
          exact cancels_of_goes hgoes hsound hsets
  · refine hnone j ?_
    rw [Pool.set_procs_of_ne s _ p fun hji => hi (by rw [← hji, hj])]
    exact hj

-- A task is replaced by one that is no cancel call on its way to the sweep.
theorem cancelDone_set {i : TaskId} {p : Proc}
    (hi : s.procs i ≠ .request .cancel .cancel_unstarted_jobs)
    (h : CancelDone (s.set i s.store p)) : CancelDone s := by
  refine ⟨h.1, fun j hj => h.2 j ?_⟩
  rw [Pool.set_procs_of_ne s _ p fun hji => hi (by rw [← hji, hj])]
  exact hj

def CancelInv (s : Manager) : Prop := CancelDone s → Checking (s.procs 0) ∨ Cleared s.store

theorem checking_task (hr : Reach (step cfg) Fresh Ok s) {i : TaskId}
    (h : Checking (s.procs i)) : i = 0 := by
  have hphase := (phase_reach (hr.mono (fun _ h => .inl h) fun _ _ h => h)).2 i
  generalize s.procs i = p at h hphase
  cases p
  case plan leased pc => cases pc <;> exact hphase.1
  all_goals exact h.elim

theorem cancelInv_go {i : TaskId} {choice : Choice} {stmt : Stmt} {p : Proc}
    (hr : Reach (step cfg) Fresh (Tidy cfg) s) (h : CancelInv s) (hok : Tidy cfg s (.go i choice))
    (hgoes : Goes cfg i s.store (s.procs i) choice stmt p) :
    CancelInv (s.set i (stmt.run cfg s.store) p) := by
  intro hdone
  by_cases hi : s.procs i = .request .cancel .cancel_unstarted_jobs
  · have hnone := hok.1 hi
    rw [hi] at hgoes
    cases hgoes
    case request_cancel => exact .inr (cleared_cancel s.store)
    case request_error hraised =>
      rw [hnone] at hraised
      cases hraised
  · have hbefore := cancelDone_go
      (sound_reach (hr.mono (fun _ h => .inl h) fun _ _ h => h) i) hgoes hi hdone
    obtain ⟨hlast, hraised, hrequeues⟩ := hok.2 hbefore
    obtain ⟨row, hrow, -⟩ := hbefore.1
    by_cases hchecking : Checking (s.procs 0)
    · by_cases hzero : i = 0
      · subst hzero
        rw [Pool.set_procs_self]
        exact checking_goes hgoes hchecking (by simp [hrow]) hlast (hraised hchecking)
      · rw [Pool.set_procs_of_ne s _ p (Ne.symm hzero)]
        exact .inl hchecking
    · have hcleared := (h hbefore).resolve_left hchecking
      refine .inr (cleared_run hcleared (fun job hjob => ?_) ?_)
      · refine Bool.eq_false_iff.mpr fun hreq => ?_
        obtain ⟨hchoice, hreq⟩ := requeues_of_goes hgoes hreq
        rw [hrequeues hchecking hchoice job hjob] at hreq
        cases hreq
      · refine Stmt.created_of_ne fun rows hstmt => ?_
        subst hstmt
        -- a planner that saves jobs is still checking
        obtain ⟨leased, pl, -, hp⟩ := hgoes.creates
        have hplan : Checking (s.procs i) := by rcases hp with hp | hp <;> rw [hp] <;> trivial
        have hzero := checking_task hr hplan
        subst hzero
        exact hchecking hplan

theorem cancelInv_step (hr : Reach (step cfg) Fresh (Tidy cfg) s) (h : CancelInv s)
    (hok : Tidy cfg s e) (hs : step cfg s e = some s') : CancelInv s' := by
  have hset : ∀ i p, s.procs i ≠ .request .cancel .cancel_unstarted_jobs →
      (CancelDone s → Checking (s.procs i) → Cleared s.store) → CancelInv (s.set i s.store p) := by
    intro i p hi hleft hdone
    have hbefore := cancelDone_set hi hdone
    rcases h hbefore with hchecking | hcleared
    · by_cases hzero : i = 0
      · subst hzero
        exact .inr (hleft hbefore hchecking)
      · rw [Pool.set_procs_of_ne s _ p (Ne.symm hzero)]
        exact .inl hchecking
    · exact .inr hcleared
  cases e with
  | tick now =>
      obtain ⟨-, rfl⟩ := step_tick hs
      exact h
  | start i entry =>
      obtain ⟨hidle, p, -, rfl⟩ := step_start hs
      refine hset i p (by simp [hidle]) fun _ hchecking => ?_
      rw [hidle] at hchecking
      exact hchecking.elim
  | go i choice =>
      obtain ⟨stmt, p, hgoes, rfl⟩ := step_goes hs
      exact cancelInv_go hr h hok hgoes
  | crash i =>
      cases hs
      exact hset i .ended hok.1 fun hdone => hok.2 hdone

theorem cancel_complete (cfg : Config) : CancelComplete cfg (Tidy cfg) := by
  intro s hr hdone hactive
  have hinv := hr.invariant (I := CancelInv) (fun s hs hdone => ?_)
    fun s e s' hr h hok hs => cancelInv_step hr h hok hs
  · rcases hinv hdone with hchecking | hcleared
    · refine absurd ?_ (hactive 0)
      generalize s.procs 0 = p at hchecking
      cases p
      case plan => trivial
      all_goals exact hchecking.elim
    · exact hcleared
  · obtain ⟨⟨row, hrow, hstate⟩, -⟩ := hdone
    rw [hs.1] at hrow
    cases hrow
    cases hstate

-- Nothing dies, and nothing is raised.
def noError : Event → Bool
  | .crash _ => false
  | .go _ choice => choice.raised.isNone
  | _ => true

theorem cancelReturns_of_noError (h : noError e = true) : CancelReturns s e := by
  cases e with
  | tick | start => trivial
  | go i choice => exact fun _ => Option.isNone_iff_eq_none.mp h
  | crash i => cases h

-- The two tasks of a run from a new record have ended.
theorem ended_or_idle {ok : Manager → Event → Bool} {es : List Event}
    (h : replay (step cfg) ok (created 0) es = some s)
    (hes : es.all (·.task.all (· < 2)) = true) (hended : Below 2 (· = .ended) s) (i : TaskId) :
    s.procs i = .ended ∨ s.procs i = .idle := by
  rcases replay_below 2 hes h hended i with hp | ⟨hle, hp⟩
  · exact .inl hp
  · exact .inr (hp.trans (created_idle (Nat.lt_of_lt_of_le (by decide) hle)))

instance : DecidablePred Checking
  | .plan _ pc => match pc with
      | .total _ | .mark | .stop | .leave _ => inferInstanceAs (Decidable False)
      | .lease | .resolve | .load | .store _ | .next _ | .check _ | .abort | .flush _ | .last _ =>
          inferInstanceAs (Decidable True)
  | .idle | .failed _ | .drive _ _ | .settle _ _ _ _ | .resume _ | .request _ _
  | .retry _ | .startup _
  | .deliver _ _ | .sweep _ | .ended => inferInstanceAs (Decidable False)

-- Behind the cancel no plan ends, and nothing is requeued unless the planner will still look.
def tidy (cfg : Config) (s : Manager) (e : Event) : Bool :=
  noError e && (s.store.execution.all (·.state != .cancelled) || match e with
    | .go i _ => (match s.procs i with
        | .plan _ (.last _) => false
        | _ => true) &&
      (decide (Checking (s.procs 0)) || s.store.jobs.all fun job => !requeues cfg (s.procs i) job)
    | _ => true)

theorem of_tidy (h : tidy cfg s e = true) : Tidy cfg s e := by
  simp only [tidy, Bool.and_eq_true, Bool.or_eq_true] at h
  refine ⟨cancelReturns_of_noError h.1, fun ⟨⟨row, hrow, hstate⟩, _⟩ => ?_⟩
  have hquiet := h.2.resolve_left (by simp [hrow, hstate])
  cases e with
  | tick | start => trivial
  | crash i => cases h.1
  | go i choice =>
      simp only [Bool.and_eq_true, Bool.or_eq_true, decide_eq_true_eq, List.all_eq_true,
        Bool.not_eq_true'] at hquiet
      refine ⟨fun leased p hp _ => ?_, fun _ hraised => ?_, fun hnot _ =>
        hquiet.2.resolve_left hnot⟩
      · simp [hp] at hquiet
      · have hnone : choice.raised = none := Option.isNone_iff_eq_none.mp h.1
        simp [hnone] at hraised

-- Every job is saved at once.
def oneByOne : Config := { Config.defaults with CHECKPOINT_BATCH_SIZE := 1 }

-- The cancel lands between the planner's look at the state and the save of the batch, and
-- returns. The planner looks again a second later, and cancels the job it has saved behind it.
theorem cancel_complete_planning :
    ∃ s, Reach (step oneByOne) Fresh (Tidy oneByOne) s ∧ CancelDone s ∧
    (∀ i, ¬Active (s.procs i)) ∧ s.store.jobs.map (·.state) = [.cancelled] := by
  obtain ⟨s, hr, hreplay, htest⟩ := Reach.replay (step oneByOne) Fresh
    (Tidy oneByOne) (tidy oneByOne)
    (fun _ _ => of_tidy) (fresh_created 0)
    ([.go 0 .ok, .go 0 .ok, .go 0 .ok, .go 0 .ok, .go 0 .slice, .go 0 .ok,
      .start 1 (.request .cancel), .go 1 .ok, .go 1 .ok, .go 1 .ok, .go 0 .ok,
        .tick second, .go 0 .slice,
      .go 0 .ok, .go 0 .ok, .go 0 .ok])
    (fun s => s.store.execution.any (·.state == .cancelled) &&
      decide (Below 2 (· = .ended) s ∧ s.store.jobs.map (·.state) = [.cancelled])) (by decide)
  simp only [Bool.and_eq_true, Option.any_eq_true, beq_iff_eq, decide_eq_true_eq] at htest
  obtain ⟨⟨row, hrow, hcancelled⟩, hended, hjobs⟩ := htest
  have hprocs := ended_or_idle hreplay (by decide) hended
  refine ⟨s, hr, ⟨⟨row, hrow, hcancelled⟩, fun i h => ?_⟩, fun i h => ?_, hjobs⟩
  · rcases hprocs i with hp | hp <;> rw [hp] at h <;> cases h
  · rcases hprocs i with hp | hp <;> rw [hp] at h <;> exact h

-- The cancel lands and returns between the planner's last look at the state and the end
-- of the plan: the last batch is saved behind it, and the loop that would have sent it
-- stops at once.
theorem cancel_leaves_pending : ¬CancelComplete Config.defaults CancelReturns := by
  intro hcomplete
  obtain ⟨s, hr, hreplay, htest⟩ := Reach.replay (step Config.defaults) Fresh CancelReturns
    (fun _ e => noError e) (fun _ _ he => cancelReturns_of_noError he) (fresh_created 0)
    [.go 0 .ok, .go 0 .ok, .go 0 .ok, .go 0 .ok, .go 0 .slice, .go 0 .ok,
      .start 1 (.request .cancel), .go 1 .ok, .go 1 .ok, .go 1 .ok,
      .go 0 .plan_end, .go 0 .ok, .go 0 .ok, .go 0 .ok, .go 0 .ok,
      .go 0 .ok, .go 0 .ok, .go 0 .ok, .go 0 .ok, .go 0 .ok]
    (fun s => s.store.execution.any (·.state == .cancelled) && decide (Below 2 (· = .ended) s) &&
      s.store.jobs.any (·.state == .pending)) (by decide)
  simp only [Bool.and_eq_true, Option.any_eq_true, List.any_eq_true, beq_iff_eq,
    decide_eq_true_eq] at htest
  obtain ⟨⟨⟨row, hrow, hcancelled⟩, hended⟩, job, hjob, hpending⟩ := htest
  have hprocs := ended_or_idle hreplay (by decide) hended
  have hcleared := hcomplete s hr ⟨⟨row, hrow, hcancelled⟩, fun i h => ?_⟩ fun i h => ?_
  · have hnone := hcleared job hjob
    rw [hpending] at hnone
    cases hnone
  · rcases hprocs i with hp | hp <;> rw [hp] at h <;> cases h
  · rcases hprocs i with hp | hp <;> rw [hp] at h <;> exact h

end Reflowfy.Manager
