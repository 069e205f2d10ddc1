import Reflowfy.Lifecycle.States
import Reflowfy.Manager.Settling

namespace Reflowfy.Manager

open Interleaving

def Pending (job_id : JobId) (s : Manager) : Prop :=
  ∃ job ∈ s.store.jobs, job.job_id = job_id ∧ job.state = .pending

def Unfinished (job_id : JobId) (s : Manager) : Prop :=
  ∃ job ∈ s.store.jobs, job.job_id = job_id ∧ job.state.unfinished = true

-- Between the requeue of the failed jobs and the return of the call.
def InCall : Proc → Prop
  | .retry (.reload _) | .retry (.store _ _) => True
  | _ => False

-- A resume that is scheduled or running, up to the end of its loop.
def Resuming : Proc → Prop
  | .resume _ | .drive .resume _ | .settle .resume _ _ _ | .settle (.loop .resume _) _ _ _ => True
  | _ => False

-- A cancel or a forced failure.
def stops : Proc → Bool
  | .request .cancel (.store _) | .request (.fail _) (.store _) => true
  | _ => false

-- The call of task `i` is neither killed nor fails, and nobody stops the execution.
def CallReturns (i : TaskId) (s : Manager) : Event → Prop
  | .crash k => k = i → ¬InCall (s.procs i)
  | .go k choice => (k = i → InCall (s.procs i) → choice.raised = none) ∧ stops (s.procs k) = false
  | _ => True

-- A retry requeues a job and returns. As long as that job has not finished since, the
-- execution is not settled over it, unless a resume will still look. `Later` speaks of
-- the steps behind the requeue only.
def RetryKept (cfg : Config) (Ok Later : Manager → Event → Prop) : Prop :=
  ∀ s₀ s₁ s i error_contains job_id, Reach (step cfg) Initial Ok s₀ →
    s₀.procs i = .retry (.requeue error_contains) →
    (∃ job ∈ s₀.store.jobs, job.job_id = job_id ∧ job.retryable cfg.like error_contains = true) →
    Ok s₀ (.go i .ok) → step cfg s₀ (.go i .ok) = some s₁ →
    Path (step cfg) (fun m e => Ok m e ∧ Later m e ∧ CallReturns i m e ∧ Unfinished job_id m) s₁ s →
    Pending job_id s → ¬InCall (s.procs i) →
    ∀ row, s.store.execution = some row → row.state.terminal = true → ∃ k, Resuming (s.procs k)

-- The writes of 'failed' that come of errors: a run's, a pipeline's that is not in the
-- registry, and a planner's that is taken to be dead.
def WritesError : Proc → Prop
  | .failed (.store _ _) | .resume (.missing_store _ _) | .resume (.recover_store _ _) => True
  | _ => False

def NoError (s : Manager) : Event → Prop
  | .go i _ => ¬WritesError (s.procs i)
  | _ => True

variable {cfg : Config} {s s' : Manager} {e : Event}

def Open (store : Store) : Prop := ∀ row, store.execution = some row → row.state.terminal = false

-- With a job unfinished, nobody settles a running execution.
theorem open_step (hr : Reach (step cfg) Initial Apart s) {job_id : JobId}
    (hjob : Unfinished job_id s)
    (hnoError : NoError s e) (hstops : ∀ i choice, e = .go i choice → stops (s.procs i) = false)
    (h : Open s.store) (hs : step cfg s e = some s') : Open s'.store := by
  intro row' hrow'
  obtain ⟨row, hrow⟩ : ∃ row, s.store.execution = some row := by
    rcases step_execution hs hrow' with hsame | ⟨_, _, _, _, row, _, _, hrow, _⟩
    · exact ⟨row', hsame⟩
    · exact ⟨row, hrow⟩
  rcases step_state hs hrow hrow' with hsame | ⟨i, choice, seen, target, rfl, hw, -, htarget⟩
  · rw [hsame]
    exact h row hrow
  · have hnot := hstops i choice rfl
    have hdrained := settling_drained hr i
    simp only [NoError] at hnoError
    rw [htarget]
    generalize s.procs i = p at hw hnot hdrained hnoError
    unfold Proc.writes at hw
    split at hw <;> cases hw
    case h_1 | h_7 => rfl
    case h_2 | h_4 | h_5 => exact absurd trivial hnoError
    case h_3 =>
      obtain ⟨job, hmem, -, hunfinished⟩ := hjob
      rw [hdrained trivial job hmem] at hunfinished
      cases hunfinished
    case h_6 r =>
      cases r with
      | pause | resume => rfl
      | cancel | fail _ => cases hnot

-- The call will reopen the execution, or the execution is open.
def Reopening (i : TaskId) (s : Manager) : Prop :=
  (∃ requeued, s.procs i = .retry (.reload requeued)) ∨
  (∃ requeued seen, s.procs i = .retry (.store requeued seen) ∧
    seen.state ≠ .running) ∨ Open s.store

theorem reopening_goes {i : TaskId} {choice : Choice} {stmt : Stmt} {p : Proc}
    (hraised : choice.raised = none) (hgoes : Goes cfg i s.store (s.procs i) choice stmt p)
    (h : (∃ requeued, s.procs i = .retry (.reload requeued)) ∨
      ∃ requeued seen, s.procs i = .retry (.store requeued seen) ∧ seen.state ≠ .running) :
    Reopening i (s.set i (stmt.run cfg s.store) p) := by
  rcases h with ⟨requeued, hp⟩ | ⟨requeued, seen, hp, hstate⟩ <;> rw [hp] at hgoes <;> cases hgoes
  case inl.retry_reload seen hrow =>
    by_cases hrunning : seen.state = .running
    · refine .inr (.inr fun row' hrow' => ?_)
      obtain ⟨row, hold, rfl⟩ := Stmt.run_execution cfg s.store _ hrow'
      rw [hrow] at hold
      cases hold
      rw [hrunning]
      rfl
    · exact .inr (.inl ⟨requeued, seen, Pool.set_procs_self .., hrunning⟩)
  case inl.retry_gone hrow =>
    refine .inr (.inr fun row' hrow' => ?_)
    obtain ⟨row, hold, -⟩ := Stmt.run_execution cfg s.store _ hrow'
    rw [hrow] at hold
    cases hold
  case inr.retry_running hrunning => exact absurd hrunning hstate
  case inr.retry_store =>
    refine .inr (.inr fun row' hrow' => ?_)
    obtain ⟨row, -, rfl⟩ := Stmt.run_execution cfg s.store _ hrow'
    rw [Stmt.onExecution_state]
    simp only [Stmt.setsState, updated, if_neg (Ne.symm hstate)]
    rfl
  all_goals
    rename_i hmessage
    rw [hraised] at hmessage
    cases hmessage

theorem reopening_step {i : TaskId} (hr : Reach (step cfg) Initial Apart s) {job_id : JobId}
    (hjob : Unfinished job_id s) (hnoError : NoError s e) (hreturns : CallReturns i s e)
    (h : Reopening i s) (hs : step cfg s e = some s') : Reopening i s' := by
  by_cases hopen : Open s.store
  · refine .inr (.inr (open_step hr hjob hnoError (fun k choice he => ?_) hopen hs))
    subst he
    exact hreturns.2
  · have hcall : InCall (s.procs i) := by
      rcases h with ⟨_, hp⟩ | ⟨_, _, hp, -⟩ | h
      · rw [hp]; trivial
      · rw [hp]; trivial
      · exact absurd h hopen
    by_cases htask : e.task = some i
    · cases e with
      | tick now => cases htask
      | start k entry =>
          cases htask
          obtain ⟨hidle, -⟩ := step_start hs
          rw [hidle] at hcall
          exact hcall.elim
      | go k choice =>
          cases htask
          obtain ⟨stmt, p, hgoes, rfl⟩ := step_goes hs
          refine reopening_goes (hreturns.1 rfl hcall) hgoes ?_
          rcases h with h | h | h
          · exact .inl h
          · exact .inr h
          · exact absurd h hopen
      | crash k =>
          cases htask
          exact absurd hcall (hreturns rfl)
    · rw [Reopening, step_untouched hs htask]
      rcases h with h | h | h
      · exact .inl h
      · exact .inr (.inl h)
      · exact absurd h hopen

theorem retry_kept (cfg : Config) : RetryKept cfg Apart NoError := by
  intro s₀ s₁ s i error_contains job_id hr hp hjob hok hs hpath _ hreturned row hrow hterminal
  have hcall : Reopening i s₁ := by
    obtain ⟨stmt, p, hgoes, rfl⟩ := step_goes hs
    rw [hp] at hgoes
    cases hgoes
    case retry_requeue => exact .inl ⟨_, Pool.set_procs_self ..⟩
    case retry_none hnone =>
      obtain ⟨job, hmem, -, hretryable⟩ := hjob
      rw [List.filter_eq_nil_iff] at hnone
      exact absurd hretryable (hnone job hmem)
    case retry_error hraised => cases hraised
  have hkept := hpath.invariant (I := fun m => Reach (step cfg) Initial Apart m ∧ Reopening i m) ?_
    ⟨hr.step hok hs, hcall⟩
  · rcases hkept.2 with ⟨_, hp⟩ | ⟨_, _, hp, -⟩ | hopen
    · rw [hp] at hreturned
      exact absurd trivial hreturned
    · rw [hp] at hreturned
      exact absurd trivial hreturned
    · rw [hopen row hrow] at hterminal
      cases hterminal
  · rintro m e m' ⟨hm, hreopening⟩ ⟨hok, hnoError, hreturns, hunfinished⟩ hs
    exact ⟨hm.step hok hs, reopening_step hm hunfinished hnoError hreturns hreopening hs⟩

-- One job is planned, sent and failed by its worker; the loop waits for it.
def failedRun : List Event :=
  List.replicate 4 (.go 0 .ok) ++ [.go 0 .slice, .go 0 .ok, .go 0 .plan_end] ++
    List.replicate 23 (.go 0 .ok) ++
    [.start 1 (.deliver 0), .go 1 .ok, .go 1 (.result ⟨false, false, 0, none, none⟩)]

-- The loop has just counted no unfinished job.
def countedRun : List Event := failedRun ++ List.replicate 3 (.go 0 .ok)

instance (job_id : JobId) (s : Manager) : Decidable (Pending job_id s) :=
  inferInstanceAs (Decidable (∃ job ∈ s.store.jobs, job.job_id = job_id ∧ job.state = .pending))

instance : DecidablePred Resuming
  | .resume _ | .drive .resume _ | .settle .resume _ _ _ | .settle (.loop .resume _) _ _ _ =>
      inferInstanceAs (Decidable True)
  | .drive .run _ | .settle (.loop .run _) _ _ _ | .idle | .plan _ _ | .failed _
  | .request _ _ | .retry _
  | .startup _ | .deliver _ _ | .sweep _ | .ended => inferInstanceAs (Decidable False)

-- A step that fails nowhere and stops nobody, while job 0 waits.
def waiting (s : Manager) : Event → Bool
  | .go k .ok => !stops (s.procs k) && decide (Pending 0 s)
  | _ => false

theorem waiting_returns {i : TaskId} (h : waiting s e = true) : CallReturns i s e ∧
    Unfinished 0 s := by
  unfold waiting at h
  split at h
  · simp only [Bool.and_eq_true, Bool.not_eq_true', decide_eq_true_eq] at h
    obtain ⟨hstops, job, hmem, hid, hstate⟩ := h
    exact ⟨⟨fun _ _ => rfl, hstops⟩, job, hmem, hid, by rw [hstate]; rfl⟩
  · cases h

instance : DecidablePred Settles
  | .drive _ pc => match pc with
      | .settle_sync _ _ => inferInstanceAs (Decidable True)
      | .claim | .standby | .not_dispatching | .heartbeat _ | .state _ | .stopping _
      | .reclaim _ _ | .counts _
      | .fetch _ _ | .producer _ _ | .should_stop _ _ _ | .check_heartbeat _ _ _
      | .check_state _ _ _
      | .acquire_token _ _ | .send _ _ | .on_sent _ _ | .on_unsendable _ _ _
      | .execute_job _ _ _ | .sync _
      | .release _ => inferInstanceAs (Decidable False)
  | .settle _ _ _ _ => inferInstanceAs (Decidable True)
  | .idle | .plan _ _ | .failed _ | .resume _ | .request _ _ | .retry _ | .startup _
  | .deliver _ _ | .sweep _
  | .ended => inferInstanceAs (Decidable False)

-- No retry comes to its requeue.
def calm (s : Manager) : Event → Bool
  | .go i _ => match s.procs i with
      | .retry (.requeue _) => false
      | _ => true
  | _ => true

theorem apart_of_calm (h : calm s e = true) : Apart s e := by
  cases e with
  | go i choice =>
      intro error_contains hp
      simp [calm, hp] at h
  | tick | start | crash => trivial

-- None of the tasks that a run from a new record has begun settles it.
theorem apart_of_below {ok : Manager → Event → Bool} {es : List Event} {now : Int} (n : ℕ)
    (hes : es.all (·.task.all (· < n)) = true) (h : replay (step cfg) ok (created now) es = some s)
    (hbelow : Below n (¬Settles ·) s) (hn : 0 < n) : Apart s e := by
  have hnone : ∀ j, ¬Settles (s.procs j) := by
    intro j
    rcases replay_below n hes h hbelow j with hnot | ⟨hle, hp⟩
    · exact hnot
    · rw [hp, created_idle (Nat.lt_of_lt_of_le hn hle)]
      exact not_false
  cases e with
  | go i choice => exact fun _ _ => hnone
  | tick | start | crash => trivial

def errs : Proc → Bool
  | .failed (.store _ _) | .resume (.missing_store _ _) | .resume (.recover_store _ _) => true
  | _ => false

theorem noError_of_errs (h : ∀ i choice, e = .go i choice →
    errs (s.procs i) = false) : NoError s e := by
  cases e with
  | go i choice =>
      intro hwrites
      have herrs := h i choice rfl
      revert hwrites herrs
      generalize s.procs i = p
      unfold WritesError errs
      split <;> simp
  | tick | start | crash => trivial

def undisturbed (s : Manager) (e : Event) : Bool :=
  calm s e && waiting s e && e.task.all fun i => !errs (s.procs i)

theorem of_undisturbed {i : TaskId} (h : undisturbed s e = true) :
    Apart s e ∧ NoError s e ∧ CallReturns i s e ∧ Unfinished 0 s := by
  simp only [undisturbed, Bool.and_eq_true] at h
  obtain ⟨⟨hcalm, hwaiting⟩, herrs⟩ := h
  refine ⟨apart_of_calm hcalm, noError_of_errs fun k choice he => ?_, waiting_returns hwaiting⟩
  subst he
  simpa [Event.task] using herrs

-- The retry lands while the loop waits for the failed job. The loop goes on between two
-- steps of the call, and has the job in its next batch.
theorem retry_kept_waiting : ∃ s₀ s₁ s, Reach (step Config.defaults) Initial Apart s₀ ∧
    s₀.procs 2 = .retry (.requeue none) ∧ Apart s₀ (.go 2 .ok) ∧
      step Config.defaults s₀ (.go 2 .ok) = some s₁ ∧
    Path (step Config.defaults) (fun m e => Apart m e ∧ NoError m e ∧ CallReturns 2 m e ∧
      Unfinished 0 m) s₁ s ∧
    Pending 0 s ∧ s.procs 2 = .ended ∧
      s.procs 0 = .drive .run (.producer ⟨some 0⟩ ⟨[0], 0, none⟩) := by
  let es : List Event := [.go 2 .ok, .go 0 .ok, .go 0 .ok, .go 2 .ok, .go 0 .ok, .go 0 .ok]
  obtain ⟨s₀, hr, hreplay, htest⟩ := Reach.replay (step Config.defaults) Initial Apart calm
    (fun _ _ => apart_of_calm)
    (.inl (fresh_created 0)) (failedRun ++ [.start 2 (.retry none), .go 2 .ok])
    (fun s => decide (s.procs 2 = .retry (.requeue none) ∧ Below 3 (¬Settles ·) s) &&
      (step Config.defaults s (.go 2 .ok)).any fun s₁ =>
          (replay (step Config.defaults) undisturbed s₁ es).any fun s =>
        decide (Pending 0 s ∧ s.procs 2 = .ended ∧
          s.procs 0 = .drive .run (.producer ⟨some 0⟩ ⟨[0], 0, none⟩)))
    (by decide)
  simp only [Bool.and_eq_true, decide_eq_true_eq, Option.any_eq_true _ (step _ _ _)] at htest
  obtain ⟨⟨hp, hbelow⟩, s₁, hs, hafter⟩ := htest
  obtain ⟨s, hpath, -, htest⟩ := Path.replay (step Config.defaults)
    (fun m e => Apart m e ∧ NoError m e ∧ CallReturns 2 m e ∧ Unfinished 0 m) undisturbed
    (fun _ _ => of_undisturbed) es _ hafter
  obtain ⟨hpending, hended, hloop⟩ := of_decide_eq_true htest
  exact ⟨s₀, s₁, s, hr, hp, apart_of_below 3 (by decide) hreplay hbelow (by decide), hs, hpath,
    hpending, hended, hloop⟩

-- The retry requeues the job and leaves it to the loop, since the execution is running;
-- the loop settles the execution as failed.
theorem retry_settled_over : ¬RetryKept Config.defaults (fun _ _ => True) fun _ _ => True := by
  intro hkept
  let es : List Event := List.replicate 2 (.go 2 .ok) ++ List.replicate 6 (.go 0 .ok)
  obtain ⟨s₀, hr, hreplay, htest⟩ := Reach.replay (step Config.defaults) Initial (fun _ _ => True)
    (fun _ _ => true) (fun _ _ _ => trivial) (.inl (fresh_created 0))
    (countedRun ++ [.start 2 (.retry none), .go 2 .ok])
    (fun s => decide (s.procs 2 = .retry (.requeue none)) &&
      (s.store.jobs.any fun job => job.job_id == 0 && job.retryable Config.defaults.like none) &&
      (step Config.defaults s (.go 2 .ok)).any fun s₁ =>
          (replay (step Config.defaults) waiting s₁ es).any fun s =>
        decide (Pending 0 s ∧ s.procs 2 = .ended ∧ Below 3 (¬Resuming ·) s) && s.store.execution.any
          (·.state == .failed)) (by decide)
  simp only [Bool.and_eq_true, decide_eq_true_eq,
    Option.any_eq_true _ (step _ _ _), List.any_eq_true,
    beq_iff_eq] at htest
  obtain ⟨⟨hp, job, hmem, hid, hretryable⟩, s₁, hs, hafter⟩ := htest
  obtain ⟨s, hpath, hreplay', htest⟩ := Path.replay (step Config.defaults)
    (fun m e => True ∧ True ∧ CallReturns 2 m e ∧ Unfinished 0 m) waiting
    (fun _ _ h => ⟨trivial, trivial, waiting_returns h⟩) es _ hafter
  simp only [Bool.and_eq_true, decide_eq_true_eq, Option.any_eq_true, beq_iff_eq] at htest
  obtain ⟨⟨hpending, hended, hbelow⟩, row, hrow, hfailed⟩ := htest
  obtain ⟨k, hk⟩ := hkept s₀ s₁ s 2 none 0 hr hp ⟨job, hmem, hid, hretryable⟩ trivial hs hpath
    hpending (by rw [hended]; exact not_false) row hrow (by rw [hfailed]; rfl)
  rcases replay_below 3 (by decide) hreplay' hbelow k with hnot | ⟨hle, hk'⟩
  · exact hnot hk
  · have hlt : 2 < k := Nat.lt_of_lt_of_le (by decide) hle
    rw [hk', step_untouched hs (by simp [Event.task, Nat.ne_of_lt hlt]),
      replay_untouched 3 (by decide) hle hreplay, created_idle (Nat.zero_lt_of_lt hlt)] at hk
    exact hk

end Reflowfy.Manager
