import Reflowfy.Manager.Locals
import Reflowfy.Manager.Phases

namespace Reflowfy

open Interleaving ExecutionState

-- The statement of a step was executed and its reply used.
def Choice.reads : Choice → Bool
  | .ok | .missing _ => true
  | _ => false

-- What a task's check asks of the row it reads, where the task stands before one.
def Proc.finds : Proc → Execution → Bool
  | .plan _ (.check _), seen => seen.state ≠ .cancelled ∧ seen.state ≠ .failed
  | .drive _ .standby, seen | .drive _ (.state _), seen
  | .drive _ (.check_state _ _ _), seen => seen.state == .running
  | .resume .load, seen => !seen.state.terminal
  | .resume .recover, seen => seen.pausable
  | .request r .load, seen => r.admits seen
  | .retry (.load _), seen => seen.state != .paused
  | _, _ => false

-- The states that the next write of a task may come after: a planner's move neither
-- after a settled one nor after a pause, a retry's reopen not after a pause, any other
-- not after a settled one.
def Proc.follows : Proc → ExecutionState → Bool
  | .plan _ .lease, state | .plan _ .resolve, state | .plan _ .load, state
  | .plan _ (.store _), state => !state.terminal && state != .paused
  | .plan _ _, state | .failed _, state | .drive _ _, state
  | .settle _ _ _ _, state => !state.terminal
  | .resume .load, _ => true
  | .resume _, state => !state.terminal
  | .request _ (.store _), state => !state.terminal
  | .retry (.load _), _ => true
  | .retry _, state => state != .paused
  | _, _ => true

section Looks

variable {cfg : Config} {i : TaskId} {store : Store} {p p' : Proc} {choice : Choice}
    {stmt : Stmt} {row : Execution}

theorem admits_follows {r : Request} {seen : Execution} (h : r.admits seen = true) :
    (Proc.request r (.store seen)).follows seen.state = true := by
  cases r <;> simp only [Request.admits, Execution.pausable, Bool.or_eq_true, beq_iff_eq] at h
  case pause => rcases h with h | h <;> rw [h] <;> rfl
  case resume => rw [h]; rfl
  case cancel | fail => exact h

theorem plan_follows {leased : Bool} {pc : PlanPc} {state : ExecutionState}
    (h : (Proc.plan leased pc).follows state = true) : (!state.terminal) = true := by
  cases pc
  case lease | resolve | load | store => exact (Bool.and_eq_true _ _ ▸ h).1
  all_goals exact h

theorem not_terminal_of_pausable (h : row.pausable = true) : (!row.state.terminal) = true := by
  rcases Bool.or_eq_true _ _ |>.mp h with h | h <;> rw [beq_iff_eq.mp h] <;> rfl

-- While the row keeps its state, what a task may write over stays so.
theorem Goes.follows (h : Goes cfg i store p choice stmt p') (hrow : store.execution = some row)
    (hp : p.follows row.state = true) : p'.follows row.state = true := by
  cases h
  case request_load seen hseen hadmits =>
    rw [hrow] at hseen
    cases hseen
    exact admits_follows hadmits
  case missing seen hseen hstate | resume_recover seen hseen hstate _ |
      resume_load seen hseen hstate _ =>
    rw [hrow] at hseen
    cases hseen
    simp [Proc.follows, hstate]
  case retry_load seen hseen hstate =>
    rw [hrow] at hseen
    cases hseen
    simpa [Proc.follows] using hstate
  case recover_planned seen hseen hstate _ =>
    rw [hrow] at hseen
    cases hseen
    exact not_terminal_of_pausable hstate
  all_goals
    first
    | rfl
    | exact hp
    | exact plan_follows hp

theorem not_reads_of_raised {message : String} (h : choice.raised = some message) :
    choice.reads = false := by
  cases choice <;> first | rfl | cases h

-- A check that succeeds leads where a write may come after the state it read.
theorem Goes.found (h : Goes cfg i store p choice stmt p') (hrow : store.execution = some row)
    (hreads : choice.reads = true) (hfinds : p.finds row = true)
    (hcompleted : ∀ leased pc, p = .plan leased pc → row.state ≠ .completed) :
    p'.follows row.state = true := by
  cases h
  case plan_beat | drive_error | not_dispatching_error | settle_error | claim_db_error |
    standby_db_error |
      drive_db_error | settle_db_error => cases hreads
  case plan_error =>
    rw [not_reads_of_raised ‹_›] at hreads
    cases hreads
  case plan_check hstate | plan_check_full hstate =>
    have hnot := hcompleted _ _ rfl
    obtain ⟨hcancelled, hfailed⟩ := hstate row hrow
    cases hs : row.state <;> first | rfl | exact absurd hs ‹_›
  case plan_check_abort seen hseen hstate =>
    rw [hrow] at hseen
    cases hseen
    rcases hstate with hstate | hstate <;> simp [Proc.finds, hstate] at hfinds
  case standby | state_reclaim | state_counts | check_state_token | check_state_send |
      standby_stop | state_stop | check_state_stop =>
    rw [beq_iff_eq.mp hfinds]
    rfl
  case recover_planned | recover_old | recover_young => exact not_terminal_of_pausable hfinds
  case request_load seen hseen hadmits =>
    rw [hrow] at hseen
    cases hseen
    exact admits_follows hadmits
  case missing | resume_recover | resume_load | retry_load => exact hfinds
  all_goals
    first
    | rfl
    | cases hfinds

theorem Entry.follows {entry : Entry} (h : entry.proc cfg store = some p)
    (state : ExecutionState) : p.follows state = true := by
  rcases Entry.cases h with ⟨r, rfl⟩ | ⟨_, rfl⟩ | rfl | ⟨_, -, rfl⟩ | ⟨_, rfl⟩ <;> rfl

end Looks

namespace Manager

-- For each task, the states that any task has brought the execution to since that task
-- last read the row and went on, or since the record was created.
abbrev Since := TaskId → List ExecutionState

def looks (s : Manager) (e : Event) (i : TaskId) : Bool :=
  match e with
  | .go j choice => i == j && choice.reads && s.store.execution.any (s.procs j).finds
  | _ => false

def written (s s' : Manager) : List ExecutionState :=
  match s.store.execution, s'.store.execution with
  | some row, some row' => if row'.state = row.state then [] else [row'.state]
  | _, _ => []

def since (x : Manager × Since) (e : Event) (s' : Manager) : Since := fun i =>
  written x.1 s' ++ if looks x.1 e i then [] else x.2 i

def watched (cfg : Config) : Manager × Since → Event → Option (Manager × Since) :=
  noted (step cfg) since

def Opened (x : Manager × Since) : Prop := Initial x.1 ∧ x.2 = fun _ => []

-- Between a task's check of the state and its write no other state was written that the
-- write must not come after.
def LooksHold (x : Manager × Since) : Event → Prop
  | .go i _ => ∀ seen target, (x.1.procs i).writes = some (seen, target) → target ≠ seen.state →
      ∀ state ∈ x.2 i, (x.1.procs i).follows state = true
  | _ => True

def Reopens (s : Manager) (e : Event) : Prop :=
  ∃ i choice requeued seen, e = .go i choice ∧ s.procs i = .retry (.store requeued seen)

def Resumes (s : Manager) (e : Event) : Prop :=
  ∃ i choice seen, e = .go i choice ∧ s.procs i = .request .resume (.store seen)

-- A settled execution changes state only when a retry reopens it, and a paused one
-- runs again only through a resume.
structure StateKept (s : Manager) (e : Event) (s' : Manager) : Prop where
  terminal : ∀ row row', s.store.execution = some row → s'.store.execution = some row' →
    row.state.terminal = true → ¬Reopens s e → row'.state = row.state
  paused : ∀ row row', s.store.execution = some row → s'.store.execution = some row' →
    row.state = .paused → row'.state = .running → Resumes s e

def StatesKept (cfg : Config) (Ok : Manager × Since → Event → Prop) : Prop :=
  ∀ x e x', Reach (watched cfg) Opened Ok x → Ok x e → watched cfg x e = some x' →
    StateKept x.1 e x'.1

-- Every run of the manager is one that is watched.
theorem watched_of_reach {cfg : Config} {s : Manager}
    (hr : Reach (step cfg) Initial (fun _ _ => True) s) :
    ∃ n, Reach (watched cfg) Opened (fun _ _ => True) (s, n) :=
  hr.noted

variable {cfg : Config} {s s' : Manager} {e : Event} {Ok : Manager × Since → Event → Prop}

theorem reach_of_watched {x : Manager × Since} (hr : Reach (watched cfg) Opened Ok x) :
    Reach (step cfg) Initial (fun _ _ => True) x.1 :=
  Reach.forget (fun _ h => h.1) (fun _ _ _ => trivial) hr

-- Only the end of a loop or of a resume writes 'completed'.
theorem settles_planned {i : TaskId} {seen : Execution} {Ok : Manager → Event → Prop}
    (hr : Reach (step cfg) Initial Ok s) (hw : (s.procs i).writes = some (seen, .completed)) :
    s.store.Planned := by
  have hphase := (phase_reach hr).2 i
  unfold Proc.writes at hw
  split at hw <;> simp only [Option.some.injEq, Prod.mk.injEq, reduceCtorEq, and_false] at hw
  case h_3 hp =>
    rw [hp] at hphase
    exact hphase
  case h_6 r _ _ => cases r <;> cases hw.2

-- A completed execution has a complete plan: nothing settles one that is still planned.
theorem completed_preserved (cfg : Config) (Ok : Manager → Event → Prop) :
    Preserved cfg Initial Ok (fun store => ∀ row, store.execution = some row →
      row.state = .completed →
      store.Planned) fun _ _ _ => True where
  init s hs := by
    refine ⟨fun row hrow hstate => ?_, fun _ => trivial⟩
    rcases hs with ⟨hcreated, -⟩ | ⟨⟨row', hrow', hplan, -⟩, -⟩
    · rw [hrow] at hcreated
      cases hcreated
      cases hstate
    · exact planned_of_row hrow' (by simp [hplan])
  tick _ _ hs _ _ := ⟨hs.1, fun _ _ => trivial⟩
  start _ _ _ _ _ _ _ := trivial
  crash _ _ := trivial
  go s i choice stmt p hr hs _ hgoes := by
    refine ⟨fun row' hrow' hstate => planned_run ?_, trivial, fun _ _ _ => trivial⟩
    obtain ⟨row, hrow, rfl⟩ := Stmt.run_execution cfg s.store stmt hrow'
    rw [Stmt.onExecution_state] at hstate
    rcases hgoes.setsState with hnone | hwrites
    · rw [hnone] at hstate
      exact hs.1 row hrow hstate
    · cases hw : (s.procs i).writes with
      | none =>
          rw [hwrites, hw] at hstate
          exact hs.1 row hrow hstate
      | some write =>
          obtain ⟨seen, target⟩ := write
          rw [hwrites, hw] at hstate
          simp only [updated] at hstate
          split at hstate
          · exact hs.1 row hrow hstate
          · subst hstate
            exact settles_planned hr hw

theorem mem_since_of_written {x : Manager × Since} {state : ExecutionState} (i : TaskId)
    (h : state ∈ written x.1 s') : state ∈ since x e s' i :=
  List.mem_append_left _ h

theorem written_of_ne {row row' : Execution} (hrow : s.store.execution = some row)
    (hrow' : s'.store.execution = some row') (hne : row'.state ≠ row.state) :
      row'.state ∈ written s s' := by
  simp [written, hrow, hrow', hne]

-- The state of the row was written since a task's last look at it, or is one the task
-- may write after.
def Vouched (x : Manager × Since) : Prop :=
  ∀ i row, x.1.store.execution = some row → row.state ∈ x.2 i ∨
    (x.1.procs i).follows row.state = true

theorem vouched_initial {x : Manager × Since} (h : Opened x) : Vouched x := by
  intro i row hrow
  rcases h.1 with ⟨hcreated, -, -, -, hplan, hidle⟩ | ⟨-, -, -, hidle⟩
  · rw [hrow] at hcreated
    cases hcreated
    refine .inr ?_
    by_cases hi : i = 0
    · subst hi
      rw [hplan]
      rfl
    · rw [hidle i hi]
      rfl
  · refine .inr ?_
    rw [hidle i]
    rfl

theorem not_completed_of_plan (hr : Reach (step cfg) Initial (fun _ _ => True) s)
    {i : TaskId} {row : Execution}
    (hrow : s.store.execution = some row) (hfinds : (s.procs i).finds row = true) :
    ∀ leased pc, s.procs i = .plan leased pc → row.state ≠ .completed := by
  intro leased pc hp hstate
  have hplanned := ((completed_preserved cfg _).reach hr).1 row hrow hstate
  have hphase := (phase_reach hr).2 i
  rw [hp] at hfinds hphase
  cases pc <;> first | cases hfinds | exact hplanned row hrow (hphase.2 row hrow)

theorem go_of_looks {i : TaskId} {row : Execution} (hrow : s.store.execution = some row)
    (h : looks s e i = true) :
    ∃ choice, e = .go i choice ∧ choice.reads = true ∧ (s.procs i).finds row = true := by
  cases e <;> simp only [looks, Bool.false_eq_true, Bool.and_eq_true, beq_iff_eq, hrow,
    Option.any_some] at h
  case go j choice =>
    obtain ⟨⟨rfl, hreads⟩, hfinds⟩ := h
    exact ⟨choice, rfl, hreads, hfinds⟩

theorem vouched_step {x x' : Manager × Since} (hr : Reach (step cfg) Initial (fun _ _ => True) x.1)
    (hx : Vouched x) (hs : watched cfg x e = some x') : Vouched x' := by
  obtain ⟨hstep, hsince⟩ := noted_some hs
  intro i row' hrow'
  rw [hsince]
  obtain ⟨row, hrow⟩ : ∃ row, x.1.store.execution = some row := by
    rcases step_execution hstep hrow' with hsame | ⟨_, _, _, _, row, -, -, hrow, -⟩
    · exact ⟨row', hsame⟩
    · exact ⟨row, hrow⟩
  by_cases hne : row'.state = row.state
  · rw [hne]
    by_cases hlooks : looks x.1 e i = true
    · obtain ⟨choice, rfl, hreads, hfinds⟩ := go_of_looks hrow hlooks
      obtain ⟨stmt, p, hgoes, hset⟩ := step_goes hstep
      rw [hset, Pool.set_procs_self]
      exact .inr (hgoes.found hrow hreads hfinds (not_completed_of_plan hr hrow hfinds))
    · rcases hx i row hrow with hmem | hfollows
      · refine .inl (List.mem_append_right _ ?_)
        rwa [if_neg hlooks]
      · refine .inr ?_
        rcases step_proc hstep i with hsame | hended | ⟨entry, hentry⟩ | ⟨choice, stmt, -, hgoes, -⟩
        · rwa [hsame]
        · rw [hended]
          rfl
        · exact Entry.follows hentry _
        · exact hgoes.follows hrow hfollows
  · exact .inl (mem_since_of_written i (written_of_ne hrow hrow' hne))

theorem vouched_reach {x : Manager × Since} (hr : Reach (watched cfg) Opened Ok x) : Vouched x :=
  hr.invariant (fun _ => vouched_initial) fun _ _ _ hm hx _ hs =>
    vouched_step (reach_of_watched hm) hx hs

-- What a task may write over is no settled execution, unless the task is the retry that
-- reopens it.
theorem terminal_of_follows {p : Proc} {seen : Execution} {target state : ExecutionState}
    (hw : p.writes = some (seen, target)) (hf : p.follows state = true) :
    state.terminal = false ∨ ∃ requeued, p = .retry (.store requeued seen) := by
  unfold Proc.writes at hw
  split at hw <;> cases hw
  case h_1 => exact .inl (by simpa using plan_follows hf)
  case h_7 requeued => exact .inr ⟨requeued, rfl⟩
  all_goals exact .inl (by simpa [Proc.follows] using hf)

-- The only writer of 'running' that may come after a pause is a resume.
theorem resume_of_paused {p : Proc} {seen : Execution} (hw : p.writes = some (seen, .running))
    (hsound : p.Sound) (hf : p.follows .paused = true) : p = .request .resume (.store seen) := by
  unfold Proc.writes at hw
  split at hw <;> simp only [Option.some.injEq, Prod.mk.injEq, reduceCtorEq, and_false] at hw
  case h_1 => cases hf
  case h_3 =>
    obtain ⟨-, rfl⟩ := hw
    rcases hsound with h | h <;> cases h
  case h_6 r _ =>
    obtain ⟨rfl, htarget⟩ := hw
    cases r with
    | resume => rfl
    | pause | cancel | fail _ => cases htarget
  case h_7 => cases hf

theorem follows_of_looksHold {x : Manager × Since} {i : TaskId} {choice : Choice}
    {seen row : Execution}
    {target : ExecutionState} (hx : Vouched x) (hok : LooksHold x (.go i choice))
    (hw : (x.1.procs i).writes = some (seen, target)) (hne : target ≠ seen.state)
    (hrow : x.1.store.execution = some row) : (x.1.procs i).follows row.state = true := by
  rcases hx i row hrow with hmem | hfollows
  · exact hok seen target hw hne row.state hmem
  · exact hfollows

theorem stateKept_step {x x' : Manager × Since} (hr : Reach (watched cfg) Opened Ok x)
    (hok : LooksHold x e) (hs : watched cfg x e = some x') : StateKept x.1 e x'.1 := by
  obtain ⟨hstep, -⟩ := noted_some hs
  constructor
  · intro row row' hrow hrow' hterminal hnot
    rcases step_state hstep hrow hrow' with hsame | ⟨i, choice, seen, target, rfl, hw, hne, -⟩
    · exact hsame
    · have hf := follows_of_looksHold (vouched_reach hr) hok hw hne hrow
      rcases terminal_of_follows hw hf with hopen | ⟨requeued, hp⟩
      · rw [hterminal] at hopen
        cases hopen
      · exact absurd ⟨i, choice, requeued, seen, rfl, hp⟩ hnot
  · intro row row' hrow hrow' hpaused hrunning
    rcases step_state hstep hrow hrow' with hsame | ⟨i, choice, seen, target, rfl, hw, hne, htarget⟩
    · rw [hsame, hpaused] at hrunning
      cases hrunning
    · rw [hrunning] at htarget
      subst htarget
      have hf := follows_of_looksHold (vouched_reach hr) hok hw hne hrow
      rw [hpaused] at hf
      exact ⟨i, choice, seen, rfl, resume_of_paused hw (sound_reach (reach_of_watched hr) i) hf⟩

-- Without a retry's reopen, a settled execution stays as it is to the end of the run.
theorem terminal_path {x x' : Manager × Since} {row : Execution}
    (hr : Reach (watched cfg) Opened LooksHold x)
    (hrow : x.1.store.execution = some row) (hterminal : row.state.terminal = true)
    (hp : Path (watched cfg) (fun x e => LooksHold x e ∧ ¬Reopens x.1 e) x x') :
    ∀ row', x'.1.store.execution = some row' → row'.state = row.state := by
  have hkept := hp.invariant (I := fun m => Reach (watched cfg) Opened LooksHold m ∧
    ∀ row', m.1.store.execution = some row' → row'.state = row.state) ?_ ⟨hr, ?_⟩
  · exact hkept.2
  · rintro m e m' ⟨hm, hsame⟩ ⟨hok, hnot⟩ hs
    refine ⟨hm.step hok hs, fun row' hrow' => ?_⟩
    rcases step_execution (noted_some hs).1 hrow' with
      h | ⟨i, choice, stmt, p, old, rfl, -, hold, -⟩
    · exact hsame row' h
    · have hstate := hsame old hold
      rw [← hstate]
      exact (stateKept_step hm hok hs).terminal old row' hold hrow' (by rw [hstate, hterminal]) hnot
  · intro row' hrow'
    rw [hrow] at hrow'
    cases hrow'
    rfl

theorem execution_states_kept (cfg : Config) :
    StatesKept cfg LooksHold ∧
    ∀ x x' row row', Reach (watched cfg) Opened LooksHold x → x.1.store.execution = some row →
      row.state.terminal = true →
      Path (watched cfg) (fun x e => LooksHold x e ∧ ¬Reopens x.1 e) x x' →
      x'.1.store.execution = some row' → row'.state = row.state :=
  ⟨fun _ _ _ hr hok hs => stateKept_step hr hok hs,
    fun _ _ _ _ hr hrow hterminal hp hrow' => terminal_path hr hrow hterminal hp _ hrow'⟩

-- The record as `create_execution` leaves it, before its planner has done anything.
def created (now : Int) : Manager where
  store := ⟨now, some (.create_execution now), [], [], fun _ => none⟩
  procs i := if i = 0 then .plan false .lease else .idle

theorem fresh_created (now : Int) : Fresh (created now) :=
  ⟨rfl, rfl, rfl, fun _ => rfl, rfl, fun _ hi => if_neg hi⟩

theorem created_idle {now : Int} {i : TaskId} (hi : 0 < i) : (created now).procs i = .idle :=
  if_neg (Nat.ne_of_gt hi)

def planning : Proc → Bool
  | .plan _ _ => true
  | _ => false

def looksHold (x : Manager × Since) : Event → Bool
  | .go i _ => (x.1.procs i).writes.all fun (seen, target) =>
      target = seen.state || (x.2 i).all (x.1.procs i).follows
  | _ => true

theorem of_looksHold {x : Manager × Since} (h : looksHold x e = true) : LooksHold x e := by
  cases e
  case go i choice =>
    intro seen target hw hne state hmem
    simp only [looksHold, hw, Option.all_some, Bool.or_eq_true, decide_eq_true_eq,
      List.all_eq_true] at h
    exact (h.resolve_left hne) state hmem
  all_goals trivial

-- A pause lands between the loop's look at the state and its final write, which comes
-- after it; the cancel that follows finds the execution settled.
theorem execution_states_kept_paused : ∃ x row, Reach (watched Config.defaults) Opened LooksHold x ∧
    x.1.store.execution = some row ∧ row.state = .completed ∧ x.2 1 = [.completed, .paused] := by
  obtain ⟨x, hr, -, htest⟩ := Reach.replay (watched Config.defaults) Opened LooksHold looksHold
    (fun _ _ => of_looksHold) (s := (created 0, fun _ => [])) ⟨.inl (fresh_created 0), rfl⟩
    [.go 0 .ok, .go 0 .ok, .go 0 .ok, .go 0 .ok, .go 0 .plan_end, .go 0 .ok, .go 0 .ok,
      .go 0 .ok, .go 0 .ok,
      .go 0 .ok, .go 0 .ok, .start 1 (.request .pause), .go 0 .ok, .go 1 .ok, .go 1 .ok,
        .go 0 .ok, .go 0 .ok,
      .go 0 .ok, .go 0 .ok, .go 0 .ok, .go 0 .ok, .go 0 .ok, .start 2 (.request .cancel), .go 2 .ok]
    (fun x => x.1.store.execution.any (·.state == .completed) &&
      x.2 1 == [.completed, .paused]) (by decide)
  simp only [Bool.and_eq_true, beq_iff_eq, Option.any_eq_true] at htest
  obtain ⟨⟨row, hrow, hstate⟩, hsince⟩ := htest
  exact ⟨x, row, hr, hrow, hstate, hsince⟩

-- A cancel lands while the execution is still pending, and the planner then moves the
-- cancelled execution to 'running'.
theorem execution_cancel_undone : ¬StatesKept Config.defaults fun _ _ => True := by
  intro hkept
  obtain ⟨x, hr, -, htest⟩ := Reach.replay (watched Config.defaults) Opened (fun _ _ => True)
    (fun _ _ => true) (fun _ _ _ => trivial) (s := (created 0, fun _ => []))
      ⟨.inl (fresh_created 0), rfl⟩
    [.go 0 .ok, .go 0 .ok, .start 1 (.request .cancel), .go 1 .ok, .go 1 .ok, .go 1 .ok, .go 0 .ok]
    (fun x => x.1.store.execution.any (·.state == .cancelled) && planning (x.1.procs 0) &&
      (watched Config.defaults x (.go 0 .ok)).any fun x' => x'.1.store.execution.any
        (·.state == .running))
    (by decide)
  simp only [Bool.and_eq_true, beq_iff_eq, Option.any_eq_true] at htest
  obtain ⟨⟨⟨row, hrow, hcancelled⟩, hplan⟩, x', hs, row', hrow', hrunning⟩ := htest
  have hnot : ¬Reopens x.1 (.go 0 .ok) := by
    rintro ⟨i, choice, requeued, seen, hgo, hp⟩
    cases hgo
    rw [hp] at hplan
    cases hplan
  have hstate := (hkept x _ x' hr trivial hs).terminal row row' hrow hrow'
    (by rw [hcancelled]; rfl) hnot
  rw [hcancelled, hrunning] at hstate
  cases hstate

end Manager

end Reflowfy
