import Reflowfy.Lifecycle.States
import Reflowfy.Manager.Phases

namespace Reflowfy.Manager

open Interleaving

-- The row names loop `i`.
def Leased (store : Store) (i : TaskId) : Prop :=
  ∀ row, store.execution = some row → row.driver_id = some ⟨.loop, i⟩

-- The task will drive the execution, drives it under its lease, or will settle it. A
-- write that finds the state as it wants it decides nothing, and a loop that has lost
-- its lease or seen the execution stopped is on its way out.
def Driving (store : Store) (i : TaskId) : Proc → Prop
  | .plan _ .abort | .plan _ (.leave none) => False
  | .plan _ _ | .failed (.load _) => True
  | .failed (.store _ seen) => seen.state ≠ .failed
  | .drive _ .claim | .drive _ .standby | .drive .run (.release (some _)) => True
  | .drive _ .not_dispatching | .drive _ (.stopping _) | .drive _ (.release _) => False
  | .drive _ _ => Leased store i
  | .settle (.loop _ _) _ _ (.store final seen) => Leased store i ∧ seen.state ≠ final
  | .settle (.loop _ _) _ _ _ => Leased store i
  | .settle .resume _ _ (.store final seen) => seen.state ≠ final
  | .settle .resume _ _ _ => True
  | .resume (.missing_store _ seen) | .resume (.recover_store _ seen) => seen.state ≠ .failed
  | .resume .recover_release => False
  | .resume _ | .startup _ => True
  | _ => False

-- The execution is settled, paused or gone, or some task still drives it.
def Driven (s : Manager) : Prop :=
  ∀ row, s.store.execution = some row → row.state.terminal = true ∨ row.state = .paused ∨
    ∃ i, Driving s.store i (s.procs i)

-- A manager starts up, whatever the one before it was killed at.
def StartedUp (cfg : Config) (s₀ : Manager) : Prop :=
  ∃ s i, Reach (step cfg) Fresh (fun _ _ => True) s ∧ step cfg s (.start i .startup) = some s₀

def NeverOrphaned (cfg : Config) (Ok : Manager → Event → Prop) : Prop :=
  ∀ s₀ s, Fresh s₀ ∨ StartedUp cfg s₀ → Path (step cfg) Ok s₀ s → Driven s

-- Exceptions that no handler turns into a state: the tasks of resumes only log them,
-- and the error path of a run and the start-up have nothing behind them.
def unhandled : Proc → Choice → Bool
  | .drive .resume (.stopping _), _ | .drive .resume .not_dispatching, _
  | .drive .resume (.release _), _
  | .drive .resume (.execute_job _ _ _), _ => false
  | .drive .resume _, .error _ => true
  | .settle (.loop .resume _) _ _ (.load _), .error _ => true
  | .settle (.loop .resume _) _ _ (.store _ _), .error _ => true
  | .settle .resume _ _ (.load _), choice | .settle .resume _ _ (.store _ _), choice =>
      choice.raised.isSome
  | .resume .recover_release, _ => false
  | .resume _, choice | .failed _, choice | .startup _, choice => choice.raised.isSome
  | _, _ => false

-- The processes stay alive.
def alive (_ : Manager) : Event → Bool
  | .crash _ => false
  | _ => true

def Handled (s : Manager) (e : Event) : Prop :=
  alive s e = true ∧ match e with
    | .go i choice => unhandled (s.procs i) choice = false
    | _ => True

variable {cfg : Config} {s s' : Manager} {e : Event}

def NotRunning (store : Store) : Prop := ∀ row, store.execution = some row → row.state ≠ .running

section Lease

theorem leased_claim {store : Store} {i : TaskId}
    (hclaim : store.execution.any
      (·.claimable ⟨.loop, i⟩ cfg.DRIVER_LEASE_SECONDS store.clock) = true) :
    Leased (Stmt.run cfg store (.claim_driver ⟨.loop, i⟩)) i := by
  intro row' hrow'
  obtain ⟨row, hrow, rfl⟩ := Stmt.run_execution cfg store _ hrow'
  simp only [hrow, Option.any_some] at hclaim
  simp [Stmt.onExecution, hclaim, Execution.claim_driver]

-- Only a claim, a release and a start-up change whom the row names.
theorem leased_run {store : Store} {i : TaskId} {stmt : Stmt} (h : Leased store i)
    (hclaim : ∀ driver, stmt ≠ .claim_driver driver) (hrelease : stmt ≠ .release_driver ⟨.loop, i⟩)
    (hhost : ∀ hostname, stmt ≠ .release_drivers_on_host hostname) :
      Leased (stmt.run cfg store) i := by
  intro row' hrow'
  obtain ⟨row, hrow, rfl⟩ := Stmt.run_execution cfg store stmt hrow'
  have howner := h row hrow
  cases stmt <;> simp only [Stmt.onExecution]
  case claim_driver driver => exact absurd rfl (hclaim driver)
  case release_drivers_on_host hostname => exact absurd rfl (hhost hostname)
  case heartbeat_driver driver => split <;> exact howner
  case release_driver driver =>
    rw [if_neg]
    · exact howner
    · rintro hsame
      rw [howner] at hsame
      exact hrelease (by rw [← Option.some.inj hsame])
  all_goals exact howner

end Lease

-- A statement that writes a state it did not find.
theorem state_of_setsState {store : Store} {stmt : Stmt} {seen : Execution}
    {target : ExecutionState}
    (hsets : stmt.setsState = some (seen, target)) (hne : target ≠ seen.state) :
    ∀ row, (stmt.run cfg store).execution = some row → row.state = target := by
  intro row' hrow'
  obtain ⟨row, -, rfl⟩ := Stmt.run_execution cfg store stmt hrow'
  rw [Stmt.onExecution_state, hsets]
  exact if_neg hne

theorem notRunning_written {store : Store} {stmt : Stmt} {seen : Execution}
    {target : ExecutionState}
    (hsets : stmt.setsState = some (seen, target)) (hne : seen.state ≠ target)
    (htarget : target ≠ .running) :
    NotRunning (stmt.run cfg store) := by
  intro row hrow
  rw [state_of_setsState hsets (Ne.symm hne) row hrow]
  exact htarget

-- A statement that leaves the state finds it as it was.
theorem notRunning_run {store : Store} {stmt : Stmt} (hsets : stmt.setsState = none)
    (h : NotRunning store) :
    NotRunning (stmt.run cfg store) := by
  intro row' hrow'
  obtain ⟨row, hrow, rfl⟩ := Stmt.run_execution cfg store stmt hrow'
  rw [Stmt.onExecution_state, hsets]
  exact h row hrow

theorem notRunning_of_isRunning {store : Store} (h : isRunning store.execution = false) :
    NotRunning store := by
  intro row hrow hstate
  simp [isRunning, hrow, hstate] at h

theorem notRunning_of_row {store : Store} {seen : Execution} (hrow : store.execution = some seen)
    (h : seen.state ≠ .running) : NotRunning store := by
  intro row hrow'
  rw [hrow] at hrow'
  cases hrow'
  exact h

theorem notRunning_gone {store : Store} (hrow : store.execution = none) : NotRunning store := by
  intro row hrow'
  rw [hrow] at hrow'
  cases hrow'

-- A task's own step: it goes on driving, or the execution is not running.
theorem driving_goes {i : TaskId} {store : Store} {p p' : Proc} {choice : Choice} {stmt : Stmt}
    (h : Goes cfg i store p choice stmt p') (hsound : p.Sound) (hp : Driving store i p)
    (hhandled : unhandled p choice = false) :
    Driving (stmt.run cfg store) i p' ∨ NotRunning (stmt.run cfg store) := by
  have hleased : Leased store i → (∀ driver, stmt ≠ .claim_driver driver) →
      stmt ≠ .release_driver ⟨.loop, i⟩ → (∀ hostname, stmt ≠ .release_drivers_on_host hostname) →
      Leased (stmt.run cfg store) i := leased_run
  cases h
  case claim hclaim => exact .inl (leased_claim hclaim)
  case plan_beat pc =>
    left
    cases pc
    case leave error => cases error <;> exact hp
    all_goals exact hp
  -- what the task has read is not 'running'
  case plan_check_abort hrow hstate =>
    refine .inr (notRunning_run rfl (notRunning_of_row hrow ?_))
    rcases hstate with h | h <;> rw [h] <;> simp
  case standby_stop hrun | state_stop hrun =>
    exact .inr (notRunning_run rfl (notRunning_of_isRunning hrun))
  case resume_settled hrow hstate =>
    refine .inr (notRunning_run rfl (notRunning_of_row hrow fun h => ?_))
    rw [h] at hstate
    cases hstate
  case missing_ended hrow =>
    refine .inr (notRunning_run rfl fun row hrow' h => ?_)
    have hstate := hrow row hrow'
    rw [h] at hstate
    cases hstate
  case recover_ended hrow =>
    refine .inr (notRunning_run rfl fun row hrow' h => ?_)
    have hpausable := hrow row hrow'
    simp [Execution.pausable, h] at hpausable
  case startup_none hrow =>
    refine .inr (notRunning_run rfl fun row hrow' h => ?_)
    simp [hrow', Execution.interrupted, h] at hrow
  case failed_gone hrow | settle_gone hrow | settle_gone_resume hrow | resume_gone hrow |
      recover_gone hrow =>
    exact .inr (notRunning_run rfl (notRunning_gone hrow))
  case heartbeat_lost hown =>
    refine .inr (notRunning_run rfl fun row hrow => ?_)
    simp [hrow, hp row hrow] at hown
  -- what it is about to write is not what it has read, unless that settles the execution
  case failed_load seen hrow | recover_load seen hrow =>
    by_cases hfailed : seen.state = .failed
    · exact .inr (notRunning_run rfl (notRunning_of_row hrow (by simp [hfailed])))
    · exact .inl hfailed
  case missing hrow hstate =>
    refine .inl fun hfailed => ?_
    rw [hfailed] at hstate
    cases hstate
  case settle_load settler _ _ final seen hrow =>
    by_cases hrunning : seen.state = .running
    · have hne : seen.state ≠ final := by
        rw [hrunning]
        rcases hsound with h | h <;> rw [h] <;> simp
      cases settler
      · exact .inl ⟨hleased hp (by simp) (by simp) (by simp), hne⟩
      · exact .inl hne
    · exact .inr (notRunning_run rfl (notRunning_of_row hrow hrunning))
  case failed_store | missing_store | recover_store =>
    exact .inr (notRunning_written rfl hp (by simp))
  case settle_store =>
    exact .inr (notRunning_written rfl hp.2 (by rcases hsound with h | h <;> rw [h] <;> simp))
  case settle_store_resume =>
    exact .inr (notRunning_written rfl hp (by rcases hsound with h | h <;> rw [h] <;> simp))
  case settle_failed settler _ _ | settle_counts settler _ _ _ =>
    cases settler
    · exact .inl (hleased hp (by simp) (by simp) (by simp))
    · exact .inl trivial
  case settle_fallback settler _ _ pc message hpc hraised =>
    have hleased' : ∀ task track, settler = .loop task track → Leased store i := by
      rintro task track rfl
      rcases hpc with rfl | ⟨failed, rfl⟩ <;> exact hp
    cases settler
    · exact .inl (hleased (hleased' _ _ rfl) (by simp) (by simp) (by simp))
    · exact .inl trivial
  -- a run's exception goes to the error path of the run
  case drive_error task pc message hpc =>
    cases task
    case run => exact .inl trivial
    case resume =>
      cases pc
      case not_dispatching | stopping => exact hp.elim
      case release error => cases error <;> exact hp.elim
      case execute_job track batch pc => exact absurd rfl (hpc track batch pc)
      all_goals cases hhandled
  case settle_error task _ _ _ _ _ hpc =>
    cases task
    · exact .inl trivial
    · rcases hpc with ⟨final, rfl⟩ | ⟨final, seen, rfl⟩ <;> cases hhandled
  case settle_db_error hpc =>
    refine .inl (hleased ?_ (by simp) (by simp) (by simp))
    rcases hpc with ⟨final, rfl⟩ | ⟨final, seen, rfl⟩
    · exact hp
    · exact hp.1
  case settle_error_resume hpc hraised =>
    rcases hpc with ⟨final, rfl⟩ | ⟨final, seen, rfl⟩ <;> simp [unhandled, hraised] at hhandled
  case failed_error hraised => simp [unhandled, hraised] at hhandled
  case resume_error pc _ hraised =>
    cases pc
    case recover_release => exact hp.elim
    all_goals simp [unhandled, hraised] at hhandled
  case startup_error hraised => simp [unhandled, hraised] at hhandled
  case drive_db_error pc _ _ htrack =>
    refine .inl (hleased ?_ (by simp) (by simp) (by simp))
    cases pc <;> first | exact hp | exact hp.elim | cases htrack
  all_goals
    first
    | exact .inl trivial
    | exact hp.elim
    | exact .inl (hleased hp (by simp) (by simp) (by simp))

theorem driving_mono {store store' : Store} {k : TaskId} {q : Proc} (h : Driving store k q)
    (hleased : Leased store k → Leased store' k) : Driving store' k q := by
  unfold Driving at h ⊢
  split at h <;> first | exact h | exact hleased h | exact ⟨hleased h.1, h.2⟩

-- Another task's step: whoever takes the lease drives the execution from then on.
theorem driving_other {i k : TaskId} {store : Store} {p p' q : Proc} {choice : Choice} {stmt : Stmt}
    (h : Goes cfg i store p choice stmt p') (hk : k ≠ i) (hq : Driving store k q) :
    Driving (stmt.run cfg store) k q ∨ Driving (stmt.run cfg store) i p' := by
  by_cases hclaim : ∃ driver, stmt = .claim_driver driver
  · obtain ⟨driver, rfl⟩ := hclaim
    refine .inr ?_
    cases h
    case claim hclaim => exact leased_claim hclaim
    all_goals trivial
  · by_cases hhost : ∃ hostname, stmt = .release_drivers_on_host hostname
    · obtain ⟨hostname, rfl⟩ := hhost
      cases h
      exact .inr trivial
    · refine .inl (driving_mono hq fun hleased => leased_run hleased (fun d hd => hclaim ⟨d, hd⟩)
        (fun hd => ?_) fun d hd => hhost ⟨d, hd⟩)
      subst hd
      exact hk (h.driver_task rfl)

-- Whoever sets an execution running goes on to drive it.
theorem driving_of_running {i : TaskId} {store : Store} {p p' : Proc}
    {choice : Choice} {stmt : Stmt}
    {seen : Execution} (h : Goes cfg i store p choice stmt p') (hsound : p.Sound)
    (hsets : stmt.setsState = some (seen, .running)) (hne : seen.state ≠ .running) :
    Driving (stmt.run cfg store) i p' := by
  cases h
  case plan_store | resume_request | retry_store => trivial
  case retry_running hstate =>
    cases hsets
    exact absurd hstate hne
  case settle_store | settle_store_resume =>
    cases hsets
    rcases hsound with h | h <;> cases h
  all_goals cases hsets

-- Before the planner has moved the execution to 'running', or on the way to failing it;
-- or a start-up or a recovery that will find it.
def Early : Proc → Prop
  | .plan _ .lease | .plan _ .resolve | .plan _ .load | .plan _ (.leave (some _))
  | .failed (.load _)
  | .startup _ | .resume .load | .resume .recover | .resume .recover_claim | .resume .recover_count
  | .resume (.recover_load _) => True
  | .plan _ (.store seen) | .failed (.store _ seen) | .resume (.recover_store _ seen)
  | .resume (.missing_store _ seen) => seen.state = .pending
  | _ => False

-- A task that will see to a pending execution does so, unless an exception gets lost.
theorem early_goes {i : TaskId} {store : Store} {p p' : Proc} {choice : Choice} {stmt : Stmt}
    (h : Goes cfg i store p choice stmt p') (hp : Early p) (hhandled : unhandled p choice = false)
    {row row' : Execution} (hrow : store.execution = some row) (hstate : row.state = .pending)
    (hplan : row.plan_complete = some false) (hrow' : (stmt.run cfg store).execution = some row')
    (hstate' : row'.state = .pending) : Early p' := by
  have hseen : ∀ seen, store.execution = some seen → seen = row := by
    intro seen h
    rw [hrow] at h
    exact (Option.some.inj h).symm
  have hwrites : ∀ seen target, seen.state = .pending → target ≠ .pending →
      stmt.setsState ≠ some (seen, target) := by
    intro seen target hpending htarget hsets
    have hwritten := state_of_setsState hsets (by rw [hpending]; exact htarget) row' hrow'
    rw [hstate'] at hwritten
    exact htarget hwritten.symm
  cases h
  case plan_beat => exact hp
  case plan_load h | failed_load h | missing h _ | recover_load h =>
    rw [hseen _ h]
    exact hstate
  case plan_load_gone h | failed_gone h | resume_gone h | recover_gone h =>
    rw [hrow] at h
    cases h
  case plan_store | failed_store | missing_store | recover_store =>
    exact absurd rfl (hwrites _ _ hp (by simp))
  case resume_load h _ hnot | recover_planned h _ hnot =>
    rw [hseen _ h] at hnot
    exact absurd hplan hnot
  case resume_settled h hterminal =>
    rw [hseen _ h, hstate] at hterminal
    cases hterminal
  case missing_ended h =>
    have hterminal := h row hrow
    rw [hstate] at hterminal
    cases hterminal
  case recover_ended h =>
    have hpausable := h row hrow
    simp [Execution.pausable, hstate] at hpausable
  case startup_none h => simp [hrow, Execution.interrupted, hstate, hplan] at h
  case failed_error hraised | startup_error hraised => simp [unhandled, hraised] at hhandled
  case resume_error pc _ hraised =>
    cases pc
    case recover_release => exact hp.elim
    all_goals simp [unhandled, hraised] at hhandled
  all_goals trivial

-- No task writes 'pending'.
theorem pending_before (hsound : ∀ i, (s.procs i).Sound) (hs : step cfg s e = some s')
    {row row' : Execution}
    (hrow : s.store.execution = some row) (hrow' : s'.store.execution = some row')
    (hstate : row'.state = .pending) : row.state = .pending := by
  rcases step_state hs hrow hrow' with hsame | ⟨i, choice, seen, target, rfl, hw, -, htarget⟩
  · rw [← hsame, hstate]
  · rw [hstate] at htarget
    subst htarget
    have hsound := hsound i
    generalize s.procs i = p at hw hsound
    unfold Proc.writes at hw
    split at hw <;> simp only [Option.some.injEq, Prod.mk.injEq, reduceCtorEq, and_false] at hw
    case h_3 =>
      obtain ⟨-, rfl⟩ := hw
      rcases hsound with h | h <;> cases h
    case h_6 r _ =>
      obtain ⟨-, htarget⟩ := hw
      cases r <;> cases htarget

-- The plan of a pending execution is not complete, nor is its planner past the move to
-- 'running'. This takes no task to be alive.
def PendingInv (s : Manager) : Prop :=
  ∀ row, s.store.execution = some row → row.state = .pending → row.plan_complete = some false ∧
    ∀ leased pc, s.procs 0 = .plan leased pc → Early (.plan leased pc)

theorem pendingInv_step (hr : Reach (step cfg) Initial (fun _ _ => True) s) (h : PendingInv s)
    (hs : step cfg s e = some s') : PendingInv s' := by
  intro row' hrow' hpending'
  obtain ⟨row, hrow⟩ : ∃ row, s.store.execution = some row := by
    rcases step_execution hs hrow' with hsame | ⟨_, _, _, _, row, _, _, hrow, _⟩
    · exact ⟨row', hsame⟩
    · exact ⟨row, hrow⟩
  have hpending := pending_before (sound_reach hr) hs hrow hrow' hpending'
  obtain ⟨hplan, hearly⟩ := h row hrow hpending
  constructor
  · rcases step_execution hs hrow' with hsame | ⟨i, choice, stmt, p, old, rfl, hgoes, hold, rfl⟩
    · rw [hrow] at hsame
      cases hsame
      exact hplan
    · rw [hrow] at hold
      cases hold
      rcases Stmt.onExecution_plan_complete cfg s.store.clock
          (get_job_counts s.store.jobs) stmt row with
        hsame | ⟨rfl, -⟩
      · rw [hsame, hplan]
      · obtain ⟨leased, hp⟩ := hgoes.marks
        have hi := (phase_reach hr).2 i
        rw [hp] at hi
        rw [hi.1] at hp
        exact (hearly leased .mark hp).elim
  · intro leased' pc' hp'
    rcases step_proc hs 0 with hsame | hended | ⟨entry, hentry⟩ | ⟨choice, stmt, rfl, hgoes, hstore⟩
    · exact hearly leased' pc' (hsame ▸ hp')
    · rw [hended] at hp'
      cases hp'
    · rw [hp'] at hentry
      exact (plan_not_started hentry).elim
    · rw [hp'] at hgoes
      obtain ⟨leased, pc, hp⟩ := plan_goes_from hgoes
      rw [hp] at hgoes
      exact early_goes hgoes (hearly leased pc hp) (by cases choice <;> rfl) hrow hpending hplan
        (hstore ▸ hrow') hpending'

theorem pendingInv_reach (hr : Reach (step cfg) Fresh (fun _ _ => True) s) : PendingInv s := by
  refine hr.invariant (I := PendingInv) (fun s hs row hrow hpending => ?_) fun s e s' hr h _ hs =>
    pendingInv_step (hr.mono (fun _ h => .inl h) fun _ _ h => h) h hs
  rw [hs.1] at hrow
  cases hrow
  refine ⟨rfl, fun leased pc hp => ?_⟩
  rw [hs.2.2.2.2.1] at hp
  cases hp
  trivial

structure OrphanInv (s : Manager) : Prop where
  running : ∀ row, s.store.execution = some row → row.state = .running →
    ∃ i, Driving s.store i (s.procs i)
  pending : ∀ row, s.store.execution = some row → row.state = .pending → ∃ i, Early (s.procs i)

theorem orphanInv_go {i : TaskId} {choice : Choice} {stmt : Stmt} {p : Proc}
    (hsound : ∀ i, (s.procs i).Sound)
    (hinv : PendingInv s) (h : OrphanInv s) (hhandled : unhandled (s.procs i) choice = false)
    (hgoes : Goes cfg i s.store (s.procs i) choice stmt p)
    (hs : step cfg s (.go i choice) = some (s.set i (stmt.run cfg s.store) p)) :
    OrphanInv (s.set i (stmt.run cfg s.store) p) where
  running row' hrow' hrunning := by
    obtain ⟨row, hrow, heq⟩ := Stmt.run_execution cfg s.store stmt hrow'
    by_cases hbefore : row.state = .running
    · obtain ⟨k, hk⟩ := h.running row hrow hbefore
      by_cases hki : k = i
      · subst hki
        rcases driving_goes hgoes (hsound k) hk hhandled with hp | hnot
        · exact ⟨k, by simpa using hp⟩
        · exact absurd hrunning (hnot row' hrow')
      · rcases driving_other hgoes hki hk with hk' | hp
        · exact ⟨k, by rwa [Pool.set_procs_of_ne s _ p hki]⟩
        · exact ⟨i, by simpa using hp⟩
    · -- the state has just been set to 'running'
      rw [heq, Stmt.onExecution_state] at hrunning
      cases hsets : stmt.setsState with
      | none =>
          rw [hsets] at hrunning
          exact absurd hrunning hbefore
      | some write =>
          obtain ⟨seen, target⟩ := write
          simp only [hsets, updated] at hrunning
          split at hrunning
          · exact absurd hrunning hbefore
          · rename_i hne
            subst hrunning
            exact ⟨i, by simpa using driving_of_running hgoes (hsound i) hsets (Ne.symm hne)⟩
  pending row' hrow' hpending' := by
    obtain ⟨row, hrow, -⟩ := Stmt.run_execution cfg s.store stmt hrow'
    have hpending := pending_before hsound hs hrow hrow' hpending'
    obtain ⟨k, hk⟩ := h.pending row hrow hpending
    by_cases hki : k = i
    · subst hki
      have hnext := early_goes hgoes hk hhandled hrow hpending (hinv row hrow hpending).1 hrow'
        hpending'
      exact ⟨k, by simpa using hnext⟩
    · exact ⟨k, by rwa [Pool.set_procs_of_ne s _ p hki]⟩

-- A task that begins takes the place of an idle one.
theorem orphanInv_start {i : TaskId} {p : Proc} (h : OrphanInv s) (hidle : s.procs i = .idle) :
    OrphanInv (s.set i s.store p) := by
  constructor
  · intro row hrow hrunning
    obtain ⟨k, hk⟩ := h.running row hrow hrunning
    have hki : k ≠ i := by
      rintro rfl
      rw [hidle] at hk
      exact hk
    exact ⟨k, by rwa [Pool.set_procs_of_ne s _ p hki]⟩
  · intro row hrow hpending
    obtain ⟨k, hk⟩ := h.pending row hrow hpending
    have hki : k ≠ i := by
      rintro rfl
      rw [hidle] at hk
      exact hk
    exact ⟨k, by rwa [Pool.set_procs_of_ne s _ p hki]⟩

theorem orphanInv_step (hr : Reach (step cfg) Fresh (fun _ _ => True) s) (h : OrphanInv s)
    (hok : Handled s e) (hs : step cfg s e = some s') : OrphanInv s' := by
  cases e with
  | tick now =>
      obtain ⟨-, rfl⟩ := step_tick hs
      exact ⟨h.running, h.pending⟩
  | start i entry =>
      obtain ⟨hidle, p, -, rfl⟩ := step_start hs
      exact orphanInv_start h hidle
  | go i choice =>
      obtain ⟨stmt, p, hgoes, rfl⟩ := step_goes hs
      exact orphanInv_go (sound_reach (hr.mono (fun _ h => .inl h) fun _ _ h => h))
        (pendingInv_reach hr) h
        hok.2 hgoes hs
  | crash i => cases hok.1

theorem driven_of_inv (h : OrphanInv s) : Driven s := by
  intro row hrow
  cases hstate : row.state
  case running => exact .inr (.inr (h.running row hrow hstate))
  case pending =>
    obtain ⟨i, hi⟩ := h.pending row hrow hstate
    refine .inr (.inr ⟨i, ?_⟩)
    generalize s.procs i = p at hi
    unfold Early at hi
    split at hi
    all_goals first | trivial | exact hi.elim | exact fun h => by rw [hi] at h; cases h
  case paused => exact .inr (.inl rfl)
  all_goals exact .inl rfl

theorem orphanInv_fresh (h : Fresh s) : OrphanInv s := by
  constructor
  · intro row hrow hrunning
    rw [h.1] at hrow
    cases hrow
    cases hrunning
  · intro row _ _
    exact ⟨0, by rw [h.2.2.2.2.1]; trivial⟩

theorem never_orphaned (cfg : Config) : NeverOrphaned cfg Handled := by
  intro s₀ s hstart hpath
  have hbegin : Reach (step cfg) Fresh (fun _ _ => True) s₀ ∧ OrphanInv s₀ := by
    rcases hstart with hfresh | ⟨before, i, hr, hs⟩
    · exact ⟨.init hfresh, orphanInv_fresh hfresh⟩
    · refine ⟨hr.step trivial hs, ?_⟩
      obtain ⟨-, p, hp, rfl⟩ := step_start hs
      cases hp
      exact ⟨fun _ _ _ => ⟨i, by rw [Pool.set_procs_self]; trivial⟩,
        fun _ _ _ => ⟨i, by rw [Pool.set_procs_self]; trivial⟩⟩
  have hkept := hpath.invariant
    (I := fun m => Reach (step cfg) Fresh (fun _ _ => True) m ∧ OrphanInv m) ?_ hbegin
  · exact driven_of_inv hkept.2
  · rintro m e m' ⟨hm, hinv⟩ hok hs
    exact ⟨hm.step trivial hs, orphanInv_step hm hinv hok hs⟩

def handled (s : Manager) (e : Event) : Bool :=
  alive s e && match e with
    | .go i choice => !unhandled (s.procs i) choice
    | _ => true

theorem of_handled (h : handled s e = true) : Handled s e := by
  simp only [handled, Bool.and_eq_true] at h
  refine ⟨h.1, ?_⟩
  cases e with
  | go i choice => simpa using h.2
  | tick | start | crash => trivial

-- The loop of the run tries again after a deadlock. Kafka is down when it comes to its
-- producer, and the exception fails the execution.
theorem never_orphaned_failed : ∃ s row, Path (step Config.defaults) Handled (created 0) s ∧
    s.store.execution = some row ∧ row.state = .failed ∧
    row.error_message = some "KafkaConnectionError: Unable to bootstrap" := by
  obtain ⟨s, hpath, -, htest⟩ := Path.replay (step Config.defaults) Handled handled
    (fun _ _ => of_handled)
    (s := created 0)
    (List.replicate 4 (.go 0 .ok) ++ [.go 0 .slice, .go 0 .ok, .go 0 .plan_end] ++
      List.replicate 7 (.go 0 .ok) ++
      [.go 0 (.db_error "deadlock detected")] ++ List.replicate 5 (.go 0 .ok) ++
      [.go 0 (.error "KafkaConnectionError: Unable to bootstrap")] ++ List.replicate 3 (.go 0 .ok))
    (fun s => s.store.execution.any fun row => row.state == .failed &&
      row.error_message == some "KafkaConnectionError: Unable to bootstrap") (by decide)
  simp only [Option.any_eq_true, Bool.and_eq_true, beq_iff_eq] at htest
  obtain ⟨row, hrow, hstate, hmessage⟩ := htest
  exact ⟨s, row, hpath, hrow, hstate, hmessage⟩

-- A paused execution is resumed while Kafka is down: the producer of the resume's loop
-- cannot start, and the task that ran the loop only logs the exception.
theorem resumed_loop_orphans : ¬NeverOrphaned Config.defaults fun s e => alive s e = true := by
  intro hnever
  obtain ⟨s, hpath, hreplay, htest⟩ := Path.replay (step Config.defaults)
    (fun s e => alive s e = true)
    alive (fun _ _ h => h) (s := created 0)
    (List.replicate 4 (.go 0 .ok) ++ [.go 0 .slice, .go 0 .ok, .go 0 .plan_end] ++
      List.replicate 4 (.go 0 .ok) ++
      [.start 1 (.request .pause), .go 1 .ok, .go 1 .ok] ++ List.replicate 5 (.go 0 .ok) ++
      [.start 2 (.request .resume)] ++ List.replicate 10 (.go 2 .ok) ++
      [.go 2 (.error "KafkaConnectionError: Unable to bootstrap"), .go 2 .ok])
    (fun s => s.store.execution.any (·.state == .running) &&
      decide (Below 3 (· = .ended) s)) (by decide)
  simp only [Bool.and_eq_true, Option.any_eq_true, beq_iff_eq, decide_eq_true_eq] at htest
  obtain ⟨⟨row, hrow, hrunning⟩, hended⟩ := htest
  rcases hnever _ s (.inl (fresh_created 0)) hpath row hrow with hterminal | hpaused | ⟨i, hi⟩
  · rw [hrunning] at hterminal
    cases hterminal
  · rw [hrunning] at hpaused
    cases hpaused
  · rcases replay_below 3 (by decide) hreplay hended i with hp | ⟨hle, hp⟩ <;> rw [hp] at hi
    · exact hi
    · rw [created_idle (Nat.lt_of_lt_of_le (by decide) hle)] at hi
      exact hi

end Reflowfy.Manager
