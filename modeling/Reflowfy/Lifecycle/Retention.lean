import Reflowfy.Manager.Locals

namespace Reflowfy.Manager

open Interleaving ExecutionState

-- `completed_at` is set on a settled execution and on no other.
def Stamped (row : Execution) : Prop := row.completed_at.isSome ↔ row.state.terminal = true

-- Nobody settles or reopens the execution between a writer's load and its write, or
-- settles it before the planner's move; and no state is written between the two
-- DELETEs of a sweep that selected jobs.
def Undisturbed (s : Manager) : Event → Prop
  | .go i _ => ∀ seen target, (s.procs i).writes = some (seen, target) →
      (∀ row, s.store.execution = some row → row.state.terminal = seen.state.terminal ∧
        ∀ leased, s.procs i = .plan leased (.store seen) → row.state.terminal = false) ∧
      ∀ j cutoff doomed, s.procs j = .sweep (.executions cutoff doomed) → doomed = []
  | _ => True

-- `completed_at` tells the settled executions; only these are deleted, always with
-- their jobs, and no job goes without its execution.
structure Retained (s : Manager) (e : Event) (s' : Manager) : Prop where
  stamped : ∀ row, s'.store.execution = some row → Stamped row
  deleted : ∀ row, s.store.execution = some row → s'.store.execution = none →
    row.state.terminal = true
  jobs : s'.store.execution.isSome → ∀ job ∈ s.store.jobs, ∃ job' ∈ s'.store.jobs,
    job'.job_id = job.job_id

def RetentionSafe (cfg : Config) (Ok : Manager → Event → Prop) : Prop :=
  ∀ s e s', Reach (step cfg) Initial Ok s → Ok s e → step cfg s e = some s' → Retained s e s'

variable {cfg : Config} {s s' : Manager} {e : Event}

theorem stamped_update {seen row : Execution} {target : ExecutionState}
    {message : Option String} {now : Int}
    (hseen : Stamped seen) (hrow : Stamped row) (hsame : row.state.terminal = seen.state.terminal)
    (hopen : target.terminal = false → row.state.terminal = false) :
    Stamped (seen.update_execution_state target message now row) := by
  unfold Stamped at *
  simp only [Execution.update_execution_state, updated]
  cases ht : target.terminal with
  | true =>
      -- a terminal state is stamped, whether or not either column had to be written
      have hstate : (if target = seen.state then row.state else target).terminal = true := by
        split
        · rename_i heq
          rw [hsame, ← heq, ht]
        · exact ht
      simp only [hstate, if_true, iff_true]
      split
      · rename_i heq
        rw [hrow, hsame, ← hseen, ← heq]
        rfl
      · rfl
  | false =>
      have hlive := hopen ht
      have hstate : (if target = seen.state then row.state else target).terminal = false := by
        split
        · exact hlive
        · exact ht
      simp only [hstate, Bool.false_eq_true, if_false, if_true, iff_false]
      rw [hrow, hlive]
      simp

theorem stamped_reopen {seen row : Execution} (hseen : Stamped seen) (hrow : Stamped row)
    (hsame : row.state.terminal = seen.state.terminal) : Stamped (seen.reopen_execution row) := by
  unfold Stamped at *
  simp only [Execution.reopen_execution, updated]
  cases ht : seen.state.terminal with
  | true =>
      have hne : ExecutionState.running ≠ seen.state := fun h => by rw [← h] at ht; cases ht
      have hstamp : none ≠ seen.completed_at := fun h => by rw [ht, ← h] at hseen; simp at hseen
      rw [if_neg hne, if_neg hstamp]
      decide
  | false =>
      have hnone : none = seen.completed_at := by
        rw [ht] at hseen
        cases hc : seen.completed_at <;> simp [hc] at hseen ⊢
      have hlive : row.state.terminal = false := by rw [hsame, ht]
      rw [if_pos hnone]
      split
      · exact hrow
      · rw [hrow, hlive]
        decide

-- Only the planner's move and a retry take an execution that may be settled back
-- to a live state; a pause and a resume have checked that it is not.
theorem live_of_writes {p : Proc} {seen : Execution} {target : ExecutionState}
    (hw : p.writes = some (seen, target)) (hsound : p.Sound) (ht : target.terminal = false) :
    (∃ leased, p = .plan leased (.store seen)) ∨ seen.state.terminal = false ∨
      ∃ requeued, p = .retry (.store requeued seen) := by
  unfold Proc.writes at hw
  split at hw <;> cases hw
  case h_1 leased => exact .inl ⟨leased, rfl⟩
  case h_2 | h_4 | h_5 => cases ht
  case h_3 => rcases hsound with rfl | rfl <;> cases ht
  case h_6 r =>
    refine .inr (.inl ?_)
    cases r with
    | pause =>
        have hadmits : seen.pausable = true := hsound
        unfold Execution.pausable at hadmits
        cases hstate : seen.state <;> simp_all [terminal, TERMINAL_STATES]
    | resume =>
        have hadmits : seen.state = .paused := of_decide_eq_true hsound
        rw [hadmits]
        rfl
    | cancel | fail _ => cases ht
  case h_7 requeued => exact .inr (.inr ⟨requeued, rfl⟩)

def StampedRow (store : Store) : Prop := ∀ row, store.execution = some row → Stamped row

-- What a sweep that has selected the jobs of the execution still finds true of it.
def Expiring (store : Store) : Proc → Prop
  | .sweep (.executions cutoff doomed) =>
      doomed ≠ [] → ∀ row, store.execution = some row → row.expired cutoff = true
  | _ => True

def RetentionInv (store : Store) (_ : TaskId) (p : Proc) : Prop :=
  (∀ seen target, p.writes = some (seen, target) → Stamped seen) ∧ Expiring store p

theorem stampedRow_step {i : TaskId} {choice : Choice} {stmt : Stmt} {p : Proc}
    (hI : StampedRow s.store) (hA : RetentionInv s.store i (s.procs i)) (hsound : (s.procs i).Sound)
    (hok : Undisturbed s (.go i choice)) (hgoes : Goes cfg i s.store (s.procs i) choice stmt p) :
    StampedRow (stmt.run cfg s.store) := by
  intro row' hrow'
  obtain ⟨row, hrow, rfl⟩ := Stmt.run_execution cfg s.store stmt hrow'
  rcases hgoes.setsState with hnone | hwrites
  · unfold Stamped
    rw [Stmt.onExecution_completed_at _ _ _ _ hnone, Stmt.onExecution_state, hnone]
    exact hI row hrow
  · cases stmt <;> simp only [Stmt.setsState] at hwrites
    case update_execution_state seen target message =>
      obtain ⟨hrows, -⟩ := hok seen target hwrites.symm
      obtain ⟨hsame, hplan⟩ := hrows row hrow
      refine stamped_update (hA.1 _ _ hwrites.symm) (hI row hrow) hsame fun ht => ?_
      rcases live_of_writes hwrites.symm hsound ht with ⟨leased, hp⟩ | hlive | ⟨requeued, hp⟩
      · exact hplan leased hp
      · rw [hsame, hlive]
      · rw [hp] at hgoes
        cases hgoes
    case reopen_execution seen =>
      obtain ⟨hrows, -⟩ := hok seen _ hwrites.symm
      exact stamped_reopen (hA.1 _ _ hwrites.symm) (hI row hrow) (hrows row hrow).1
    all_goals
      unfold Stamped
      simp only [Stmt.onExecution]
      (try split) <;> exact hI row hrow

theorem expiring_step {i j : TaskId} {choice : Choice} {stmt : Stmt} {p : Proc}
    (hok : Undisturbed s (.go i choice)) (hgoes : Goes cfg i s.store (s.procs i) choice stmt p)
    (hj : Expiring s.store (s.procs j)) : Expiring (stmt.run cfg s.store) (s.procs j) := by
  unfold Expiring at hj ⊢
  split
  · rename_i cutoff doomed hp
    simp only [hp] at hj
    intro hdoomed row' hrow'
    obtain ⟨row, hrow, rfl⟩ := Stmt.run_execution cfg s.store stmt hrow'
    have hexpired := hj hdoomed row hrow
    rcases hgoes.setsState with hnone | hwrites
    · unfold Execution.expired at hexpired ⊢
      rwa [Stmt.onExecution_completed_at _ _ _ _ hnone]
    · cases hw : (s.procs i).writes with
      | none =>
          unfold Execution.expired at hexpired ⊢
          rwa [Stmt.onExecution_completed_at _ _ _ _ (hwrites.trans hw)]
      | some write => exact absurd ((hok _ _ hw).2 j cutoff doomed hp) hdoomed
  · trivial

theorem expiring_goes {i : TaskId} {store : Store} {p p' : Proc} {choice : Choice} {stmt : Stmt}
    (hgoes : Goes cfg i store p choice stmt p') : Expiring (stmt.run cfg store) p' := by
  cases hgoes
  case sweep_jobs cutoff =>
    intro hdoomed row hrow
    obtain ⟨old, hold, rfl⟩ := Stmt.run_execution cfg store _ hrow
    unfold Stmt.expiredJobs at hdoomed
    split at hdoomed
    · rename_i hexpired
      simpa [hold] using hexpired
    · exact absurd rfl hdoomed
  all_goals trivial

theorem retention_preserved : Preserved cfg Initial Undisturbed StampedRow RetentionInv where
  init s hs := by
    refine ⟨fun row hrow => ?_, fun i => ?_⟩
    · rcases hs with ⟨hrow', -⟩ | ⟨⟨old, hold, -, hstamped⟩, -⟩
      · rw [hrow'] at hrow
        cases hrow
        exact ⟨fun h => (by cases h), fun h => (by cases h)⟩
      · rw [hold] at hrow
        cases hrow
        exact hstamped
    · rcases hs.proc i with hp | ⟨-, hp⟩ <;> rw [hp] <;>
        exact ⟨fun _ _ hw => (by cases hw), trivial⟩
  tick s now hs _ _ := ⟨hs.1, fun j hj => hj⟩
  start _ _ _ _ _ _ hp := by
    rcases Entry.cases hp with ⟨r, rfl⟩ | ⟨_, rfl⟩ | rfl | ⟨_, -, rfl⟩ | ⟨_, rfl⟩ <;>
      exact ⟨fun _ _ hw => (by cases hw), trivial⟩
  crash store i := ⟨fun _ _ hw => (by cases hw), trivial⟩
  go s i choice stmt p hr hs hok hgoes := by
    refine ⟨stampedRow_step hs.1 (hs.2 i) (sound_reach hr i) hok hgoes, ⟨fun seen target hw => ?_,
      expiring_goes hgoes⟩, fun j _ hj => ⟨hj.1, expiring_step hok hgoes hj.2⟩⟩
    rcases hgoes.writes hw with hold | ⟨-, hrow⟩
    · exact (hs.2 i).1 seen target hold
    · exact hs.1 seen hrow

-- A sweep's last DELETE: the execution goes only when it is settled, and if it stays,
-- so do its jobs.
theorem purge_retained {store : Store} {cutoff : Int} {doomed : List JobId} (hI : StampedRow store)
    (hexpiring : Expiring store (.sweep (.executions cutoff doomed))) :
    (∀ row, store.execution = some row → (Stmt.purge cutoff doomed store).execution = none →
      row.state.terminal = true) ∧
    ((Stmt.purge cutoff doomed store).execution.isSome →
      (Stmt.purge cutoff doomed store).jobs = store.jobs) := by
  cases hrow : store.execution with
  | none => simp [Stmt.purge, hrow]
  | some row =>
      cases hexpired : row.expired cutoff with
      | true =>
          refine ⟨fun _ h _ => ?_, fun hkept => ?_⟩
          · cases h
            refine (hI row hrow).mp ?_
            unfold Execution.expired at hexpired
            cases hc : row.completed_at <;> simp [hc] at hexpired ⊢
          · simp only [Stmt.purge, hrow, Option.any_some, hexpired, if_true] at hkept ⊢
            split at hkept
            · cases hkept
            · rename_i hne
              rw [if_neg hne]
      | false =>
          refine ⟨fun _ _ hgone => ?_, fun _ => ?_⟩
          · simp [Stmt.purge, hrow, hexpired] at hgone
          · have hnone : doomed = [] := by
              by_contra hdoomed
              rw [hexpiring hdoomed row hrow] at hexpired
              cases hexpired
            simp [Stmt.purge, hrow, hexpired, hnone]

theorem job_ids_kept {store : Store} {stmt : Stmt}
    (h : ∀ cutoff doomed, stmt ≠ .purge_executions cutoff doomed) :
    ∀ job ∈ store.jobs, ∃ job' ∈ (stmt.run cfg store).jobs, job'.job_id = job.job_id := by
  intro job hjob
  refine ⟨stmt.onJob cfg store.clock job, ?_, Stmt.onJob_job_id _ _ _ _⟩
  rw [Stmt.run_jobs cfg store h]
  exact List.mem_append_left _ (List.mem_map_of_mem hjob)

theorem sweep_of_purge {i : TaskId} {store : Store} {p p' : Proc} {choice : Choice} {cutoff : Int}
    {doomed : List JobId} (h : Goes cfg i store p choice (.purge_executions cutoff doomed) p') :
    p = .sweep (.executions cutoff doomed) := by
  cases h
  rfl

theorem retained_step (hr : Reach (step cfg) Initial Undisturbed s) (hok : Undisturbed s e)
    (hs : step cfg s e = some s') : Retained s e s' := by
  have hinv := retention_preserved.reach hr
  have hstamped := (retention_preserved.reach (hr.step hok hs)).1
  cases e with
  | tick now =>
      obtain ⟨-, rfl⟩ := step_tick hs
      exact ⟨hstamped, fun row hrow hnone => (by simp [hrow] at hnone),
        fun _ job hjob => ⟨job, hjob, rfl⟩⟩
  | start i entry =>
      obtain ⟨-, p, -, rfl⟩ := step_start hs
      exact ⟨hstamped, fun row hrow hnone => (by simp [hrow] at hnone),
        fun _ job hjob => ⟨job, hjob, rfl⟩⟩
  | crash i =>
      cases hs
      exact ⟨hstamped, fun row hrow hnone => (by simp [hrow] at hnone),
        fun _ job hjob => ⟨job, hjob, rfl⟩⟩
  | go i choice =>
      obtain ⟨stmt, p, hgoes, rfl⟩ := step_goes hs
      cases stmt
      case purge_executions cutoff doomed =>
        have hexpiring := (hinv.2 i).2
        rw [sweep_of_purge hgoes] at hexpiring
        obtain ⟨hdeleted, hjobs⟩ := purge_retained hinv.1 hexpiring
        refine ⟨hstamped, hdeleted, fun hsome job hjob => ⟨job, ?_, rfl⟩⟩
        change job ∈ (Stmt.purge cutoff doomed s.store).jobs
        rw [hjobs hsome]
        exact hjob
      all_goals
        refine ⟨hstamped, fun row hrow hnone => ?_, fun _ => job_ids_kept (by simp)⟩
        simp [Stmt.run, hrow] at hnone

theorem retention_safe (cfg : Config) : RetentionSafe cfg Undisturbed :=
  fun _ _ _ hr hok hs => retained_step hr hok hs

-- A failed execution of two days ago, with its one failed job.
def expiredRun : Manager where
  store :=
    { clock := 72 * hour
      execution := some { Execution.create_execution 0 with
        state := .failed, completed_at := some hour, plan_complete := none }
      jobs := [{ Job.create_job 0 1 0 with state := .failed }]
      sent := [0]
      granted := fun _ => none }
  procs _ := .idle

def selecting : Proc → Bool
  | .sweep (.executions _ doomed) => !doomed.isEmpty
  | _ => false

-- Of the first `n` tasks none plans, and none has selected jobs when a state is written.
def unselected (n : ℕ) (s : Manager) : Event → Bool
  | .go i _ => (s.procs i).writes.all fun (seen, _) =>
      (s.store.execution.all fun row => row.state.terminal == seen.state.terminal) &&
        decide (Below n (selecting · = false) s) && match s.procs i with
          | .plan _ _ => false
          | _ => true
  | _ => true

theorem of_unselected {n : ℕ} (hidle : ∀ k, n ≤ k → s.procs k = .idle)
    (h : unselected n s e = true) :
    Undisturbed s e := by
  cases e with
  | go i choice =>
      intro seen target hw
      simp only [unselected, hw, Option.all_some, Bool.and_eq_true, Option.all_eq_true, beq_iff_eq,
        decide_eq_true_eq] at h
      obtain ⟨⟨hsame, hbelow⟩, hplans⟩ := h
      refine ⟨fun row hrow => ⟨hsame row hrow, fun leased hp => ?_⟩, fun j cutoff doomed hj => ?_⟩
      · rw [hp] at hplans
        cases hplans
      · rcases Nat.lt_or_ge j n with hlt | hle
        · simpa [hj, selecting] using hbelow j hlt
        · rw [hidle j hle] at hj
          cases hj
  | tick | start | crash => trivial

-- A retry reopens the execution, and the sweep that comes then finds nothing to delete. The
-- execution is completed, and four days later the next sweep selects its job.
def reopenedRun : List Event :=
  [.start 1 (.retry none)] ++ List.replicate 5 (.go 1 .ok) ++
    [.start 2 .sweep, .go 2 .ok, .go 2 .ok] ++
    List.replicate 11 (.go 1 .ok) ++
    [.start 3 (.deliver 0), .go 3 .ok, .go 3 (.result ⟨false, true, 0, none, none⟩)] ++
    List.replicate 15 (.go 1 .ok) ++ [.tick (97 * hour), .start 4 .sweep, .go 4 .ok]

theorem retention_safe_reopened : ∃ s s', Reach (step Config.defaults) Initial Undisturbed s ∧
    s.procs 2 = .ended ∧ s.store.execution.any (·.state == .completed) = true ∧
      s.store.jobs.length = 1 ∧
    step Config.defaults s (.go 4 .ok) = some s' ∧ s'.store.execution = none ∧
      s'.store.jobs = [] := by
  let gone (s' : Manager) : Bool := decide (s'.store.execution = none ∧ s'.store.jobs = [])
  let completed (row : Execution) : Bool := row.state == .completed
  obtain ⟨s, hr, htest⟩ := Reach.replay_within (step Config.defaults) Initial
    Undisturbed (unselected 5)
    (fun s => ∀ k, 5 ≤ k → s.procs k = .idle) (fun _ _ => of_unselected) (s := expiredRun)
    (.inr ⟨⟨_, rfl, rfl, by decide⟩, by decide, fun _ => rfl, fun _ => rfl⟩) (fun _ _ => rfl)
    reopenedRun (idle_step 5 (by decide))
    (fun s => decide (s.procs 2 = .ended ∧ s.store.jobs.length = 1) &&
      s.store.execution.any completed &&
      (step Config.defaults s (.go 4 .ok)).any gone) (by decide)
  simp only [Bool.and_eq_true, decide_eq_true_eq, Option.any_eq_true _ (step _ _ _)] at htest
  obtain ⟨⟨⟨hended, hlength⟩, hcompleted⟩, s', hs, hgone⟩ := htest
  exact ⟨s, s', hr, hended, hcompleted, hlength, hs, of_decide_eq_true hgone⟩

-- A retry requeues the job before the sweep deletes it, and reopens the execution
-- between the two DELETEs: the running execution is left without its job.
theorem retention_leaves_no_jobs : ¬RetentionSafe Config.defaults fun _ _ => True := by
  intro hsafe
  have hinit : Initial expiredRun :=
    .inr ⟨⟨_, rfl, rfl, by decide⟩, by decide, fun _ => rfl, fun _ => rfl⟩
  obtain ⟨s, hr, -, htest⟩ := Reach.replay (step Config.defaults) Initial (fun _ _ => True)
    (fun _ _ => true) (fun _ _ _ => trivial) hinit
    [.start 1 (.retry none), .go 1 .ok, .go 1 .ok, .start 2 .sweep, .go 2 .ok, .go 1 .ok, .go 1 .ok]
    (fun s => s.store.jobs.any (·.job_id == 0) && (step Config.defaults s (.go 2 .ok)).any
      fun s' => s'.store.execution.isSome && s'.store.jobs.isEmpty) (by decide)
  simp only [Bool.and_eq_true, List.any_eq_true, Option.any_eq_true, List.isEmpty_iff] at htest
  obtain ⟨⟨job, hjob, -⟩, s', hs, hsome, hempty⟩ := htest
  obtain ⟨job', hjob', -⟩ := (hsafe s _ s' hr trivial hs).jobs hsome job hjob
  rw [hempty] at hjob'
  cases hjob'

end Reflowfy.Manager
