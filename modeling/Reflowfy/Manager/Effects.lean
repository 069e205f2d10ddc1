import Reflowfy.JobManager.Rows
import Reflowfy.Manager.Transitions

namespace Reflowfy

open Interleaving

namespace Stmt

-- The state a statement writes, and the row its writer loaded.
def setsState : Stmt → Option (Execution × ExecutionState)
  | update_execution_state seen state _ => some (seen, state)
  | reopen_execution seen => some (seen, .running)
  | _ => none

theorem run_execution (cfg : Config) (s : Store) (stmt : Stmt) {row : Execution}
    (h : (stmt.run cfg s).execution = some row) :
    ∃ old, s.execution = some old ∧
      row = stmt.onExecution cfg s.clock (Reflowfy.get_job_counts s.jobs) old := by
  cases stmt
  case purge_executions cutoff doomed =>
    refine ⟨row, ?_, rfl⟩
    simp only [run, purge] at h
    split at h
    · split at h
      · cases h
      · exact h
    · exact h
  all_goals
    obtain ⟨old, hold, rfl⟩ := Option.map_eq_some_iff.mp h
    exact ⟨old, hold, rfl⟩

theorem onExecution_state (cfg : Config) (now : Int) (counts : JobCounts) (stmt : Stmt)
    (row : Execution) :
    (stmt.onExecution cfg now counts row).state =
      match stmt.setsState with
      | some (seen, state) => updated seen.state state row.state
      | none => row.state := by
  cases stmt <;> simp only [onExecution, setsState]
  case claim_driver | heartbeat_driver | release_driver | release_drivers_on_host =>
    split <;> rfl
  all_goals rfl

theorem onExecution_completed_at (cfg : Config) (now : Int) (counts : JobCounts) {stmt : Stmt}
    (row : Execution) (h : stmt.setsState = none) :
    (stmt.onExecution cfg now counts row).completed_at = row.completed_at := by
  cases stmt <;> simp only [onExecution]
  case claim_driver | heartbeat_driver | release_driver | release_drivers_on_host =>
    split <;> rfl
  case update_execution_state | reopen_execution => cases h
  all_goals rfl

@[simp] theorem onJob_job_id (cfg : Config) (now : Int) (stmt : Stmt) (row : Job) :
    (stmt.onJob cfg now row).job_id = row.job_id := by
  cases stmt <;> simp only [onJob]
  case job job_id jobStmt =>
    split
    · cases jobStmt <;> simp [JobStmt.set, Job.update_job_in_db, Job.update_job_state_failed]
    · rfl
  case cancel_unstarted_jobs | requeue_failed | requeue_orphans | reclaim_expired_leases => simp

-- The driver a statement of the lease is about.
def driver : Stmt → Option DriverId
  | claim_driver driver | heartbeat_driver driver | release_driver driver => some driver
  | _ => none

theorem run_granted (cfg : Config) (s : Store) {stmt : Stmt} {d : DriverId}
    (h : stmt.driver ≠ some d) :
    (stmt.run cfg s).granted d = s.granted d := by
  cases stmt
  case claim_driver | heartbeat_driver | release_driver =>
    exact Function.update_of_ne (fun heq => h (by rw [heq]; rfl)) _ _
  case purge_executions =>
    simp only [run, purge]
    split
    · split <;> rfl
    · rfl
  all_goals rfl

theorem run_clock (cfg : Config) (s : Store) (stmt : Stmt) : (stmt.run cfg s).clock = s.clock := by
  cases stmt
  case purge_executions =>
    simp only [run, purge]
    split
    · split <;> rfl
    · rfl
  all_goals rfl

-- No statement but the retention sweep's removes a job row.
theorem run_jobs (cfg : Config) (s : Store) {stmt : Stmt}
    (h : ∀ cutoff doomed, stmt ≠ .purge_executions cutoff doomed) :
    (stmt.run cfg s).jobs = s.jobs.map (stmt.onJob cfg s.clock) ++
      if s.execution.isSome then stmt.created s.clock else [] := by
  cases stmt
  case purge_executions cutoff doomed => exact absurd rfl (h cutoff doomed)
  all_goals rfl

end Stmt

-- The state a task is about to write, with the row it loaded for it.
def Proc.writes : Proc → Option (Execution × ExecutionState)
  | plan _ (.store seen) => some (seen, .running)
  | failed (.store _ seen) => some (seen, .failed)
  | settle _ _ _ (.store final seen) => some (seen, final)
  | resume (.missing_store _ seen) => some (seen, .failed)
  | resume (.recover_store _ seen) => some (seen, .failed)
  | request r (.store seen) => some (seen, r.target)
  | retry (.store _ seen) => some (seen, .running)
  | _ => none

theorem Goes.setsState {cfg : Config} {i : TaskId} {s : Store} {p p' : Proc}
    {choice : Choice} {stmt : Stmt}
    (h : Goes cfg i s p choice stmt p') : stmt.setsState = none ∨ stmt.setsState = p.writes := by
  cases h
  case plan_store | failed_store | settle_store | settle_store_resume | missing_store |
      recover_store | pause | resume_request | cancel | force_fail | retry_running | retry_store =>
    exact .inr rfl
  all_goals exact .inl rfl

-- A task claims, heartbeats and releases leases of its own only.
theorem Goes.driver_task {cfg : Config} {i : TaskId} {s : Store} {p p' : Proc} {choice : Choice}
    {stmt : Stmt} {d : DriverId} (h : Goes cfg i s p choice stmt p') (hd : stmt.driver = some d) :
    d.task = i := by
  cases h <;> cases hd <;> rfl

-- A task writes over the row it has just loaded.
theorem Goes.writes {cfg : Config} {i : TaskId} {s : Store} {p p' : Proc}
    {choice : Choice} {stmt : Stmt}
    {seen : Execution} {target : ExecutionState} (h : Goes cfg i s p choice stmt p')
    (hw : p'.writes = some (seen, target)) :
    p.writes = some (seen, target) ∨ (stmt.setsState = none ∧ s.execution = some seen) := by
  cases h
  case plan_beat => exact .inl hw
  case plan_load hrow | failed_load hrow | settle_load hrow | missing hrow _ | recover_load hrow |
      request_load hrow _ | retry_reload hrow =>
    cases hw
    exact .inr ⟨rfl, hrow⟩
  all_goals cases hw

namespace Manager

variable {cfg : Config} {s s' : Manager} {e : Event}

theorem step_goes {i : TaskId} {choice : Choice} (h : step cfg s (.go i choice) = some s') :
    ∃ stmt p, Goes cfg i s.store (s.procs i) choice stmt p ∧
      s' = s.set i (stmt.run cfg s.store) p := by
  obtain ⟨a, ha, rfl⟩ := step_go h
  exact ⟨a.stmt, _, goes_of_act ha, rfl⟩

-- What a store invariant `I` and the assertions `A` of the tasks have to meet to hold
-- in every state of every run.
structure Preserved (cfg : Config) (Init : Manager → Prop) (Ok : Manager → Event → Prop)
    (I : Store → Prop) (A : Store → TaskId → Proc → Prop) : Prop where
  init : ∀ s, Init s → s.Holds I A
  tick : ∀ s now, s.Holds I A → Ok s (.tick now) → s.store.clock ≤ now →
    I { s.store with clock := now } ∧
      ∀ j, A s.store j (s.procs j) → A { s.store with clock := now } j (s.procs j)
  start : ∀ s i entry p, s.Holds I A → Ok s (.start i entry) → entry.proc cfg s.store = some p →
    A s.store i p
  crash : ∀ store i, A store i .ended
  -- a statement of task `i` keeps the invariant, its own assertion and those of the others
  go : ∀ s i choice stmt p, Reach (step cfg) Init Ok s → s.Holds I A → Ok s (.go i choice) →
    Goes cfg i s.store (s.procs i) choice stmt p →
    I (stmt.run cfg s.store) ∧ A (stmt.run cfg s.store) i p ∧
      ∀ j, j ≠ i → A s.store j (s.procs j) → A (stmt.run cfg s.store) j (s.procs j)

theorem Preserved.reach {Init : Manager → Prop} {Ok : Manager → Event → Prop} {I : Store → Prop}
    {A : Store → TaskId → Proc → Prop} (h : Preserved cfg Init Ok I A)
    (hr : Reach (step cfg) Init Ok s) : s.Holds I A := by
  refine hr.invariant h.init fun s e s' hr hs hok hstep => ?_
  cases e with
  | tick now =>
      obtain ⟨hle, rfl⟩ := step_tick hstep
      obtain ⟨hI, hA⟩ := h.tick s now hs hok hle
      exact ⟨hI, fun j => hA j (hs.2 j)⟩
  | start i entry =>
      obtain ⟨-, p, hp, rfl⟩ := step_start hstep
      exact hs.set hs.1 (h.start s i entry p hs hok hp) fun _ _ hj => hj
  | go i choice =>
      obtain ⟨stmt, p, hgoes, rfl⟩ := step_goes hstep
      obtain ⟨hI, hown, hothers⟩ := h.go s i choice stmt p hr hs hok hgoes
      exact hs.set hI hown hothers
  | crash i =>
      cases hstep
      exact hs.set hs.1 (h.crash s.store i) fun _ _ hj => hj

-- The store after a step: as a task's statement leaves it, or with a later clock.
theorem step_store (hs : step cfg s e = some s') :
    (∃ now, s.store.clock ≤ now ∧ s'.store = { s.store with clock := now }) ∨
      ∃ i choice stmt, e = .go i choice ∧ Goes cfg i s.store (s.procs i) choice stmt (s'.procs i) ∧
        s'.store = stmt.run cfg s.store := by
  cases e with
  | tick now =>
      obtain ⟨hle, rfl⟩ := step_tick hs
      exact .inl ⟨now, hle, rfl⟩
  | start i entry =>
      obtain ⟨-, p, -, rfl⟩ := step_start hs
      exact .inl ⟨_, Int.le_refl _, rfl⟩
  | go i choice =>
      obtain ⟨stmt, p, hgoes, rfl⟩ := step_goes hs
      exact .inr ⟨i, choice, stmt, rfl, by simpa using hgoes, rfl⟩
  | crash i =>
      cases hs
      exact .inl ⟨_, Int.le_refl _, rfl⟩

-- Task `i` after a step: as it was, dead, just started, or a statement further.
theorem step_proc (hs : step cfg s e = some s') (i : TaskId) :
    s'.procs i = s.procs i ∨ s'.procs i = .ended ∨
      (∃ entry, Entry.proc cfg s.store entry = some (s'.procs i)) ∨
      ∃ choice stmt, e = .go i choice ∧ Goes cfg i s.store (s.procs i) choice stmt (s'.procs i) ∧
        s'.store = stmt.run cfg s.store := by
  cases e with
  | tick now =>
      obtain ⟨-, rfl⟩ := step_tick hs
      exact .inl rfl
  | start j entry =>
      obtain ⟨-, p, hp, rfl⟩ := step_start hs
      by_cases hi : i = j
      · subst hi
        exact .inr (.inr (.inl ⟨entry, by simpa using hp⟩))
      · exact .inl (Pool.set_procs_of_ne s _ p hi)
  | go j choice =>
      obtain ⟨stmt, p, hgoes, rfl⟩ := step_goes hs
      by_cases hi : i = j
      · subst hi
        exact .inr (.inr (.inr ⟨choice, stmt, rfl, by simpa using hgoes, rfl⟩))
      · exact .inl (Pool.set_procs_of_ne s _ p hi)
  | crash j =>
      cases hs
      by_cases hi : i = j
      · subst hi
        exact .inr (.inl (Pool.set_procs_self s i _ _))
      · exact .inl (Pool.set_procs_of_ne s _ _ hi)

theorem step_untouched {i : TaskId} (hs : step cfg s e = some s') (hi : e.task ≠ some i) :
    s'.procs i = s.procs i := by
  cases e with
  | tick now =>
      obtain ⟨-, rfl⟩ := step_tick hs
      rfl
  | start j entry =>
      obtain ⟨-, p, -, rfl⟩ := step_start hs
      exact Pool.set_procs_of_ne s _ p fun h => hi (by rw [h]; rfl)
  | go j choice =>
      obtain ⟨stmt, p, -, rfl⟩ := step_goes hs
      exact Pool.set_procs_of_ne s _ p fun h => hi (by rw [h]; rfl)
  | crash j =>
      cases hs
      exact Pool.set_procs_of_ne s _ _ fun h => hi (by rw [h]; rfl)

-- A run that takes steps of tasks below `n` only leaves the others where they were.
theorem replay_untouched {ok : Manager → Event → Bool} {es : List Event} {i : TaskId} (n : ℕ)
    (hes : es.all (·.task.all (· < n)) = true) (hi : n ≤ i) {s s' : Manager}
    (h : replay (step cfg) ok s es = some s') : s'.procs i = s.procs i := by
  induction es generalizing s with
  | nil =>
      cases h
      rfl
  | cons e es ih =>
      simp only [List.all_cons, Bool.and_eq_true] at hes
      simp only [replay, Option.ite_none_right_eq_some] at h
      obtain ⟨-, h⟩ := h
      split at h
      · rename_i next hs
        rw [ih hes.2 h, step_untouched hs fun he => ?_]
        simp [he, Nat.not_lt.mpr hi] at hes
      · cases h

-- Nor do such a run's steps begin any of them.
theorem idle_step (n : ℕ) {es : List Event} (hes : es.all (·.task.all (· < n)) = true) :
    ∀ e ∈ es, ∀ s s' : Manager, (∀ k, n ≤ k → s.procs k = .idle) → step cfg s e = some s' →
      ∀ k, n ≤ k → s'.procs k = .idle := by
  intro e he s s' hidle hs k hk
  have htask := List.all_eq_true.mp hes e he
  rw [step_untouched hs fun h => ?_]
  · exact hidle k hk
  · simp only [h, Option.all_some, decide_eq_true_eq] at htask
    exact absurd htask (Nat.not_lt.mpr hk)

def Below (n : ℕ) (A : Proc → Prop) (s : Manager) : Prop := ∀ i < n, A (s.procs i)

instance {n : ℕ} {A : Proc → Prop} [DecidablePred A] (s : Manager) : Decidable (Below n A s) :=
  Nat.decidableBallLT n _

theorem replay_below {ok : Manager → Event → Bool} {es : List Event} {A : Proc → Prop} (n : ℕ)
    (hes : es.all (·.task.all (· < n)) = true) {s s' : Manager}
    (h : replay (step cfg) ok s es = some s') (hbelow : Below n A s') (i : TaskId) :
    A (s'.procs i) ∨ (n ≤ i ∧ s'.procs i = s.procs i) := by
  rcases Nat.lt_or_ge i n with hlt | hle
  · exact .inl (hbelow i hlt)
  · exact .inr ⟨hle, replay_untouched n hes hle h⟩

-- The execution row after a step: as it was, or as a task's statement leaves it.
theorem step_execution (hs : step cfg s e = some s') {row' : Execution}
    (hrow' : s'.store.execution = some row') :
    s.store.execution = some row' ∨ ∃ i choice stmt p row, e = .go i choice ∧
      Goes cfg i s.store (s.procs i) choice stmt p ∧ s.store.execution = some row ∧
      row' = stmt.onExecution cfg s.store.clock (get_job_counts s.store.jobs) row := by
  rcases step_store hs with ⟨now, -, hstore⟩ | ⟨i, choice, stmt, he, hgoes, hstore⟩
  · rw [hstore] at hrow'
    exact .inl hrow'
  · rw [hstore] at hrow'
    obtain ⟨row, hrow, heq⟩ := Stmt.run_execution cfg s.store stmt hrow'
    exact .inr ⟨i, choice, stmt, _, row, he, hgoes, hrow, heq⟩

-- The state of the row changes only where a task writes it.
theorem step_state (hs : step cfg s e = some s') {row row' : Execution}
    (hrow : s.store.execution = some row) (hrow' : s'.store.execution = some row') :
    row'.state = row.state ∨ ∃ i choice seen target, e = .go i choice ∧
      (s.procs i).writes = some (seen, target) ∧ target ≠ seen.state ∧ row'.state = target := by
  rcases step_execution hs hrow' with hsame | ⟨i, choice, stmt, p, old, rfl, hgoes, hold, rfl⟩
  · rw [hrow] at hsame
    cases hsame
    exact .inl rfl
  · rw [hrow] at hold
    cases hold
    rw [Stmt.onExecution_state]
    rcases hgoes.setsState with hnone | hwrites
    · simp [hnone]
    · cases hw : (s.procs i).writes with
      | none => simp [hwrites, hw]
      | some write =>
          obtain ⟨seen, target⟩ := write
          simp only [hwrites, hw, updated]
          split
          · exact .inl rfl
          · rename_i hne
            exact .inr ⟨i, choice, seen, target, rfl, hw, hne, rfl⟩

end Manager

end Reflowfy
