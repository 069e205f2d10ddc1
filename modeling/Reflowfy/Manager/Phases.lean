import Reflowfy.Manager.Effects

namespace Reflowfy

open Interleaving

namespace Stmt

theorem onExecution_created_at (cfg : Config) (now : Int) (counts : JobCounts) (stmt : Stmt)
    (row : Execution) : (stmt.onExecution cfg now counts row).created_at = row.created_at := by
  cases stmt
  case claim_driver | heartbeat_driver | release_driver | release_drivers_on_host =>
    simp only [onExecution]
    split <;> rfl
  all_goals rfl

theorem onExecution_plan_complete (cfg : Config) (now : Int) (counts : JobCounts) (stmt : Stmt)
    (row : Execution) :
    (stmt.onExecution cfg now counts row).plan_complete = row.plan_complete ∨
      (stmt = .mark_plan_complete ∧
        (stmt.onExecution cfg now counts row).plan_complete = some true) := by
  cases stmt
  case mark_plan_complete => exact .inr ⟨rfl, rfl⟩
  case claim_driver | heartbeat_driver | release_driver | release_drivers_on_host =>
    simp only [onExecution]
    split <;> exact .inl rfl
  all_goals exact .inl rfl

theorem run_sent (cfg : Config) (s : Store) (stmt : Stmt) :
    (stmt.run cfg s).sent = stmt.sends ++ s.sent := by
  cases stmt
  case purge_executions =>
    simp only [run, purge]
    split
    · split <;> rfl
    · rfl
  all_goals rfl

end Stmt

def Store.Planned (s : Store) : Prop := ∀ row, s.execution = some row →
    row.plan_complete ≠ some false

def Store.Unplanned (s : Store) : Prop := ∀ row, s.execution = some row →
    row.plan_complete = some false

-- Where a task stands in the plan: only task 0 plans, the plan is complete once it has
-- marked it, and what dispatches jobs has seen a complete plan.
def Phase (s : Store) (i : TaskId) : Proc → Prop
  | .plan _ .stop => i = 0 ∧ s.Planned
  | .plan _ _ => i = 0 ∧ s.Unplanned
  | .drive _ _ | .settle _ _ _ _ | .resume .counts | .resume .orphans => s.Planned
  | _ => True

theorem Goes.marks {cfg : Config} {i : TaskId} {s : Store} {p p' : Proc} {choice : Choice}
    (h : Goes cfg i s p choice .mark_plan_complete p') : ∃ leased, p = .plan leased .mark := by
  cases h
  exact ⟨_, rfl⟩

-- Nothing but the creation of the record starts a planner.
theorem plan_goes_from {cfg : Config} {i : TaskId} {store : Store} {p : Proc}
    {choice : Choice} {stmt : Stmt}
    {leased' : Bool} {pc' : PlanPc} (h : Goes cfg i store p choice stmt (.plan leased' pc')) :
    ∃ leased pc, p = .plan leased pc := by
  cases h <;> exact ⟨_, _, rfl⟩

theorem plan_not_started {cfg : Config} {store : Store} {entry : Entry}
    {leased : Bool} {pc : PlanPc} :
    entry.proc cfg store ≠ some (.plan leased pc) := by
  intro h
  rcases Entry.cases h with ⟨_, h⟩ | ⟨_, h⟩ | h | ⟨_, -, h⟩ | ⟨_, h⟩ <;> cases h

theorem Goes.sends {cfg : Config} {i : TaskId} {s : Store} {p p' : Proc} {choice : Choice}
    {job_id : JobId} (h : Goes cfg i s p choice (.send job_id) p') :
    ∃ task track batch, p = .drive task (.send track batch) ∧ job_id ∈ batch.jobs := by
  cases h
  case send hjob => exact ⟨_, _, _, rfl, List.mem_of_mem_head? hjob⟩

theorem planned_run {cfg : Config} {s : Store} {stmt : Stmt} (h : s.Planned) :
    (stmt.run cfg s).Planned := by
  intro row' hrow'
  obtain ⟨row, hrow, rfl⟩ := Stmt.run_execution cfg s stmt hrow'
  rcases Stmt.onExecution_plan_complete cfg s.clock (get_job_counts s.jobs) stmt row with
    hsame | ⟨-, hmark⟩
  · rw [hsame]
    exact h row hrow
  · simp [hmark]

theorem unplanned_run {cfg : Config} {s : Store} {stmt : Stmt} (h : s.Unplanned)
    (hmark : stmt ≠ .mark_plan_complete) : (stmt.run cfg s).Unplanned := by
  intro row' hrow'
  obtain ⟨row, hrow, rfl⟩ := Stmt.run_execution cfg s stmt hrow'
  rcases Stmt.onExecution_plan_complete cfg s.clock (get_job_counts s.jobs) stmt
    row with hsame | ⟨hm, -⟩
  · rw [hsame]
    exact h row hrow
  · exact absurd hm hmark

theorem planned_mark (cfg : Config) (s : Store) : (Stmt.run cfg s .mark_plan_complete).Planned := by
  intro row' hrow'
  obtain ⟨row, hrow, rfl⟩ := Stmt.run_execution cfg s .mark_plan_complete hrow'
  exact fun h => by cases h

theorem planned_of_row {s : Store} {seen : Execution} (hrow : s.execution = some seen)
    (hplan : seen.plan_complete ≠ some false) : s.Planned := by
  intro row hrow'
  rw [hrow] at hrow'
  cases hrow'
  exact hplan

-- A task's own step.
theorem phase_goes {cfg : Config} {i : TaskId} {s : Store} {p p' : Proc}
    {choice : Choice} {stmt : Stmt}
    (h : Goes cfg i s p choice stmt p') (hp : Phase s i p) : Phase (stmt.run cfg s) i p' := by
  cases h
  case plan_mark => exact ⟨hp.1, planned_mark cfg s⟩
  case plan_stop | plan_stop_unleased | stop_error => exact planned_run hp.2
  case plan_beat pc =>
    cases pc
    case stop => exact ⟨hp.1, planned_run hp.2⟩
    all_goals exact ⟨hp.1, unplanned_run hp.2 (by simp)⟩
  case plan_error pc _ _ _ _ =>
    cases pc
    case stop => contradiction
    all_goals exact ⟨hp.1, unplanned_run hp.2 (by simp)⟩
  case resume_load hrow _ hplan | recover_planned hrow _ hplan =>
    exact planned_run (planned_of_row hrow hplan)
  all_goals
    first
    | trivial
    | exact planned_run hp
    | exact ⟨hp.1, unplanned_run hp.2 (by simp)⟩

-- A step of another task: only the one planner completes the plan.
theorem phase_other {cfg : Config} {i j : TaskId} {s : Store} {p q p' : Proc}
    {choice : Choice} {stmt : Stmt}
    (h : Goes cfg i s p choice stmt p') (hp : Phase s i p) (hij : j ≠ i) (hq : Phase s j q) :
    Phase (stmt.run cfg s) j q := by
  have hmark : ∀ leased pc, q = .plan leased pc → stmt ≠ .mark_plan_complete := by
    rintro leased pc rfl rfl
    obtain ⟨_, rfl⟩ := h.marks
    have hj : j = 0 := by cases pc <;> exact hq.1
    exact hij (hj.trans hp.1.symm)
  cases q
  case plan leased pc =>
    cases pc
    case stop => exact ⟨hq.1, planned_run hq.2⟩
    all_goals exact ⟨hq.1, unplanned_run hq.2 (hmark _ _ rfl)⟩
  case drive | settle => exact planned_run hq
  case resume pc => cases pc <;> first | trivial | exact planned_run hq
  all_goals trivial

namespace Manager

variable {cfg : Config} {s : Manager}

-- Nothing is sent of a plan that is not complete.
theorem phase_preserved (cfg : Config) (Ok : Manager → Event → Prop) :
    Preserved cfg Initial Ok (fun store => store.sent ≠ [] → store.Planned) Phase where
  init s hs := by
    rcases hs with hs | hs
    · obtain ⟨hrow, -, hsent, -, hplan, hidle⟩ := hs
      refine ⟨fun h => absurd hsent h, fun i => ?_⟩
      by_cases hi : i = 0
      · subst hi
        rw [hplan]
        refine ⟨rfl, fun row h => ?_⟩
        rw [hrow] at h
        cases h
        rfl
      · rw [hidle i hi]
        trivial
    · obtain ⟨⟨row, hrow, hplan, -⟩, -, -, hidle⟩ := hs
      refine ⟨fun _ => planned_of_row hrow (by simp [hplan]), fun i => ?_⟩
      rw [hidle i]
      trivial
  tick _ _ hs _ _ := ⟨hs.1, fun _ hj => hj⟩
  start _ _ _ _ _ _ hp := by
    rcases Entry.cases hp with ⟨r, rfl⟩ | ⟨_, rfl⟩ | rfl | ⟨_, -, rfl⟩ | ⟨_, rfl⟩ <;> trivial
  crash _ _ := trivial
  go s i choice stmt p _ hs _ hgoes := by
    refine ⟨fun hsent => planned_run ?_, phase_goes hgoes (hs.2 i),
      fun j hj hother => phase_other hgoes (hs.2 i) hj hother⟩
    by_cases hold : s.store.sent = []
    · rw [Stmt.run_sent, hold, List.append_nil] at hsent
      cases stmt <;> simp only [Stmt.sends, ne_eq, not_true] at hsent
      case send job_id =>
        -- a loop that sends has taken the plan to be complete
        obtain ⟨task, track, batch, hp, -⟩ := hgoes.sends
        have hphase := hs.2 i
        rw [hp] at hphase
        exact hphase
    · exact hs.1 hold

theorem phase_reach {Ok : Manager → Event → Prop} (hr : Reach (step cfg) Initial Ok s) :
    (s.store.sent ≠ [] → s.store.Planned) ∧ ∀ i, Phase s.store i (s.procs i) :=
  (phase_preserved cfg Ok).reach hr

end Manager

end Reflowfy
