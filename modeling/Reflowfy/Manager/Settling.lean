import Reflowfy.Manager.Jobs
import Reflowfy.Manager.Phases

namespace Reflowfy

open Interleaving

-- From the count that finds every job finished to the write of the final state.
def Settles : Proc → Prop
  | .drive _ (.settle_sync _ _) | .settle _ _ _ _ => True
  | _ => False

theorem Goes.requeues_failed {cfg : Config} {i : TaskId} {s : Store} {p p' : Proc} {choice : Choice}
    {error_contains : Option String}
    (h : Goes cfg i s p choice (.requeue_failed error_contains) p') :
    p = .retry (.requeue error_contains) ∧ choice = .ok := by
  cases h <;> exact ⟨rfl, rfl⟩

-- A task comes to settle only where its own count has found no unfinished job.
theorem settles_goes {cfg : Config} {i : TaskId} {s : Store} {p p' : Proc}
    {choice : Choice} {stmt : Stmt} (h : Goes cfg i s p choice stmt p') (hp' : Settles p') :
    Settles p ∨ (stmt = .get_job_counts ∧ Drained s.jobs) := by
  cases h
  case counts_settle hdone | resume_settle hdone => exact .inr ⟨rfl, hdone⟩
  all_goals first | exact .inl trivial | exact hp'.elim

-- Settled jobs stay settled until a retry, or until the planner adds jobs.
theorem drained_run {cfg : Config} {s : Store} {stmt : Stmt} (h : Drained s.jobs)
    (hretry : ∀ error_contains, stmt ≠ .requeue_failed error_contains)
    (hcreates : s.execution.isSome → ∀ rows, stmt ≠ .create_jobs rows) :
      Drained (stmt.run cfg s).jobs := by
  intro job' hjob'
  rcases Stmt.mem_run_jobs hjob' with ⟨job, hjob, rfl⟩ | ⟨hsome, hnew⟩
  · refine Bool.eq_false_iff.mpr fun hunfinished => ?_
    rcases Stmt.onJob_unfinished hunfinished with hold | ⟨error_contains, hstmt⟩
    · rw [h job hjob] at hold
      cases hold
    · exact hretry error_contains hstmt
  · rw [Stmt.created_of_ne (hcreates hsome)] at hnew
    cases hnew

namespace Manager

variable {cfg : Config} {s : Manager}

-- A retry requeues failed jobs only while no task is settling the execution.
def Apart (s : Manager) : Event → Prop
  | .go i _ => ∀ error_contains, s.procs i = .retry (.requeue error_contains) →
      ∀ j, ¬Settles (s.procs j)
  | _ => True

-- A statement that lands while some task settles: no retry's, and no planner's.
theorem settling_stmt {i j : TaskId} {choice : Choice} {stmt : Stmt} {p : Proc}
    (hphase : ∀ k, Phase s.store k (s.procs k)) (hok : Apart s (.go i choice))
    (hgoes : Goes cfg i s.store (s.procs i) choice stmt p) (hj : Settles (s.procs j)) :
    (∀ error_contains, stmt ≠ .requeue_failed error_contains) ∧
      (s.store.execution.isSome → ∀ rows, stmt ≠ .create_jobs rows) := by
  refine ⟨fun error_contains hstmt => ?_, fun hsome rows hstmt => ?_⟩
  · subst hstmt
    exact hok error_contains hgoes.requeues_failed.1 j hj
  · subst hstmt
    obtain ⟨row, hrow⟩ := Option.isSome_iff_exists.mp hsome
    obtain ⟨leased, pl, -, hp⟩ := hgoes.creates
    have hplanning := hphase i
    have hplanned := hphase j
    have hunplanned : s.store.Unplanned := by
      rcases hp with hp | hp <;> rw [hp] at hplanning <;> exact hplanning.2
    generalize s.procs j = q at hj hplanned
    cases q
    case drive task pc => exact hplanned row hrow (hunplanned row hrow)
    case settle => exact hplanned row hrow (hunplanned row hrow)
    all_goals exact hj

theorem drained_go {i j : TaskId} {choice : Choice} {stmt : Stmt} {p : Proc}
    (hphase : ∀ k, Phase s.store k (s.procs k)) (hok : Apart s (.go i choice))
    (hgoes : Goes cfg i s.store (s.procs i) choice stmt p) (hj : Settles (s.procs j))
    (h : Drained s.store.jobs) : Drained (stmt.run cfg s.store).jobs := by
  obtain ⟨hretry, hcreates⟩ := settling_stmt hphase hok hgoes hj
  exact drained_run h hretry hcreates

-- While a task settles the execution, every job stays finished.
theorem settling_drained (hr : Reach (step cfg) Initial Apart s) :
    ∀ i, Settles (s.procs i) → Drained s.store.jobs := by
  have hpreserved : Preserved cfg Initial Apart (fun _ => True)
      fun store _ p => Settles p → Drained store.jobs :=
    { init := fun s hs => ⟨trivial, fun i hi => by
        rcases hs.proc i with hp | ⟨-, hp⟩ <;> rw [hp] at hi <;> exact hi.elim⟩
      tick := fun _ _ _ _ _ => ⟨trivial, fun _ hj => hj⟩
      start := fun _ _ _ _ _ _ hp hi => by
        rcases Entry.cases hp with ⟨r, rfl⟩ | ⟨_, rfl⟩ | rfl | ⟨_, -, rfl⟩ | ⟨_,
          rfl⟩ <;> exact hi.elim
      crash := fun _ _ hi => hi.elim
      go := fun s i choice stmt p hr hs hok hgoes => by
        have hphase := (phase_reach hr).2
        refine ⟨trivial, fun hp => ?_, fun j _ hj hsettles =>
          drained_go hphase hok hgoes hsettles (hj hsettles)⟩
        rcases settles_goes hgoes hp with hbefore | ⟨rfl, hdone⟩
        · exact drained_go hphase hok hgoes hbefore (hs.2 i hbefore)
        · exact drained_run hdone (by simp) (by simp) }
  exact (hpreserved.reach hr).2

end Manager

end Reflowfy
