import Reflowfy.Lifecycle.States
import Reflowfy.Manager.Leases
import Reflowfy.Manager.Phases

namespace Reflowfy.Manager

open Interleaving

-- The planner is live: it takes its lease before the execution is a lease old, and while
-- it holds the lease its heartbeats never lie more than a lease apart.
def live (cfg : Config) (s : Manager) (e : Event) : Bool :=
  match s.procs 0 with
  | .plan _ .lease =>
      s.store.execution.all (s.store.clock < ·.created_at + cfg.DRIVER_LEASE_SECONDS) &&
        match e with
        | .go 0 choice => choice == .ok
        | _ => true
  | .plan _ _ => (s.store.granted ⟨.plan, 0⟩).all (s.store.clock ≤ · + cfg.DRIVER_LEASE_SECONDS)
  | _ => true

-- A recovery is granted the lease only while the plan is incomplete, as it was when
-- the recovery last looked.
def SeizesUnplanned (cfg : Config) (s : Manager) : Event → Prop
  | .go i _ => s.procs i = .resume .recover_claim → ∀ row, s.store.execution = some row →
      row.claimable ⟨.recover, i⟩ cfg.DRIVER_LEASE_SECONDS s.store.clock = true →
      row.plan_complete = some false
  | _ => True

-- A recovery marks the execution failed as stopped while planning.
def Abandons (s : Manager) (e : Event) : Prop :=
  ∃ i saved seen, e = .go i .ok ∧ s.procs i = .resume (.recover_store saved seen)

-- An execution so marked was not planned to the end, nor will it be.
def PlanKept (cfg : Config) (Ok : Manager → Event → Prop) : Prop :=
  ∀ s e s' s'', Reach (step cfg) Fresh Ok s → Abandons s e → Ok s e → step cfg s e = some s' →
    Path (step cfg) Ok s' s'' → s.store.Unplanned ∧ s''.store.Unplanned

-- Before `mark_plan_complete` has committed.
def MidPlan : Proc → Prop
  | .plan _ .stop => False
  | .plan _ _ => True
  | _ => False

-- Of a plan whose planner dies before it is complete, nothing is ever sent.
def FragmentKept (cfg : Config) (Ok : Manager → Event → Prop) : Prop :=
  ∀ s s' s'', Reach (step cfg) Fresh Ok s → MidPlan (s.procs 0) → step cfg s (.crash 0) = some s' →
    Path (step cfg) Ok s' s'' → s''.store.sent = []

variable {cfg : Config} {s s' : Manager} {e : Event} {Ok : Manager → Event → Prop}

theorem phase_fresh (hr : Reach (step cfg) Fresh Ok s) (i : TaskId) : Phase s.store i (s.procs i) :=
  (phase_reach (hr.mono (fun _ h => .inl h) fun _ _ h => h)).2 i

section Planner

def NoPlanner (s : Manager) : Prop := ∀ i leased pc, s.procs i ≠ .plan leased pc

-- Only task 0 plans.
theorem plan_task (hr : Reach (step cfg) Fresh Ok s) {i : TaskId} {leased : Bool} {pc : PlanPc}
    (hp : s.procs i = .plan leased pc) : i = 0 := by
  have hphase := phase_fresh hr i
  rw [hp] at hphase
  cases pc <;> exact hphase.1

theorem noPlanner_of_zero (hr : Reach (step cfg) Fresh Ok s)
    (h : ∀ leased pc, s.procs 0 ≠ .plan leased pc) : NoPlanner s := by
  intro i leased pc hp
  rw [plan_task hr hp] at hp
  exact h leased pc hp

theorem noPlanner_step (h : NoPlanner s) (hs : step cfg s e = some s') : NoPlanner s' := by
  intro i leased pc hp
  rcases step_proc hs i with hsame | hended | ⟨entry, hentry⟩ | ⟨choice, stmt, -, hgoes, -⟩
  · exact h i leased pc (hsame ▸ hp)
  · rw [hended] at hp
    cases hp
  · rw [hp] at hentry
    exact plan_not_started hentry
  · rw [hp] at hgoes
    obtain ⟨leased', pc', hp'⟩ := plan_goes_from hgoes
    exact h i leased' pc' hp'

theorem unplanned_step (h : s.store.Unplanned) (hnone : NoPlanner s) (hs : step cfg s e = some s') :
    s'.store.Unplanned := by
  rcases step_store hs with ⟨now, -, hstore⟩ | ⟨i, choice, stmt, -, hgoes, hstore⟩
  · rw [hstore]
    exact h
  · rw [hstore]
    refine unplanned_run h ?_
    rintro rfl
    obtain ⟨leased, hp⟩ := hgoes.marks
    exact hnone i leased _ hp

end Planner

section Fragment

-- What may send a job, now or after a few steps of its own.
def Dispatching : Proc → Prop
  | .drive _ _ | .settle _ _ _ _ | .resume .counts | .resume .orphans => True
  | _ => False

structure Undispatched (s : Manager) : Prop where
  unplanned : s.store.Unplanned
  sent : s.store.sent = []
  procs : ∀ i, ¬Dispatching (s.procs i)

-- Only a complete plan is dispatched.
theorem dispatching_goes {i : TaskId} {store : Store} {p p' : Proc} {choice : Choice} {stmt : Stmt}
    (h : Goes cfg i store p choice stmt p') (hp' : Dispatching p') :
    Dispatching p ∨ (∃ leased, p = .plan leased .stop) ∨ ¬store.Unplanned := by
  cases h
  case plan_stop | plan_stop_unleased | stop_error => exact .inr (.inl ⟨_, rfl⟩)
  case resume_load hrow _ hplan | recover_planned hrow _ hplan =>
    exact .inr (.inr fun h => hplan (h _ hrow))
  all_goals first | exact .inl trivial | exact hp'.elim

theorem undispatched_step (h : Undispatched s) (hunplanned : s'.store.Unplanned)
    (hstop : ∀ i leased, s.procs i ≠ .plan leased .stop) (hs : step cfg s e = some s') :
    Undispatched s' where
  unplanned := hunplanned
  sent := by
    rcases step_store hs with ⟨now, -, hstore⟩ | ⟨i, choice, stmt, -, hgoes, hstore⟩
    · rw [hstore]
      exact h.sent
    · rw [hstore, Stmt.run_sent, h.sent, List.append_nil]
      cases stmt
      case send job_id =>
        obtain ⟨task, track, batch, hp, -⟩ := hgoes.sends
        have hnone := h.procs i
        rw [hp] at hnone
        exact absurd trivial hnone
      all_goals rfl
  procs i := by
    intro hdispatching
    rcases step_proc hs i with hsame | hended | ⟨entry, hentry⟩ | ⟨choice, stmt, -, hgoes, -⟩
    · exact h.procs i (hsame ▸ hdispatching)
    · rw [hended] at hdispatching
      exact hdispatching
    · rcases Entry.cases hentry with ⟨_, hp⟩ | ⟨_, hp⟩ | hp | ⟨_, -, hp⟩ | ⟨_, hp⟩ <;>
        rw [hp] at hdispatching <;> exact hdispatching
    · rcases dispatching_goes hgoes hdispatching with hd | ⟨leased, hp⟩ | hplanned
      · exact h.procs i hd
      · exact hstop i leased hp
      · exact hplanned h.unplanned

theorem undispatched_fresh (h : Fresh s) : Undispatched s where
  unplanned row hrow := by
    rw [h.1] at hrow
    cases hrow
    rfl
  sent := h.2.2.1
  procs i := by
    rcases Initial.proc (.inl h) i with hp | ⟨-, hp⟩ <;> rw [hp] <;> exact not_false

theorem midPlan_goes {i : TaskId} {store : Store} {p p' : Proc} {choice : Choice} {stmt : Stmt}
    (h : Goes cfg i store p choice stmt p') (hp' : MidPlan p') : MidPlan p := by
  cases h
  case plan_beat => exact hp'
  case plan_mark => exact hp'.elim
  case plan_error pc _ _ _ hstop =>
    cases pc
    case stop => contradiction
    all_goals trivial
  all_goals trivial

theorem midPlan_step (hp' : MidPlan (s'.procs 0)) (hs : step cfg s e = some s') :
    MidPlan (s.procs 0) := by
  rcases step_proc hs 0 with hsame | hended | ⟨entry, hentry⟩ | ⟨choice, stmt, -, hgoes, -⟩
  · exact hsame ▸ hp'
  · rw [hended] at hp'
    exact hp'.elim
  · rcases Entry.cases hentry with ⟨_, hp⟩ | ⟨_, hp⟩ | hp | ⟨_, -, hp⟩ | ⟨_, hp⟩ <;>
      rw [hp] at hp' <;> exact hp'.elim
  · exact midPlan_goes hgoes hp'

theorem midPlan_unplanned {store : Store} {i : TaskId} {p : Proc} (hphase : Phase store i p)
    (hp : MidPlan p) : store.Unplanned := by
  cases p
  case plan leased pc =>
    cases pc
    case stop => exact hp.elim
    all_goals exact hphase.2
  all_goals exact hp.elim

theorem midPlan_undispatched (hr : Reach (step cfg) Fresh Ok s) :
    MidPlan (s.procs 0) → Undispatched s := by
  refine hr.invariant (I := fun s => MidPlan (s.procs 0) → Undispatched s)
    (fun s h _ => undispatched_fresh h) fun s e s' hr ih hok hs hp' => ?_
  have hp := midPlan_step hp' hs
  refine undispatched_step (ih hp) (midPlan_unplanned (phase_fresh (hr.step hok hs) 0) hp') ?_ hs
  intro i leased hstop
  rw [plan_task hr hstop] at hstop
  rw [hstop] at hp
  exact hp

theorem fragment_kept (cfg : Config) (Ok : Manager → Event → Prop) : FragmentKept cfg Ok := by
  intro s s' s'' hr hp hs hpath
  have hundispatched := midPlan_undispatched hr hp
  have hended : s'.procs 0 = .ended := by
    cases hs
    exact Pool.set_procs_self s 0 _ _
  have hnone : NoPlanner s' := by
    intro i leased pc hplan
    rcases step_proc hs i with hsame | hend | ⟨entry, hentry⟩ | ⟨_, _, he, -, -⟩
    · have hi := plan_task hr (hsame ▸ hplan)
      rw [hi, hended] at hplan
      cases hplan
    · rw [hend] at hplan
      cases hplan
    · rw [hplan] at hentry
      exact plan_not_started hentry
    · cases he
  have hstart : Undispatched s' := by
    cases hs
    refine ⟨hundispatched.unplanned, hundispatched.sent, fun i hd => ?_⟩
    by_cases hi : i = 0
    · subst hi
      rw [hended] at hd
      exact hd
    · rw [Pool.set_procs_of_ne s _ _ hi] at hd
      exact hundispatched.procs i hd
  have hkept := hpath.invariant (I := fun m => NoPlanner m ∧ Undispatched m) ?_ ⟨hnone, hstart⟩
  · exact hkept.2.sent
  · rintro m e m' ⟨hnone, hm⟩ - hs
    exact ⟨noPlanner_step hnone hs,
      undispatched_step hm (unplanned_step hm.unplanned hnone hs)
        (fun i leased => hnone i leased _) hs⟩

end Fragment

section Recovery

-- The planner has its lease from its first step on, unless the row is gone; a recovery
-- claims the lease of an execution older than one lease.
def PlanLease (cfg : Config) (store : Store) (i : TaskId) : Proc → Prop
  | .plan _ .lease => ∀ row, store.execution = some row → row.driver_id = none
  | .plan _ _ => store.execution.isSome → (store.granted ⟨.plan, i⟩).isSome
  | .resume .recover_claim => ∀ row, store.execution = some row →
      row.created_at + cfg.DRIVER_LEASE_SECONDS ≤ store.clock
  | _ => True

def Guarded (cfg : Config) (s : Manager) (e : Event) : Prop :=
  live cfg s e = true ∧ SeizesUnplanned cfg s e

theorem live_lease {leased : Bool} (h : live cfg s e = true) (hp : s.procs 0 = .plan leased .lease)
    {row : Execution} (hrow : s.store.execution = some row) :
    s.store.clock < row.created_at + cfg.DRIVER_LEASE_SECONDS ∧ ∀ choice, e = .go 0 choice →
      choice = .ok := by
  simp only [live, hp, hrow, Option.all_some, Bool.and_eq_true, decide_eq_true_eq] at h
  refine ⟨h.1, fun choice he => ?_⟩
  subst he
  simpa using h.2

theorem live_beat {leased : Bool} {pc : PlanPc} (h : live cfg s e = true)
    (hp : s.procs 0 = .plan leased pc)
    (hpc : pc ≠ .lease) {at_ : Int} (hgranted : s.store.granted ⟨.plan, 0⟩ = some at_) :
    s.store.clock ≤ at_ + cfg.DRIVER_LEASE_SECONDS := by
  cases pc
  case lease => contradiction
  all_goals simpa [live, hp, hgranted] using h

-- A live planner still owns the row.
theorem plan_owner {leased : Bool} {pc : PlanPc} {row : Execution}
    (howner : OwnerOrStale cfg (·.role = .plan) s.store) (hlive : live cfg s e = true)
    (hp : s.procs 0 = .plan leased pc) (hpc : pc ≠ .lease) (hrow : s.store.execution = some row)
    (hgranted : (s.store.granted ⟨.plan, 0⟩).isSome) :
    ∃ at_, row.driver_id = some ⟨.plan, 0⟩ ∧ row.driver_heartbeat_at = some at_ ∧
      s.store.clock ≤ at_ + cfg.DRIVER_LEASE_SECONDS := by
  obtain ⟨at_, hat⟩ := Option.isSome_iff_exists.mp hgranted
  have hclock := live_beat hlive hp hpc hat
  rcases howner _ at_ rfl hat row hrow with ⟨hid, hbeat⟩ | hstale
  · exact ⟨at_, hid, hbeat, hclock⟩
  · omega

-- A live planner is not displaced by a recovery.
theorem recover_refused {leased : Bool} {pc : PlanPc} {i : TaskId} {row : Execution}
    (howner : OwnerOrStale cfg (·.role = .plan) s.store)
    (hlease : ∀ j, PlanLease cfg s.store j (s.procs j))
    (hlive : live cfg s e = true) (hp : s.procs 0 = .plan leased pc)
    (hi : s.procs i = .resume .recover_claim) (hrow : s.store.execution = some row) :
    row.claimable ⟨.recover, i⟩ cfg.DRIVER_LEASE_SECONDS s.store.clock = false := by
  by_cases hpc : pc = .lease
  · subst hpc
    have hage := hlease i
    rw [hi] at hage
    have hyoung := (live_lease hlive hp hrow).1
    have hold := hage row hrow
    omega
  · have hgranted := hlease 0
    rw [hp] at hgranted
    have hsome : (s.store.granted ⟨.plan, 0⟩).isSome := by
      cases pc
      case lease => contradiction
      all_goals exact hgranted (by simp [hrow])
    obtain ⟨at_, hid, hbeat, hclock⟩ := plan_owner howner hlive hp hpc hrow hsome
    refine Bool.eq_false_iff.mpr fun hclaim => ?_
    have hne : (⟨.plan, 0⟩ : DriverId) ≠ ⟨.recover, i⟩ := by simp
    have hstale := stale_of_claimable hclaim hne hid hbeat
    omega

theorem created_run {stmt : Stmt} {store : Store}
    (h : ∀ row, store.execution = some row →
      row.created_at + cfg.DRIVER_LEASE_SECONDS ≤ store.clock) :
    ∀ row, (stmt.run cfg store).execution = some row →
      row.created_at + cfg.DRIVER_LEASE_SECONDS ≤ (stmt.run cfg store).clock := by
  intro row' hrow'
  obtain ⟨row, hrow, rfl⟩ := Stmt.run_execution cfg store stmt hrow'
  rw [Stmt.onExecution_created_at, Stmt.run_clock]
  exact h row hrow

theorem granted_run {stmt : Stmt} {store : Store} {driver : DriverId}
    (hd : stmt.driver ≠ some driver) (h : store.execution.isSome → (store.granted driver).isSome) :
    (stmt.run cfg store).execution.isSome → ((stmt.run cfg store).granted driver).isSome := by
  intro hsome
  obtain ⟨row', hrow'⟩ := Option.isSome_iff_exists.mp hsome
  obtain ⟨row, hrow, -⟩ := Stmt.run_execution cfg store stmt hrow'
  rw [Stmt.run_granted cfg store hd]
  exact h (by simp [hrow])

theorem unowned_run {stmt : Stmt} {store : Store} (hclaim : ∀ driver, stmt ≠ .claim_driver driver)
    (h : ∀ row, store.execution = some row → row.driver_id = none) :
    ∀ row, (stmt.run cfg store).execution = some row → row.driver_id = none := by
  intro row' hrow'
  obtain ⟨row, hrow, rfl⟩ := Stmt.run_execution cfg store stmt hrow'
  have hnone := h row hrow
  cases stmt <;> simp only [Stmt.onExecution]
  case claim_driver driver => exact absurd rfl (hclaim driver)
  case heartbeat_driver | release_driver | release_drivers_on_host =>
    split
    · first | rfl | exact hnone
    · exact hnone
  all_goals exact hnone

-- A planner's own step.
theorem planLease_goes {choice : Choice} {stmt : Stmt} {i : TaskId} {p' : Proc}
    (hr : Reach (step cfg) Fresh Ok s) (howner : OwnerOrStale cfg (·.role = .plan) s.store)
    (hlease : ∀ j, PlanLease cfg s.store j (s.procs j)) (hlive : live cfg s (.go i choice) = true)
    (h : Goes cfg i s.store (s.procs i) choice stmt p') :
      PlanLease cfg (stmt.run cfg s.store) i p' := by
  have hown := hlease i
  have hzero : ∀ leased pc, s.procs i = .plan leased pc → i = 0 := fun _ _ => plan_task hr
  generalize hp : s.procs i = p at h hown hzero
  cases h
  case plan_beat pc =>
    cases hzero _ _ rfl
    cases pc
    case lease => exact unowned_run (by simp) hown
    all_goals
      intro hsome
      obtain ⟨row', hrow'⟩ := Option.isSome_iff_exists.mp hsome
      obtain ⟨row, hrow, -⟩ := Stmt.run_execution cfg s.store _ hrow'
      obtain ⟨at_, hid, -, -⟩ := plan_owner howner hlive hp (by simp) hrow (hown (by simp [hrow]))
      simp [Stmt.run, Stmt.grants, hrow, hid]
  case plan_lease =>
    intro hsome
    obtain ⟨row', hrow'⟩ := Option.isSome_iff_exists.mp hsome
    obtain ⟨row, hrow, -⟩ := Stmt.run_execution cfg s.store _ hrow'
    simp [Stmt.run, Stmt.grants, hrow, Execution.claimable, hown row hrow]
  case lease_error hraised =>
    cases hzero _ _ rfl
    intro hsome
    obtain ⟨row', hrow'⟩ := Option.isSome_iff_exists.mp hsome
    obtain ⟨row, hrow, -⟩ := Stmt.run_execution cfg s.store _ hrow'
    rw [(live_lease hlive hp hrow).2 choice rfl] at hraised
    cases hraised
  case plan_error pc _ _ hlease' _ =>
    cases pc
    case lease => contradiction
    all_goals exact granted_run (by simp [Stmt.driver]) hown
  case recover_old hseen _ _ hage =>
    refine created_run fun row hrow => ?_
    rw [hseen] at hrow
    cases hrow
    omega
  all_goals first | trivial | exact granted_run (by simp [Stmt.driver]) hown

-- A step of another task.
theorem planLease_other {choice : Choice} {stmt : Stmt} {i j : TaskId} {p' : Proc}
    (hr : Reach (step cfg) Fresh Ok s) (hlease : ∀ j, PlanLease cfg s.store j (s.procs j))
    (hlive : live cfg s (.go i choice) = true) (h : Goes cfg i s.store (s.procs i) choice stmt p')
    (hj : j ≠ i) : PlanLease cfg (stmt.run cfg s.store) j (s.procs j) := by
  have hother := hlease j
  have hzero : ∀ leased pc, s.procs j = .plan leased pc → j = 0 := fun _ _ => plan_task hr
  have hphase := phase_fresh hr
  generalize hq : s.procs j = q at hother hzero
  have hgranted : ∀ leased pc, q = .plan leased pc → stmt.driver ≠ some ⟨.plan, j⟩ :=
    fun _ _ _ hd => hj (h.driver_task hd)
  cases q
  case plan leased pc =>
    cases hzero _ _ rfl
    cases pc
    case lease =>
      intro row' hrow'
      obtain ⟨row, hrow, -⟩ := Stmt.run_execution cfg s.store stmt hrow'
      -- nobody else claims the lease of an execution this young
      refine unowned_run (fun driver hclaim => ?_) hother row' hrow'
      subst hclaim
      have hp := hphase i
      have hplan := hphase 0
      rw [hq] at hplan
      generalize hi : s.procs i = p at h hp
      cases h
      case plan_lease => exact hj hp.1.symm
      case claim | claim_refused => exact hp row hrow (hplan.2 row hrow)
      case recover_claim | recover_claim_refused =>
        have hold := hlease i
        rw [hi] at hold
        have hyoung := (live_lease hlive hq hrow).1
        have hage := hold row hrow
        omega
    all_goals exact granted_run (hgranted _ _ rfl) hother
  case resume pc =>
    cases pc
    case recover_claim => exact created_run hother
    all_goals trivial
  all_goals trivial

theorem planLease_preserved (cfg : Config) : Preserved cfg Fresh (Guarded cfg)
    (OwnerOrStale cfg (·.role = .plan)) (PlanLease cfg) where
  init s hs := by
    refine ⟨ownerOrStale_initial (.inl hs), fun i => ?_⟩
    rcases Initial.proc (.inl hs) i with hp | ⟨rfl, hp⟩ <;> rw [hp]
    · trivial
    · intro row hrow
      rw [hs.1] at hrow
      cases hrow
      rfl
  tick s now hs _ hle := by
    refine ⟨ownerOrStale_tick hs.1 hle, fun j hj => ?_⟩
    generalize s.procs j = q at hj
    cases q
    case plan leased pc => cases pc <;> exact hj
    case resume pc =>
      cases pc
      case recover_claim => exact fun row hrow => Int.le_trans (hj row hrow) hle
      all_goals trivial
    all_goals trivial
  start _ _ _ _ _ _ hp := by
    rcases Entry.cases hp with ⟨r, rfl⟩ | ⟨_, rfl⟩ | rfl | ⟨_, -, rfl⟩ | ⟨_, rfl⟩ <;> trivial
  crash _ _ := trivial
  go s i choice stmt p hr hs hok hgoes := by
    refine ⟨ownerOrStale_run hs.1 fun _ _ _ hrole hloop => ?_,
      planLease_goes hr hs.1 hs.2 hok.1 hgoes, fun j hj _ => planLease_other hr hs.2 hok.1 hgoes hj⟩
    rw [hrole] at hloop
    cases hloop

-- From the claim that a recovery is granted to the release of its lease.
def Seizing : Proc → Prop
  | .resume .recover_count | .resume (.recover_load _) | .resume (.recover_store _ _) => True
  | _ => False

theorem seizing_goes {i : TaskId} {store : Store} {p p' : Proc} {choice : Choice} {stmt : Stmt}
    (h : Goes cfg i store p choice stmt p') (hp' : Seizing p') :
    Seizing p ∨ (p = .resume .recover_claim ∧
      store.execution.any (·.claimable ⟨.recover, i⟩ cfg.DRIVER_LEASE_SECONDS
        store.clock) = true) := by
  cases h
  case recover_claim hclaim => exact .inr ⟨rfl, hclaim⟩
  all_goals first | exact .inl trivial | exact hp'.elim

theorem seizing_abandoned (hr : Reach (step cfg) Fresh (Guarded cfg) s) :
    ∀ i, Seizing (s.procs i) → s.store.Unplanned ∧ NoPlanner s := by
  refine hr.invariant (I := fun s => ∀ i, Seizing (s.procs i) → s.store.Unplanned ∧ NoPlanner s) ?_
    fun s e s' hr ih hok hs i hseizing => ?_
  · intro s hs i hseizing
    rcases Initial.proc (.inl hs) i with hp | ⟨-, hp⟩ <;> rw [hp] at hseizing <;>
      exact hseizing.elim
  · have hbefore : s.store.Unplanned ∧ NoPlanner s := by
      rcases step_proc hs i with hsame | hended | ⟨entry, hentry⟩ | ⟨choice, stmt, rfl, hgoes, -⟩
      · exact ih i (hsame ▸ hseizing)
      · rw [hended] at hseizing
        exact hseizing.elim
      · rcases Entry.cases hentry with ⟨_, hp⟩ | ⟨_, hp⟩ | hp | ⟨_, -, hp⟩ | ⟨_, hp⟩ <;>
          rw [hp] at hseizing <;> exact hseizing.elim
      · rcases seizing_goes hgoes hseizing with hp | ⟨hp, hclaim⟩
        · exact ih i hp
        · obtain ⟨row, hrow, hclaim⟩ := Option.any_eq_true _ _ |>.mp hclaim
          have hinv := (planLease_preserved cfg).reach hr
          refine ⟨fun row' hrow' => ?_, noPlanner_of_zero hr fun leased pc hplan => ?_⟩
          · rw [hrow] at hrow'
            cases hrow'
            exact hok.2 hp row hrow hclaim
          · rw [recover_refused hinv.1 hinv.2 hok.1 hplan hp hrow] at hclaim
            cases hclaim
    exact ⟨unplanned_step hbefore.1 hbefore.2 hs, noPlanner_step hbefore.2 hs⟩

theorem plan_kept (cfg : Config) : PlanKept cfg (Guarded cfg) := by
  rintro s e s' s'' hr ⟨i, saved, seen, rfl, hp⟩ hok hs hpath
  obtain ⟨hunplanned, hnone⟩ := seizing_abandoned hr i (by rw [hp]; trivial)
  have hkept := hpath.invariant (I := fun m => m.store.Unplanned ∧ NoPlanner m) ?_
    ⟨unplanned_step hunplanned hnone hs, noPlanner_step hnone hs⟩
  · exact ⟨hunplanned, hkept.1⟩
  · rintro m e m' ⟨hm, hnone⟩ - hs
    exact ⟨unplanned_step hm hnone hs, noPlanner_step hnone hs⟩

end Recovery

theorem plan_recovery_safe (cfg : Config) :
    PlanKept cfg (Guarded cfg) ∧ FragmentKept cfg fun _ _ => True :=
  ⟨plan_kept cfg, fragment_kept cfg _⟩

def abandoning : Proc → Bool
  | .resume (.recover_store _ _) => true
  | _ => false

theorem abandons_of {i : TaskId} (h : abandoning (s.procs i) = true) : Abandons s (.go i .ok) := by
  unfold abandoning at h
  split at h
  · rename_i saved seen hp
    exact ⟨i, saved, seen, rfl, hp⟩
  · cases h

def guarded (cfg : Config) (s : Manager) (e : Event) : Bool :=
  live cfg s e && match e with
    | .go i _ => s.procs i != .resume .recover_claim || s.store.execution.all fun row =>
        !row.claimable ⟨.recover, i⟩ cfg.DRIVER_LEASE_SECONDS s.store.clock ||
          row.plan_complete == some false
    | _ => true

theorem of_guarded (h : guarded cfg s e = true) : Guarded cfg s e := by
  simp only [guarded, Bool.and_eq_true] at h
  refine ⟨h.1, ?_⟩
  cases e with
  | go i choice =>
      intro hp row hrow hclaim
      simpa [hp, hrow, hclaim] using h.2
  | tick | start | crash => trivial

-- While the planner beats, a recovery is refused the lease. The planner is killed with one
-- job planned; a lease later the recovery is granted it, and fails the execution.
theorem plan_recovery_safe_killed :
    ∃ s s', Reach (step Config.defaults) Fresh (Guarded Config.defaults) s ∧
    Abandons s (.go 1 .ok) ∧ Guarded Config.defaults s (.go 1 .ok) ∧
      step Config.defaults s (.go 1 .ok) = some s' ∧
    s'.store.execution.any (·.state == .failed) = true := by
  obtain ⟨s, hr, -, htest⟩ := Reach.replay (step Config.defaults) Fresh (Guarded Config.defaults)
    (guarded Config.defaults) (fun _ _ => of_guarded) (fresh_created 0)
    ([.go 0 .ok, .go 0 .ok, .go 0 .ok, .go 0 .ok, .go 0 .slice, .go 0 .ok,
      .tick (59 * second), .go 0 .beat,
      .tick (61 * second), .start 1 .startup] ++ List.replicate 5 (.go 1 .ok) ++
      [.crash 0, .tick (120 * second)] ++ List.replicate 4 (.go 1 .ok))
    (fun s => abandoning (s.procs 1) && guarded Config.defaults s (.go 1 .ok) &&
      (step Config.defaults s (.go 1 .ok)).any fun s' => s'.store.execution.any
        (·.state == .failed)) (by decide)
  simp only [Bool.and_eq_true, Option.any_eq_true _ (step _ _ _)] at htest
  obtain ⟨⟨hp, hguarded⟩, s', hs, hfailed⟩ := htest
  exact ⟨s, s', hr, abandons_of hp, of_guarded hguarded, hs, hfailed⟩

-- A recovery reads that the plan is incomplete; the planner completes it and releases
-- its lease; the recovery claims the lease and fails the execution.
theorem recovery_fails_planned : ¬PlanKept Config.defaults fun s e =>
    live Config.defaults s e = true := by
  intro hkept
  obtain ⟨s, hr, -, htest⟩ := Reach.replay (step Config.defaults) Fresh
    (fun s e => live Config.defaults s e = true) (live Config.defaults)
      (fun _ _ h => h) (fresh_created 0)
    [.go 0 .ok, .go 0 .ok, .go 0 .ok, .go 0 .ok, .go 0 .plan_end, .go 0 .ok, .go 0 .ok,
      .tick (59 * second), .go 0 .beat, .tick (118 * second),
      .start 1 .startup, .go 1 .ok, .go 1 .ok, .go 1 .ok, .go 1 .ok, .go 0 .ok, .go 0 .ok,
      .go 1 .ok, .go 1 .ok, .go 1 .ok]
    (fun s => abandoning (s.procs 1) &&
      s.store.execution.any (·.plan_complete == some true) && live Config.defaults s (.go 1 .ok) &&
      (step Config.defaults s (.go 1 .ok)).isSome) (by decide)
  simp only [Bool.and_eq_true, Option.any_eq_true, beq_iff_eq, Option.isSome_iff_exists] at htest
  obtain ⟨⟨⟨hp, row, hrow, hplanned⟩, hlive⟩, s', hs⟩ := htest
  have hunplanned := (hkept s _ s' s' hr (abandons_of hp) hlive hs .refl).1 row hrow
  rw [hplanned] at hunplanned
  cases hunplanned

end Reflowfy.Manager
