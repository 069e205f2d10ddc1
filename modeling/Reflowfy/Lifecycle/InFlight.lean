import Reflowfy.Lifecycle.States
import Reflowfy.Manager.Window

namespace Reflowfy.Manager

open Interleaving

-- An execution that begins; of one that an earlier version has left, no more jobs are in flight
-- than fit into the window. `job_id` is unique.
def Begins (cfg : Config) (s : Manager) : Prop :=
  Initial s ∧ (s.store.jobs.map (·.job_id)).Nodup ∧ in_flight s.store.jobs ≤ cfg.MAX_IN_FLIGHT_JOBS

def SingleLoop (s : Manager) : Prop := ∀ i j, (s.procs i).dispatching →
    (s.procs j).dispatching → i = j

-- A worker that claims a pending job claims one that a loop is about to send, or there is
-- room for it.
def ClaimsInWindow (cfg : Config) (s : Manager) : WindowEvent → Prop
  | .manager (.go i .ok) => ∀ job_id, s.procs i = .deliver job_id .claim →
      (∃ job ∈ s.store.jobs, job.job_id = job_id ∧ job.state = .pending) →
        (∃ j batch, (s.procs j).batch = some batch ∧ job_id ∈ batch.jobs) ∨
          ∀ j, (s.procs j).held s.store.jobs < cfg.MAX_IN_FLIGHT_JOBS
  | _ => True

variable {cfg : Config} {s s' : Manager}

section Held

theorem held_cases (p : Proc) :
    (∃ batch, p.batch = some batch ∧ ∀ jobs, p.held jobs = in_window batch.jobs jobs) ∨
      (∃ task track limit, p = .drive task (.fetch track limit) ∧
        ∀ jobs, p.held jobs = in_flight jobs + limit) ∨
      p.dispatching = false ∧ ∀ jobs, p.held jobs = in_flight jobs := by
  by_cases hfetch : ∃ task track limit, p = .drive task (.fetch track limit)
  · obtain ⟨task, track, limit, rfl⟩ := hfetch
    exact .inr (.inl ⟨task, track, limit, rfl, fun _ => rfl⟩)
  · cases hbatch : p.batch with
    | some batch =>
        refine .inl ⟨batch, rfl, fun jobs => ?_⟩
        unfold Proc.held
        split
        · exact absurd ⟨_, _, _, rfl⟩ hfetch
        · rw [hbatch]
    | none =>
        refine .inr (.inr ⟨?_, fun jobs => ?_⟩)
        · unfold Proc.dispatching
          split
          · exact absurd ⟨_, _, _, rfl⟩ hfetch
          · rw [hbatch]
            rfl
        · unfold Proc.held
          split
          · exact absurd ⟨_, _, _, rfl⟩ hfetch
          · rw [hbatch]

theorem in_flight_le_held (jobs : List Job) (p : Proc) : in_flight jobs ≤ p.held jobs := by
  rcases held_cases p with ⟨batch, _, hheld⟩ | ⟨_, _, limit, _, hheld⟩ | ⟨_, hheld⟩
  · rw [hheld]
    exact in_flight_le_in_window _ _
  · rw [hheld]
    exact Nat.le_add_right _ _
  · exact Nat.le_of_eq (hheld jobs).symm

theorem dispatching_of_batch {p : Proc} {batch : Batch} (h : p.batch = some batch) :
    p.dispatching = true := by
  unfold Proc.dispatching
  split
  · rfl
  · rw [h]
    rfl

-- What is held is the same for the same rows in another order.
theorem held_perm {jobs jobs' : List Job} (h : jobs'.Perm jobs) (p : Proc) :
    p.held jobs' = p.held jobs := by
  have hflight : in_flight jobs' = in_flight jobs := h.countP_eq _
  have hwindow : ∀ ids, in_window ids jobs' = in_window ids jobs := fun ids => h.countP_eq _
  simp only [Proc.held, hflight, hwindow]

end Held

section Dispatch

variable {store : Store} {i : TaskId} {p p' : Proc} {choice : Choice} {stmt : Stmt}

-- Where a batch comes from: it is what is left of an earlier one, or has just been fetched.
theorem batch_of_goes (h : Goes cfg i store p choice stmt p') {batch' : Batch}
    (hbatch : p'.batch = some batch') :
    (∃ batch, p.batch = some batch ∧ ∀ job_id ∈ batch'.jobs, job_id ∈ batch.jobs) ∨
      ∃ task track limit, p = .drive task (.fetch track limit) ∧ stmt = .get_pending_jobs limit ∧
        batch'.jobs = get_pending_jobs limit store.jobs := by
  cases h
  case fetch | fetch_local =>
    cases hbatch
    exact .inr ⟨_, _, _, rfl, rfl, rfl⟩
  case on_sent | on_unsendable =>
    cases hbatch
    exact .inl ⟨_, rfl, fun job_id hmem => List.mem_of_mem_tail hmem⟩
  all_goals first | exact .inl ⟨_, rfl, by cases hbatch; exact fun _ hmem => hmem⟩ | cases hbatch

theorem claim_of_act {now : Int} {pc : DeliveryPc} {a : DeliveryAct}
    (h : pc.act now choice = some a) :
    a.stmt ≠ .mark_job_dispatched ∧ (a.stmt = .claim_job → pc = .claim ∧ choice = .ok) := by
  cases pc <;> cases choice <;>
    simp only [DeliveryPc.act, Option.some.injEq, reduceCtorEq] at h <;> subst h <;> simp

-- Who brings a job into flight: the loop that has it in its batch, or a worker.
theorem flies_of_goes (h : Goes cfg i store p choice stmt p') {job_id : JobId}
    (hstmt : stmt = .job job_id .mark_job_dispatched ∨ stmt = .job job_id .claim_job) :
    (∃ batch, p.batch = some batch ∧ job_id ∈ batch.jobs) ∨ p = .deliver job_id .claim ∧
    choice = .ok := by
  cases h
  case on_sent hjob =>
    rcases hstmt with heq | heq <;> cases heq
    exact .inl ⟨_, rfl, List.mem_of_mem_head? hjob⟩
  case execute_job hjob ha =>
    rcases hstmt with heq | heq
    · obtain ⟨rfl, _⟩ := Stmt.job.inj heq
      exact .inl ⟨_, rfl, List.mem_of_mem_head? hjob⟩
    · obtain ⟨rfl, _⟩ := Stmt.job.inj heq
      exact .inl ⟨_, rfl, List.mem_of_mem_head? hjob⟩
  case deliver a ha =>
    obtain ⟨hmark, hclaim⟩ := claim_of_act ha
    rcases hstmt with heq | heq
    · exact absurd (Stmt.job.inj heq).2 hmark
    · obtain ⟨rfl, hsame⟩ := Stmt.job.inj heq
      obtain ⟨rfl, rfl⟩ := hclaim hsame
      exact .inr ⟨rfl, rfl⟩
  all_goals rcases hstmt with heq | heq <;> cases heq

theorem counts_of_goes {task : Task} {track : Track} {limit : ℕ}
    (h : Goes cfg i store p choice stmt (.drive task (.fetch track limit))) :
    p = .drive task (.counts track) ∧ choice = .ok ∧ stmt = .get_job_counts := by
  cases h
  exact ⟨rfl, rfl, rfl⟩

-- A loop fetches no more jobs than there is room for.
theorem fetch_of_act {a : Act} (ha : p.act cfg i store.clock choice = some a) {task : Task}
    {track : Track} {limit : ℕ}
    (hfetch : a.next (a.stmt.reply cfg store) = .drive task (.fetch track limit)) :
    in_flight store.jobs + limit ≤ cfg.MAX_IN_FLIGHT_JOBS := by
  have hlimit : ∀ counts : JobCounts,
      (if counts.pending = 0 ∧ counts.dispatched + counts.running = 0 then
        .drive task (.settle_sync track counts.total)
        else if 0 < counts.pending ∧
            counts.dispatched + counts.running < cfg.MAX_IN_FLIGHT_JOBS then
          .drive task (.fetch track
            (min (cfg.MAX_IN_FLIGHT_JOBS - (counts.dispatched + counts.running))
            DISPATCH_FETCH_LIMIT))
        else .drive task (.heartbeat track)) = Proc.drive task (.fetch track limit) →
      counts.dispatched + counts.running + limit ≤ cfg.MAX_IN_FLIGHT_JOBS := by
    intro counts h
    split at h
    · cases h
    · split at h
      · rename_i hroom
        cases h
        omega
      · cases h
  have hgoes := goes_of_act ha
  rw [hfetch] at hgoes
  obtain ⟨rfl, rfl, _⟩ := counts_of_goes hgoes
  simp only [Proc.act, Proc.run, DrivePc.run, Option.some.injEq] at ha
  subst ha
  rw [← in_flight_eq]
  exact hlimit (get_job_counts store.jobs) hfetch

end Dispatch

section Numbers

variable {store : Store} {i j : TaskId} {p p' q : Proc} {choice : Choice} {stmt : Stmt}

-- The jobs saved so far have the first numbers, in the planner's count.
def Saved (jobs : List Job) (p : Planning) : Prop :=
  p.pending ≤ p.job_count ∧ ∀ job ∈ jobs, job.job_id < p.job_count - p.pending

def Numbered (store : Store) : Proc → Prop
  | .plan _ .lease => store.jobs = []
  | .plan _ .resolve => store.jobs = []
  | .plan _ .load => store.jobs = []
  | .plan _ (.store _) => store.jobs = []
  | .plan _ (.next p) => Saved store.jobs p
  | .plan _ (.check p) => Saved store.jobs p
  | .plan _ (.flush p) => Saved store.jobs p
  | .plan _ (.last p) => Saved store.jobs p
  | _ => True

-- A statement that creates no jobs leaves no number that was not there.
theorem numbered_run (h : Numbered store p) (hcreated : store.execution.isSome →
    stmt.created store.clock = []) :
    Numbered (stmt.run cfg store) p := by
  have hmem : ∀ job' ∈ (stmt.run cfg store).jobs, ∃ job ∈ store.jobs, job'.job_id = job.job_id := by
    intro job' hjob'
    rcases Stmt.mem_run_jobs hjob' with ⟨job, hjob, rfl⟩ | ⟨hsome, hnew⟩
    · exact ⟨job, hjob, Stmt.onJob_job_id ..⟩
    · rw [hcreated hsome] at hnew
      cases hnew
  have hnone : store.jobs = [] → (stmt.run cfg store).jobs = [] := by
    intro hnil
    apply List.eq_nil_iff_forall_not_mem.mpr
    intro job' hjob'
    obtain ⟨job, hjob, _⟩ := hmem job' hjob'
    rw [hnil] at hjob
    cases hjob
  have hsaved : ∀ pl, Saved store.jobs pl → Saved (stmt.run cfg store).jobs pl := by
    intro pl hpl
    refine ⟨hpl.1, fun job' hjob' => ?_⟩
    obtain ⟨job, hjob, hid⟩ := hmem job' hjob'
    rw [hid]
    exact hpl.2 job hjob
  cases p
  case plan leased pc =>
    cases pc
    case lease | resolve | load | store => exact hnone h
    case next | check | flush | last => exact hsaved _ h
    all_goals trivial
  all_goals trivial

theorem saved_nil : Saved [] ⟨0, 1, 0, none⟩ := ⟨Nat.le_refl _, fun _ h => by cases h⟩

theorem saved_add {jobs : List Job} {pl : Planning} (h : Saved jobs pl) : Saved jobs pl.add := by
  obtain ⟨hle, hlt⟩ := h
  refine ⟨Nat.succ_le_succ hle, fun job hjob => ?_⟩
  change job.job_id < pl.job_count + 1 - (pl.pending + 1)
  rw [Nat.add_sub_add_right]
  exact hlt job hjob

theorem mem_created {now : Int} {pl : Planning} {job : Job}
    (h : job ∈ (Stmt.create_jobs pl.rows).created now) :
    ∃ k < pl.pending, job.job_id = pl.job_count - pl.pending + k := by
  simp only [Stmt.created, Planning.rows, List.map_map, List.mem_map, List.mem_range,
    Function.comp_apply] at h
  obtain ⟨k, hk, rfl⟩ := h
  exact ⟨k, hk, rfl⟩

-- A planner's own step.
theorem numbered_goes (h : Goes cfg i store p choice stmt p') (hp : Numbered store p) :
    Numbered (stmt.run cfg store) p' := by
  have hstart : store.jobs = [] → Saved store.jobs ⟨0, 1, 0, none⟩ := fun hnil => hnil ▸ saved_nil
  cases h
  case plan_flush pl =>
    refine ⟨Nat.zero_le _, fun job' hjob' => ?_⟩
    have hle : pl.pending ≤ pl.job_count := hp.1
    rcases Stmt.mem_run_jobs hjob' with ⟨job, hjob, heq⟩ | ⟨_, hnew⟩
    · rw [heq, Stmt.onJob_job_id]
      exact Nat.lt_of_lt_of_le (hp.2 job hjob) (Nat.sub_le _ _)
    · obtain ⟨k, hk, hid⟩ := mem_created hnew
      rw [hid]
      change pl.job_count - pl.pending + k < pl.job_count
      omega
  case plan_load_gone =>
    exact numbered_run (p := .plan _ (.next _)) (hstart hp) fun _ => rfl
  case plan_store =>
    exact numbered_run (p := .plan _ (.next _)) (hstart hp) fun _ => rfl
  case plan_slice pl => exact numbered_run (p := .plan _ (.next pl.add)) (saved_add hp) fun _ => rfl
  case plan_slice_full pl =>
    exact numbered_run (p := .plan _ (.flush pl.add)) (saved_add hp) fun _ => rfl
  case plan_check pl _ =>
    exact numbered_run (p := .plan _ (.next pl.add)) (saved_add hp) fun _ => rfl
  case plan_check_full pl _ =>
    exact numbered_run (p := .plan _ (.flush pl.add)) (saved_add hp) fun _ => rfl
  case plan_beat => exact numbered_run hp fun _ => rfl
  case plan_lease => exact numbered_run (p := .plan true .lease) hp fun _ => rfl
  case plan_resolve => exact numbered_run (p := .plan _ .resolve) hp fun _ => rfl
  case plan_load => exact numbered_run (p := .plan _ .load) hp fun _ => rfl
  case plan_slice_check pl => exact numbered_run (p := .plan _ (.next pl)) hp fun _ => rfl
  case plan_end pl => exact numbered_run (p := .plan _ (.next pl)) hp fun _ => rfl
  case lease_error => exact numbered_run (p := .plan false .lease) hp fun _ => rfl
  all_goals trivial

-- Rows with numbers of their own stay so, and new ones get new numbers.
theorem nodup_run (h : Goes cfg i store p choice stmt p') (hp : Numbered store p)
    (hnodup : (store.jobs.map (·.job_id)).Nodup) :
    ((stmt.run cfg store).jobs.map (·.job_id)).Nodup := by
  have hkeep : ∀ (now : Int), (store.jobs.map (stmt.onJob cfg now)).map (·.job_id) =
      store.jobs.map (·.job_id) := by
    intro now
    simp [List.map_map, Function.comp_def, Stmt.onJob_job_id]
  by_cases hpurge : ∃ cutoff doomed, stmt = .purge_executions cutoff doomed
  · obtain ⟨cutoff, doomed, rfl⟩ := hpurge
    simp only [Stmt.run, Stmt.purge]
    split
    · split
      · exact List.nodup_nil
      · exact hnodup
    · exact hnodup.sublist (List.filter_sublist.map _)
  · rw [Stmt.run_jobs cfg store fun cutoff doomed hp => hpurge ⟨cutoff, doomed, hp⟩,
      List.map_append, hkeep]
    by_cases hcreates : ∃ rows, stmt = .create_jobs rows
    · obtain ⟨rows, rfl⟩ := hcreates
      obtain ⟨leased, pl, rfl, hpl⟩ := h.creates
      have hsaved : Saved store.jobs pl := by
        rcases hpl with rfl | rfl <;> exact hp
      split
      · rw [List.nodup_append]
        refine ⟨hnodup, ?_, ?_⟩
        · simp only [Stmt.created, Planning.rows, List.map_map, Function.comp_def, Job.create_job]
          exact List.Pairwise.map _
            (fun a b hab heq => hab (Nat.add_left_cancel heq)) List.nodup_range
        · intro a ha b hb hab
          obtain ⟨old, hold, rfl⟩ := List.mem_map.mp ha
          obtain ⟨new, hnew, rfl⟩ := List.mem_map.mp hb
          obtain ⟨k, _, hid⟩ := mem_created hnew
          have hlt := hsaved.2 old hold
          rw [hab, hid] at hlt
          exact absurd hlt (Nat.not_lt.mpr (Nat.le_add_right _ _))
      · simpa using hnodup
    · rw [Stmt.created_of_ne fun rows heq => hcreates ⟨rows, heq⟩]
      simpa using hnodup

end Numbers

section Window

variable {i : TaskId} {p : Proc} {choice : Choice} {stmt : Stmt}

-- What holds of a task: it knows where the plan stands, and it holds no more than the window.
def Windowed (cfg : Config) (store : Store) (i : TaskId) (p : Proc) : Prop :=
  Phase store i p ∧ Numbered store p ∧ p.held store.jobs ≤ cfg.MAX_IN_FLIGHT_JOBS

def KeepsWindow (cfg : Config) (s : Manager) : Prop :=
  s.Holds (fun store => (store.jobs.map (·.job_id)).Nodup) (Windowed cfg)

-- No jobs are created while a loop drives.
theorem created_of_batch (h : KeepsWindow cfg s)
    (hgoes : Goes cfg i s.store (s.procs i) choice stmt p) {j : TaskId}
    {batch : Batch} (hbatch : (s.procs j).batch = some batch) (hsome : s.store.execution.isSome) :
    stmt.created s.store.clock = [] := by
  apply Stmt.created_of_ne
  intro rows hrows
  subst hrows
  obtain ⟨leased, pl, _, hplan⟩ := hgoes.creates
  obtain ⟨row, hrow⟩ := Option.isSome_iff_exists.mp hsome
  have hunplanned : s.store.Unplanned := by
    have hphase := (h.2 i).1
    rcases hplan with hplan | hplan <;> rw [hplan] at hphase <;> exact hphase.2
  have hplanned : s.store.Planned := by
    have hphase := (h.2 j).1
    generalize s.procs j = q at hphase hbatch
    cases q
    case drive => exact hphase
    all_goals cases hbatch
  exact hplanned row hrow (hunplanned row hrow)

-- A statement that brings no job into flight.
theorem held_quiet (h : KeepsWindow cfg s) (hgoes : Goes cfg i s.store (s.procs i) choice stmt p)
    (hquiet : ∀ job ∈ s.store.jobs, job.state = .pending →
      ¬(stmt = .job job.job_id .mark_job_dispatched ∨ stmt = .job job.job_id .claim_job))
        (j : TaskId) :
    (s.procs j).held (stmt.run cfg s.store).jobs ≤ (s.procs j).held s.store.jobs := by
  have hflight := @Stmt.in_flight_run_le cfg s.store stmt hquiet
  rcases held_cases (s.procs j) with ⟨batch, hbatch, hheld⟩ | ⟨_, _, limit, _, hheld⟩ | ⟨_, hheld⟩
  · rw [hheld, hheld]
    apply Stmt.in_window_run_le (fun _ hmem => hmem)
    · intro job hjob hpending hstmt
      exact absurd hstmt (hquiet job hjob hpending)
    · intro hsome job hjob
      rw [created_of_batch h hgoes hbatch hsome] at hjob
      cases hjob
  · rw [hheld, hheld]
    exact Nat.add_le_add_right hflight limit
  · rw [hheld, hheld]
    exact hflight

-- Where the task itself comes to by such a statement.
theorem held_quiet_own (h : KeepsWindow cfg s)
    (hgoes : Goes cfg i s.store (s.procs i) choice stmt p)
    (hfetch : ∀ task track limit, p = .drive task (.fetch track limit) →
      in_flight s.store.jobs + limit ≤ cfg.MAX_IN_FLIGHT_JOBS)
    (hquiet : ∀ job ∈ s.store.jobs, job.state = .pending →
      ¬(stmt = .job job.job_id .mark_job_dispatched ∨ stmt = .job job.job_id .claim_job)) :
    p.held (stmt.run cfg s.store).jobs ≤ cfg.MAX_IN_FLIGHT_JOBS := by
  have hflight := @Stmt.in_flight_run_le cfg s.store stmt hquiet
  have hown := (h.2 i).2.2
  have hnumbered := (h.2 i).2.1
  rcases held_cases p with ⟨batch', hbatch', hheld⟩ | ⟨task, track, limit, hp, hheld⟩ | ⟨_, hheld⟩
  · rcases batch_of_goes hgoes hbatch' with
      ⟨batch, hbatch, hsub⟩ | ⟨task, track, limit, hp, hstmt, hjobs⟩
    · have hwindow : in_window batch'.jobs (stmt.run cfg s.store).jobs ≤ in_window batch.jobs
          s.store.jobs := by
        apply Stmt.in_window_run_le hsub
        · intro job hjob hpending hstmt
          exact absurd hstmt (hquiet job hjob hpending)
        · intro hsome job hjob
          rw [created_of_batch h hgoes hbatch hsome] at hjob
          cases hjob
      rcases held_cases (s.procs i) with ⟨batch₀, hbatch₀, hheld₀⟩ | ⟨_, _, _, hp, _⟩ | ⟨hnot, _⟩
      · rw [hbatch] at hbatch₀
        cases hbatch₀
        rw [hheld₀] at hown
        rw [hheld]
        omega
      · rw [hp] at hbatch
        cases hbatch
      · rw [dispatching_of_batch hbatch] at hnot
        cases hnot
    · have hlen : batch'.jobs.length ≤ limit := by
        rw [hjobs]
        simp only [get_pending_jobs, List.length_map, List.length_take]
        exact Nat.min_le_left _ _
      have hin := in_window_le (nodup_run hgoes hnumbered h.1) batch'.jobs
      rw [hp] at hown
      change in_flight s.store.jobs + limit ≤ _ at hown
      rw [hheld]
      omega
  · have hroom := hfetch task track limit hp
    rw [hheld]
    omega
  · have hle := in_flight_le_held s.store.jobs (s.procs i)
    rw [hheld]
    omega

-- A statement that brings a job into flight which a loop has in its batch.
theorem held_batch (h : KeepsWindow cfg s) (hsingle : SingleLoop s)
    (hgoes : Goes cfg i s.store (s.procs i) choice stmt p)
    {job_id : JobId} {jobStmt : JobStmt} (hstmt : stmt = .job job_id jobStmt)
    {j : TaskId} {batch : Batch}
    (hbatch : (s.procs j).batch = some batch) (hmem : job_id ∈ batch.jobs) :
    p.held (stmt.run cfg s.store).jobs ≤ cfg.MAX_IN_FLIGHT_JOBS ∧
      ∀ k, (s.procs k).held (stmt.run cfg s.store).jobs ≤ cfg.MAX_IN_FLIGHT_JOBS := by
  have hheld : ∀ jobs, (s.procs j).held jobs = in_window batch.jobs jobs := by
    rcases held_cases (s.procs j) with ⟨batch₀, hbatch₀, hheld₀⟩ | ⟨_, _, _, hp, _⟩ | ⟨hnot, _⟩
    · rw [hbatch] at hbatch₀
      cases hbatch₀
      exact hheld₀
    · rw [hp] at hbatch
      cases hbatch
    · rw [dispatching_of_batch hbatch] at hnot
      cases hnot
  have hbefore := (h.2 j).2.2
  rw [hheld] at hbefore
  have hwindow : ∀ ids, (∀ id ∈ ids, id ∈ batch.jobs) →
      in_window ids (stmt.run cfg s.store).jobs ≤ in_window batch.jobs s.store.jobs := by
    intro ids hsub
    apply Stmt.in_window_run_le hsub
    · intro job _ _ hflies
      have hid : job.job_id = job_id := by
        rcases hflies with heq | heq <;> exact (Stmt.job.inj (heq.symm.trans hstmt)).1
      rw [hid]
      exact hmem
    · intro hsome job hjob
      rw [created_of_batch h hgoes hbatch hsome] at hjob
      cases hjob
  have hafter := hwindow batch.jobs fun _ hid => hid
  have hflight := in_flight_le_in_window batch.jobs (stmt.run cfg s.store).jobs
  refine ⟨?_, fun k => ?_⟩
  · rcases held_cases p with ⟨batch', hbatch', hheld'⟩ | ⟨_, _, _, rfl, _⟩ | ⟨_, hheld'⟩
    · rcases batch_of_goes hgoes hbatch' with ⟨own, hown, hsub⟩ | ⟨_, _, _, _, hother, _⟩
      · -- it is the one loop that dispatches
        obtain rfl := hsingle i j (dispatching_of_batch hown) (dispatching_of_batch hbatch)
        rw [hown] at hbatch
        cases hbatch
        have hle := hwindow batch'.jobs hsub
        rw [hheld']
        omega
      · rw [hstmt] at hother
        cases hother
    · obtain ⟨_, _, hother⟩ := counts_of_goes hgoes
      rw [hstmt] at hother
      cases hother
    · rw [hheld']
      omega
  · by_cases hk : (s.procs k).dispatching
    · obtain rfl := hsingle k j hk (dispatching_of_batch hbatch)
      rw [hheld]
      omega
    · rcases held_cases (s.procs k) with ⟨_, hother, _⟩ | ⟨_, _, _, hp, _⟩ | ⟨_, hheld'⟩
      · exact absurd (dispatching_of_batch hother) hk
      · exact absurd (by rw [hp]; rfl) hk
      · rw [hheld']
        omega

-- A claim where there is room for one more.
theorem held_room (h : KeepsWindow cfg s) (job_id : JobId) (jobStmt : JobStmt)
    (hroom : ∀ j, (s.procs j).held s.store.jobs < cfg.MAX_IN_FLIGHT_JOBS) (k : TaskId) :
    (s.procs k).held ((Stmt.job job_id jobStmt).run cfg s.store).jobs ≤ cfg.MAX_IN_FLIGHT_JOBS := by
  have hbefore := hroom k
  have hclaim := fun ids => @Stmt.in_window_claim_le cfg s.store h.1 ids job_id jobStmt
  have hflight := hclaim []
  rw [in_window_nil, in_window_nil] at hflight
  rcases held_cases (s.procs k) with ⟨batch, _, hheld⟩ | ⟨_, _, limit, _, hheld⟩ | ⟨_, hheld⟩
  · have hwindow := hclaim batch.jobs
    rw [hheld] at hbefore ⊢
    omega
  · rw [hheld] at hbefore ⊢
    omega
  · rw [hheld] at hbefore ⊢
    omega

theorem phase_zero {store : Store} {leased : Bool} {pc : PlanPc}
    (h : Phase store i (.plan leased pc)) : i = 0 := by
  cases pc <;> exact h.1

-- The numbers of a planner are touched by no other task.
theorem numbered_other (h : KeepsWindow cfg s)
    (hgoes : Goes cfg i s.store (s.procs i) choice stmt p) {k : TaskId} (hk : k ≠ i) :
    Numbered (stmt.run cfg s.store) (s.procs k) := by
  have hphase := (h.2 k).1
  have hnumbered := (h.2 k).2.1
  by_cases hplan : ∃ leased pc, s.procs k = .plan leased pc
  · obtain ⟨leased, pc, hp⟩ := hplan
    rw [hp] at hphase
    refine numbered_run hnumbered fun _ => Stmt.created_of_ne fun rows hrows => ?_
    subst hrows
    obtain ⟨leased', pl, _, hown⟩ := hgoes.creates
    have hphase' := (h.2 i).1
    have hi : i = 0 := by
      rcases hown with hown | hown <;> rw [hown] at hphase' <;> exact phase_zero hphase'
    exact hk ((phase_zero hphase).trans hi.symm)
  · generalize s.procs k = q at hplan
    cases q
    case plan leased pc => exact absurd ⟨leased, pc, rfl⟩ hplan
    all_goals trivial

theorem held_go (h : KeepsWindow cfg s) (hsingle : SingleLoop s)
    (hclaims : ClaimsInWindow cfg s (.manager (.go i choice)))
    (hgoes : Goes cfg i s.store (s.procs i) choice stmt p)
    (hfetch : ∀ task track limit, p = .drive task (.fetch track limit) →
      in_flight s.store.jobs + limit ≤ cfg.MAX_IN_FLIGHT_JOBS) :
    p.held (stmt.run cfg s.store).jobs ≤ cfg.MAX_IN_FLIGHT_JOBS ∧
      ∀ k, (s.procs k).held (stmt.run cfg s.store).jobs ≤ cfg.MAX_IN_FLIGHT_JOBS := by
  by_cases hflies : ∃ job ∈ s.store.jobs, job.state = .pending ∧
      (stmt = .job job.job_id .mark_job_dispatched ∨ stmt = .job job.job_id .claim_job)
  · obtain ⟨job, hjob, hpending, hstmt⟩ := hflies
    obtain ⟨jobStmt, hsame⟩ : ∃ jobStmt, stmt = .job job.job_id jobStmt := by
      rcases hstmt with hsame | hsame <;> exact ⟨_, hsame⟩
    rcases flies_of_goes hgoes hstmt with ⟨batch, hbatch, hmem⟩ | ⟨hdeliver, rfl⟩
    · exact held_batch h hsingle hgoes hsame hbatch hmem
    · rcases hclaims job.job_id hdeliver ⟨job, hjob, rfl, hpending⟩ with
        ⟨j, batch, hbatch, hmem⟩ | hroom
      · exact held_batch h hsingle hgoes hsame hbatch hmem
      · subst hsame
        have hroom' := held_room h job.job_id jobStmt hroom
        refine ⟨?_, hroom'⟩
        rcases held_cases p with ⟨batch', hbatch', _⟩ | ⟨_, _, _, rfl, _⟩ | ⟨_, hheld⟩
        · rcases batch_of_goes hgoes hbatch' with ⟨batch, hbatch, _⟩ | ⟨_, _, _, _, hother, _⟩
          · rw [hdeliver] at hbatch
            cases hbatch
          · cases hother
        · obtain ⟨_, _, hother⟩ := counts_of_goes hgoes
          cases hother
        · rw [hheld]
          exact Nat.le_trans (in_flight_le_held _ (s.procs i)) (hroom' i)
  · have hquiet : ∀ job ∈ s.store.jobs, job.state = .pending →
        ¬(stmt = .job job.job_id .mark_job_dispatched ∨ stmt = .job job.job_id .claim_job) :=
      fun job hjob hpending hstmt => hflies ⟨job, hjob, hpending, hstmt⟩
    refine ⟨held_quiet_own h hgoes hfetch hquiet, fun k => ?_⟩
    exact Nat.le_trans (held_quiet h hgoes hquiet k) (h.2 k).2.2

theorem keepsWindow_step {e : WindowEvent} (h : KeepsWindow cfg s) (hsingle : SingleLoop s)
    (hclaims : ClaimsInWindow cfg s e)
    (hs : windowStep cfg s e = some s') : KeepsWindow cfg s' := by
  have hroom := Nat.le_trans (in_flight_le_held s.store.jobs (s.procs 0)) (h.2 0).2.2
  cases e with
  | reorder jobs =>
      simp only [windowStep, Option.ite_none_right_eq_some, Option.some.injEq] at hs
      obtain ⟨⟨hperm, _⟩, rfl⟩ := hs
      refine ⟨(hperm.map _).nodup_iff.mpr h.1, fun k => ⟨(h.2 k).1, ?_, ?_⟩⟩
      · have hnumbered := (h.2 k).2.1
        have hnil : s.store.jobs = [] → jobs = [] := fun hnil => (hnil ▸ hperm).eq_nil
        have hsaved : ∀ pl, Saved s.store.jobs pl → Saved jobs pl :=
          fun pl hpl => ⟨hpl.1, fun job hjob => hpl.2 job (hperm.mem_iff.mp hjob)⟩
        change Numbered _ (s.procs k)
        generalize s.procs k = q at hnumbered
        cases q
        case plan leased pc =>
          cases pc
          case lease | resolve | load | store => exact hnil hnumbered
          case next | check | flush | last => exact hsaved _ hnumbered
          all_goals trivial
        all_goals trivial
      · change (s.procs k).held jobs ≤ _
        rw [held_perm hperm]
        exact (h.2 k).2.2
  | manager e =>
      have hs : step cfg s e = some s' := hs
      cases e with
      | tick now =>
          obtain ⟨_, rfl⟩ := step_tick hs
          exact ⟨h.1, h.2⟩
      | start i entry =>
          obtain ⟨_, p, hp, rfl⟩ := step_start hs
          refine Pool.Holds.set h h.1 ?_ fun _ _ hk => hk
          rcases Entry.cases hp with ⟨r, rfl⟩ | ⟨_, rfl⟩ | rfl | ⟨_, _, rfl⟩ | ⟨_, rfl⟩ <;>
            exact ⟨trivial, trivial, hroom⟩
      | crash i =>
          cases hs
          exact Pool.Holds.set h h.1 ⟨trivial, trivial, hroom⟩ fun _ _ hk => hk
      | go i choice =>
          obtain ⟨a, ha, rfl⟩ := step_go hs
          have hgoes := goes_of_act ha
          obtain ⟨hown, hothers⟩ := held_go h hsingle hclaims hgoes fun task track limit hp =>
            fetch_of_act ha hp
          refine Pool.Holds.set h (nodup_run hgoes (h.2 i).2.1 h.1) ?_ fun k hk _ => ?_
          · exact ⟨phase_goes hgoes (h.2 i).1, numbered_goes hgoes (h.2 i).2.1, hown⟩
          · exact ⟨phase_other hgoes (h.2 i).1 hk (h.2 k).1, numbered_other h hgoes hk, hothers k⟩

theorem keepsWindow_begins (h : Begins cfg s) : KeepsWindow cfg s := by
  obtain ⟨hinitial, hnodup, hroom⟩ := h
  refine ⟨hnodup, fun i => ⟨?_, ?_, ?_⟩⟩
  · exact ((phase_preserved cfg fun _ _ => True).init s hinitial).2 i
  · rcases hinitial with ⟨_, hjobs, _, _, hplan, hidle⟩ | ⟨_, _, _, hidle⟩
    · by_cases hi : i = 0
      · subst hi
        rw [hplan]
        exact hjobs
      · rw [hidle i hi]
        trivial
    · rw [hidle i]
      trivial
  · rcases Initial.proc hinitial i with hp | ⟨_, hp⟩ <;> rw [hp] <;> exact hroom

end Window

section Runs

-- Tasks 0 and 1 take all steps, and only task 0 drives.
theorem single_of_two (hidle : ∀ k, 2 ≤ k → s.procs k = .idle)
    (h : (s.procs 1).dispatching = false) : SingleLoop s := by
  have hzero : ∀ k, (s.procs k).dispatching = true → k = 0 := by
    intro k hk
    by_cases hle : 2 ≤ k
    · rw [hidle k hle] at hk
      cases hk
    · by_contra hne
      obtain rfl : k = 1 := by omega
      rw [h] at hk
      cases hk
  intro i j hi hj
  rw [hzero i hi, hzero j hj]

theorem idle_windowStep {es : List Event} (hes : es.all (·.task.all (· < 2)) = true) :
    ∀ e ∈ es.map WindowEvent.manager, ∀ s s' : Manager, (∀ k, 2 ≤ k → s.procs k = .idle) →
      windowStep cfg s e = some s' → ∀ k, 2 ≤ k → s'.procs k = .idle := by
  intro e he s s' hidle hs
  obtain ⟨event, hevent, rfl⟩ := List.mem_map.mp he
  exact idle_step 2 hes event hevent s s' hidle hs

theorem begins_created (cfg : Config) (now : Int) : Begins cfg (created now) :=
  ⟨.inl (fresh_created now), List.nodup_nil, Nat.zero_le _⟩

-- The default settings, with room for one job.
def oneSlot : Config := { Config.defaults with MAX_IN_FLIGHT_JOBS := 1 }

-- Of two jobs the first is sent.
def firstSentRun : List Event :=
  List.replicate 4 (.go 0 .ok) ++ [.go 0 .slice, .go 0 .ok, .go 0 .slice, .go 0 .plan_end] ++
    List.replicate 17 (.go 0 .ok)

-- A fast worker claims the first job before it is marked.
def fastClaimRun : List Event :=
  firstSentRun ++ [.start 1 (.deliver 0), .go 1 .ok, .go 0 .ok]

-- Its message finds no worker within the dispatch lease, and the loop requeues the job.
-- After the loop has counted, a worker comes to the message at last.
def staleClaimRun : List Event :=
  firstSentRun ++ List.replicate 3 (.go 0 .ok) ++ [.tick (3601 * second)] ++
    List.replicate 4 (.go 0 .ok) ++
    [.start 1 (.deliver 0), .go 1 .ok] ++ List.replicate 9 (.go 0 .ok)

-- A worker claims only jobs of the batch that task 0 is about to send.
def claimsSent (s : Manager) : WindowEvent → Bool
  | .manager (.go i .ok) => match s.procs i with
      | .deliver job_id .claim => (s.procs 0).batch.any (·.jobs.contains job_id)
      | _ => true
  | _ => true

theorem claimsInWindow_of_sent {e : WindowEvent} (h : claimsSent s e = true) :
    ClaimsInWindow cfg s e := by
  unfold ClaimsInWindow
  split
  · intro job_id hdeliver _
    simp only [claimsSent, hdeliver] at h
    obtain ⟨batch, hbatch, hmem⟩ := Option.any_eq_true _ _ |>.mp h
    exact .inl ⟨0, batch, hbatch, by simpa using hmem⟩
  · trivial

end Runs

-- A run with one loop at a time, whose workers claim what it sends.
theorem in_flight_le_max (cfg : Config) (s : Manager) (hr : Reach (windowStep cfg) (Begins cfg)
      (fun s e => SingleLoop s ∧ ClaimsInWindow cfg s e) s) :
    in_flight s.store.jobs ≤ cfg.MAX_IN_FLIGHT_JOBS := by
  have hkeeps : KeepsWindow cfg s := by
    refine hr.invariant (fun s hs => keepsWindow_begins hs) ?_
    intro s e s' _ h hok hs
    exact keepsWindow_step h hok.1 hok.2 hs
  exact Nat.le_trans (in_flight_le_held s.store.jobs (s.procs 0)) (hkeeps.2 0).2.2

theorem in_flight_le_max_fast : ∃ s : Manager, s.store.jobs.map (·.state) = [.running, .pending] ∧
    in_flight s.store.jobs ≤ oneSlot.MAX_IN_FLIGHT_JOBS := by
  obtain ⟨s, hr, htest⟩ := Reach.replay_within (windowStep oneSlot) (Begins oneSlot)
    (fun s e => SingleLoop s ∧ ClaimsInWindow oneSlot s e)
      (fun s e => !(s.procs 1).dispatching && claimsSent s e)
    (fun s => ∀ k, 2 ≤ k → s.procs k = .idle)
    (fun s e hidle h => by
      simp only [Bool.and_eq_true, Bool.not_eq_true'] at h
      exact ⟨single_of_two hidle h.1, claimsInWindow_of_sent h.2⟩)
    (begins_created oneSlot 0) (fun k hk => created_idle (Nat.lt_of_lt_of_le (by decide) hk))
    (fastClaimRun.map .manager) (idle_windowStep (by decide))
    (fun s => decide (s.store.jobs.map (·.state) = [.running, .pending])) (by decide)
  exact ⟨s, of_decide_eq_true htest, in_flight_le_max oneSlot s hr⟩

theorem stale_claim_exceeds : ¬∀ (cfg : Config) (s : Manager),
    Reach (windowStep cfg) (Begins cfg) (fun s _ => SingleLoop s) s →
      in_flight s.store.jobs ≤ cfg.MAX_IN_FLIGHT_JOBS := by
  intro hnever
  obtain ⟨s, hr, htest⟩ := Reach.replay_within (windowStep oneSlot) (Begins oneSlot)
    (fun s _ => SingleLoop s)
    (fun s _ => !(s.procs 1).dispatching) (fun s => ∀ k, 2 ≤ k → s.procs k = .idle)
    (fun s e hidle h => single_of_two hidle (by simpa using h))
    (begins_created oneSlot 0) (fun k hk => created_idle (Nat.lt_of_lt_of_le (by decide) hk))
    (staleClaimRun.map .manager) (idle_windowStep (by decide))
      (fun s => in_flight s.store.jobs == 2) (by decide)
  have hle := hnever oneSlot s hr
  have htwo : in_flight s.store.jobs = 2 := by simpa using htest
  rw [htwo] at hle
  exact absurd hle (by decide)

end Reflowfy.Manager
