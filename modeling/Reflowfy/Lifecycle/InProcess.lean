import Reflowfy.Lifecycle.Attempts
import Reflowfy.Manager.Phases

namespace Reflowfy

open Interleaving

-- The job a loop is executing in its own process, and when the execution last proved
-- that it is alive.
def Proc.executing : Proc → Option (JobId × Int)
  | drive _ (.execute_job _ batch (.live renewed_at)) => batch.jobs.head?.map (·, renewed_at)
  | _ => none

-- The jobs a loop has fetched and not handled yet.
def Proc.fetched : Proc → List JobId
  | drive _ (.producer _ batch) | drive _ (.should_stop _ batch _)
  | drive _ (.check_heartbeat _ batch _)
  | drive _ (.check_state _ batch _) | drive _ (.acquire_token _ batch) | drive _ (.send _ batch)
  | drive _ (.on_sent _ batch) | drive _ (.on_unsendable _ batch _)
  | drive _ (.execute_job _ batch _) =>
      batch.jobs
  | _ => []

-- Where no task is in local mode: nothing is sent, so nothing is delivered or refused.
def Proc.InProcess : Proc → Prop
  | drive _ (.producer _ _) | drive _ (.send _ _) | drive _ (.on_unsendable _ _ _) => False
  | drive _ (.should_stop _ _ true) | drive _ (.check_heartbeat _ _ true)
  | drive _ (.check_state _ _ true) => False
  | deliver _ _ => False
  | _ => True

theorem Goes.inProcess {cfg : Config} {i : TaskId} {s : Store} {p p' : Proc}
    {choice : Choice} {stmt : Stmt}
    (hlocal : cfg.local_mode = true) (h : Goes cfg i s p choice stmt p') (hp : p.InProcess) :
    p'.InProcess ∧ stmt.sends = [] := by
  cases h
  case fetch hremote | acquire_token hremote => simp [hlocal] at hremote
  case check_heartbeat token _ | should_stop_check token _ =>
    cases token <;> first | exact hp.elim | exact ⟨trivial, rfl⟩
  case producer | send | too_large | kafka_error | on_unsendable | should_stop_send |
    check_state_send | deliver => exact hp.elim
  case plan_beat => exact ⟨hp, rfl⟩
  all_goals exact ⟨trivial, rfl⟩

-- A task holds jobs it held before, or has just fetched pending ones.
theorem Goes.fetched {cfg : Config} {i : TaskId} {s : Store} {p p' : Proc}
    {choice : Choice} {stmt : Stmt}
    (h : Goes cfg i s p choice stmt p') : ∀ job_id ∈ p'.fetched, job_id ∈ p.fetched ∨
      (s.job job_id).isSome := by
  intro job_id hjob
  cases h
  case fetch_local | fetch =>
    right
    obtain ⟨job, hmem, hid⟩ := List.mem_map.mp hjob
    have hrow := (List.mem_filter.mp (List.mem_of_mem_take hmem)).1
    exact List.find?_isSome.mpr ⟨job, hrow, by simpa using hid⟩
  case on_sent | on_unsendable => exact .inl (List.mem_of_mem_tail hjob)
  all_goals first | exact .inl hjob | cases hjob

-- How a delivery comes to execute its job: it goes on, it has won the claim, or the claim
-- failed or found no row.
theorem DeliveryPc.act_live {now : Int} {p : DeliveryPc} {choice : Choice} {a : DeliveryAct}
    {row : Option Job} {renewed_at : Int} (ha : p.act now choice = some a)
    (hlive : a.next (a.stmt.reply row) = .live renewed_at) :
    renewed_at = now ∧ ((∃ at_, p = .live at_ ∧ a.stmt = .heartbeat_job) ∨
      (p = .claim ∧ a.stmt = .claim_job ∧ row.any (·.state.unstarted) = true) ∨
      ((p = .claim ∨ p = .blocked) ∧ (choice.raised.isSome ∨ row = none))) := by
  cases p <;> cases choice <;> simp only [act, Option.some.injEq, reduceCtorEq] at ha <;> subst ha
  case claim.ok =>
    change (if row.any (·.state.unstarted) = true then live now else blocked) =
      live renewed_at at hlive
    split at hlive <;> cases hlive
    exact ⟨rfl, .inr (.inl ⟨rfl, rfl, ‹_›⟩)⟩
  case blocked.ok =>
    change (if (row.map (·.state)).isNone = true then live now else ended) =
      live renewed_at at hlive
    split at hlive <;> cases hlive
    rename_i hnone
    refine ⟨rfl, .inr (.inr ⟨.inr rfl, .inr ?_⟩)⟩
    cases row <;> simp at hnone ⊢
  case live.beat at_ =>
    cases hlive
    exact ⟨rfl, .inl ⟨at_, rfl, rfl⟩⟩
  case claim.db_error | claim.error =>
    cases hlive
    exact ⟨rfl, .inr (.inr ⟨.inl rfl, .inl rfl⟩)⟩
  case blocked.db_error | blocked.error =>
    cases hlive
    exact ⟨rfl, .inr (.inr ⟨.inr rfl, .inl rfl⟩)⟩
  all_goals cases hlive

-- What keeps a running job's row as it is: only these statements take it back or finish it.
theorem Stmt.running_onJob {cfg : Config} {now renewed_at : Int} {stmt : Stmt} {job : Job}
    (hrunning : job.state = .running) (hrenewed : renewed_at ≤ job.updated_at)
    (hnow : renewed_at ≤ now) (horphan : stmt ≠ .requeue_orphans)
    (hsweep : ∀ sweep, stmt = .reclaim_expired_leases sweep →
      sweep - cfg.JOB_RUNNING_LEASE_SECONDS ≤ renewed_at)
    (hreport : ∀ jobStmt, stmt = .job job.job_id jobStmt →
      (∀ stats, jobStmt ≠ .update_job_in_db stats) ∧
      ∀ reason, jobStmt ≠ .update_job_state_failed reason) :
    (stmt.onJob cfg now job).state = .running ∧
    renewed_at ≤ (stmt.onJob cfg now job).updated_at := by
  cases stmt <;> simp only [onJob]
  case job job_id jobStmt =>
    by_cases hid : job.job_id = job_id
    · subst hid
      obtain ⟨hresult, hreason⟩ := hreport jobStmt rfl
      rw [if_pos rfl]
      cases jobStmt <;> simp only [JobStmt.set]
      case mark_job_dispatched => simpa [hrunning] using hnow
      case claim_job =>
        rw [Job.claim_job, if_neg (by rw [hrunning]; simp [JobState.unstarted])]
        exact ⟨hrunning, hrenewed⟩
      case heartbeat_job =>
        rw [Job.heartbeat_job, if_pos hrunning]
        exact ⟨hrunning, hnow⟩
      case update_job_in_db stats => exact absurd rfl (hresult stats)
      case update_job_state_failed reason => exact absurd rfl (hreason reason)
      all_goals exact ⟨hrunning, hrenewed⟩
    · rw [if_neg hid]
      exact ⟨hrunning, hrenewed⟩
  case cancel_unstarted_jobs =>
    rw [Job.cancel_unstarted_jobs, if_neg (by rw [hrunning]; simp [JobState.unstarted])]
    exact ⟨hrunning, hrenewed⟩
  case requeue_failed error_contains =>
    rw [Job.requeue_failed,
      if_neg (fun h => by rw [Job.failed_of_retryable h] at hrunning; cases hrunning)]
    exact ⟨hrunning, hrenewed⟩
  case requeue_orphans => exact absurd rfl horphan
  case reclaim_expired_leases sweep =>
    have hfresh : job.staleRunning cfg sweep = false := by
      have hle := Int.le_trans (hsweep sweep rfl) hrenewed
      simp only [Job.staleRunning, Bool.and_eq_false_iff, decide_eq_false_iff_not]
      exact .inr (by omega)
    rw [Job.reclaim_eq_self hfresh (by rw [hrunning]; simp)]
    exact ⟨hrunning, hrenewed⟩
  all_goals exact ⟨hrunning, hrenewed⟩

variable {cfg : Config} {i : TaskId} {store : Store} {p p' : Proc} {choice : Choice} {stmt : Stmt}

theorem Goes.executing {job_id : JobId} {renewed_at : Int} (h : Goes cfg i store p choice stmt p')
    (hp' : p'.executing = some (job_id, renewed_at)) : ∃ task track batch pc a,
      p = .drive task (.execute_job track batch pc) ∧ batch.jobs.head? = some job_id ∧
      pc.act store.clock choice = some a ∧ stmt = .job job_id a.stmt ∧
      a.next (a.stmt.reply (store.job job_id)) = .live renewed_at := by
  cases h
  case execute_job task track batch pc a id hjob ha =>
    generalize hnext : a.next (a.stmt.reply (store.job id)) = next at hp'
    cases next
    case live at_ =>
      simp only [Proc.executing, hjob] at hp'
      cases hp'
      exact ⟨task, track, batch, pc, a, rfl, hjob, ha, rfl, hnext⟩
    all_goals cases hp'
  all_goals cases hp'

-- Only the loop that executes a job reports on it.
theorem Goes.reports {job_id : JobId} {jobStmt : JobStmt}
    (h : Goes cfg i store p choice (.job job_id jobStmt) p')
    (hp : p.InProcess) (hexecuting : ∀ renewed_at, p.executing ≠ some (job_id, renewed_at)) :
    (∀ stats, jobStmt ≠ .update_job_in_db stats) ∧
    ∀ reason, jobStmt ≠ .update_job_state_failed reason := by
  cases h
  case on_sent => simp
  case on_unsendable | deliver => exact hp.elim
  case execute_job batch pc a ha hjob =>
    rcases DeliveryPc.act_stmt ha with ⟨at_, stats, rfl, -, -⟩ | hother
    · exact absurd (by simp [Proc.executing, hjob]) (hexecuting at_)
    · exact hother

theorem Proc.fetched_of_executing {job_id : JobId} {renewed_at : Int}
    (h : p.executing = some (job_id, renewed_at)) : job_id ∈ p.fetched := by
  unfold executing at h
  split at h
  · obtain ⟨id, hhead, heq⟩ := Option.map_eq_some_iff.mp h
    cases heq
    exact List.mem_of_mem_head? hhead
  · cases h

namespace Manager

-- No job is executed by two loops at the same time.
def StartedOnce (cfg : Config) (Ok : Manager → Event → Prop) : Prop :=
  ∀ s, Reach (step cfg) (fun s => Initial s ∧ s.store.sent = []) Ok s → ∀ i k job_id at_ at',
    (s.procs i).executing = some (job_id, at_) → (s.procs k).executing = some (job_id, at') → i = k

-- A job that is executed heartbeats its row: no sweep comes to find it lost.
def Renewing (cfg : Config) (s : Manager) : Event → Prop
  | .go i _ => ∀ task track sweep, s.procs i = .drive task (.reclaim track sweep) →
      ∀ k job_id renewed_at, (s.procs k).executing = some (job_id, renewed_at) →
        sweep - cfg.JOB_RUNNING_LEASE_SECONDS ≤ renewed_at
  | _ => True

-- A resume requeues the jobs in flight while no loop executes one. Besides, the claims
-- reach the database, and the retention sweep waits for the loops.
def Orphaned (s : Manager) : Event → Prop
  | .go i choice =>
      (s.procs i = .resume .orphans → ∀ k, (s.procs k).executing = none) ∧
      (∀ task track batch pc, s.procs i = .drive task (.execute_job track batch pc) →
        pc = .claim ∨ pc = .blocked →
        choice.raised = none) ∧
      (∀ cutoff doomed, s.procs i = .sweep (.executions cutoff doomed) →
        ∀ k, (s.procs k).fetched = [])
  | _ => True

structure InProcessInv (s : Manager) : Prop where
  sent : s.store.sent = []
  inProcess : ∀ k, (s.procs k).InProcess
  fetched : ∀ k, ∀ job_id ∈ (s.procs k).fetched, (s.store.job job_id).isSome
  held : ∀ k job_id renewed_at, (s.procs k).executing = some (job_id, renewed_at) →
    renewed_at ≤ s.store.clock ∧
    ∀ row, s.store.job job_id = some row → row.state = .running ∧ renewed_at ≤ row.updated_at
  once : ∀ i k job_id at_ at', (s.procs i).executing = some (job_id, at_) →
    (s.procs k).executing = some (job_id, at') → i = k

variable {s s' : Manager} {e : Event}

theorem inProcessInv_initial (h : Initial s) (hsent : s.store.sent = []) : InProcessInv s := by
  have hproc : ∀ k, (s.procs k).InProcess ∧ (s.procs k).fetched = [] ∧
      (s.procs k).executing = none := by
    intro k
    rcases h.proc k with hp | ⟨-, hp⟩ <;> rw [hp] <;> exact ⟨trivial, rfl, rfl⟩
  refine ⟨hsent, fun k => (hproc k).1, fun k job_id hjob => ?_, fun k job_id at_ hex => ?_,
    fun k _ _ _ _ hex => ?_⟩
  · rw [(hproc k).2.1] at hjob
    cases hjob
  · rw [(hproc k).2.2] at hex
    cases hex
  · rw [(hproc k).2.2] at hex
    cases hex

-- A task is replaced by one that has no job.
theorem inProcessInv_set (h : InProcessInv s) {i : TaskId} {p : Proc} (hp : p.InProcess)
    (hfetched : p.fetched = []) :
    InProcessInv (s.set i s.store p) := by
  have hnone : ∀ entry, p.executing ≠ some entry := by
    intro entry hex
    have hmem := Proc.fetched_of_executing hex
    rw [hfetched] at hmem
    cases hmem
  have hexecuting : ∀ k entry, ((s.set i s.store p).procs k).executing = some entry →
      (s.procs k).executing = some entry := fun k entry =>
    Pool.forall_set (B := fun k (q : Proc) => q.executing = some entry →
      (s.procs k).executing = some entry)
      (fun hex => absurd hex (hnone entry)) (fun _ _ hex => hex) k
  refine ⟨h.sent, Pool.forall_set hp fun k _ => h.inProcess k, ?_,
    fun k job_id at_ hex => h.held k job_id at_ (hexecuting k _ hex),
    fun i k job_id _ _ hi hk => h.once i k job_id _ _ (hexecuting i _ hi) (hexecuting k _ hk)⟩
  refine Pool.forall_set
    (B := fun _ (q : Proc) => ∀ job_id ∈ q.fetched, (s.store.job job_id).isSome) ?_
    fun k _ => h.fetched k
  rw [hfetched]
  exact fun job_id hjob => by cases hjob

-- The jobs that other loops execute stay running behind a statement of task `i`.
theorem held_others (h : InProcessInv s) {i k : TaskId} {choice : Choice} {stmt : Stmt} {p : Proc}
    (hok : Orphaned s (.go i choice)) (hrenew : Renewing cfg s (.go i choice))
    (hgoes : Goes cfg i s.store (s.procs i) choice stmt p) (hk : k ≠ i) {job_id : JobId}
    {renewed_at : Int} (hex : (s.procs k).executing = some (job_id, renewed_at)) {row : Job}
    (hrow : s.store.job job_id = some row) :
    (stmt.onJob cfg s.store.clock row).state = .running ∧
      renewed_at ≤ (stmt.onJob cfg s.store.clock row).updated_at := by
  obtain ⟨hclock, hheld⟩ := h.held k job_id renewed_at hex
  obtain ⟨hrunning, hrenewed⟩ := hheld row hrow
  have hid : row.job_id = job_id := by simpa using List.find?_some hrow
  refine Stmt.running_onJob hrunning hrenewed hclock (fun horphan => ?_) (fun sweep hsweep => ?_)
    fun jobStmt hjob => ?_
  · subst horphan
    have hp : s.procs i = .resume .orphans := by
      generalize s.procs i = p₀ at hgoes
      cases hgoes
      rfl
    rw [hok.1 hp k] at hex
    cases hex
  · subst hsweep
    obtain ⟨task, track, hp⟩ : ∃ task track, s.procs i = .drive task (.reclaim track sweep) := by
      generalize s.procs i = p₀ at hgoes
      cases hgoes
      exact ⟨_, _, rfl⟩
    exact hrenew task track sweep hp k job_id renewed_at hex
  · subst hjob
    refine hgoes.reports (h.inProcess i) fun at_ hi => ?_
    rw [hid] at hi
    exact hk (h.once k i job_id _ _ hex hi)

-- A loop that executes a job after its step executed it before, or has just won its claim.
theorem held_own (h : InProcessInv s) {i : TaskId} {choice : Choice} {stmt : Stmt} {p : Proc}
    (hok : Orphaned s (.go i choice)) (hgoes : Goes cfg i s.store (s.procs i) choice stmt p)
    {job_id : JobId} {renewed_at : Int} (hex : p.executing = some (job_id, renewed_at)) :
    renewed_at = s.store.clock ∧ ∃ row, s.store.job job_id = some row ∧
      (stmt.onJob cfg s.store.clock row).state = .running ∧
      (stmt.onJob cfg s.store.clock row).updated_at = s.store.clock ∧
      ((∃ at_, (s.procs i).executing = some (job_id, at_)) ∨ row.state.unstarted = true) := by
  obtain ⟨task, track, batch, pc, a, hp, hhead, ha, rfl, hnext⟩ := hgoes.executing hex
  obtain ⟨row, hrow⟩ := Option.isSome_iff_exists.mp
    (h.fetched i job_id (by rw [hp]; exact List.mem_of_mem_head? hhead))
  have hid : row.job_id = job_id := by simpa using List.find?_some hrow
  obtain ⟨rfl, hcases⟩ := DeliveryPc.act_live ha hnext
  refine ⟨rfl, row, hrow, ?_⟩
  simp only [Stmt.onJob, if_pos hid]
  rcases hcases with ⟨at_, rfl, hstmt⟩ | ⟨-, hstmt, hunstarted⟩ | ⟨hpc, hfailed⟩
  · have hexecuting : (s.procs i).executing = some (job_id, at_) := by
      simp [hp, Proc.executing, hhead]
    obtain ⟨hrunning, -⟩ := (h.held i job_id at_ hexecuting).2 row hrow
    rw [hstmt, JobStmt.set, Job.heartbeat_job, if_pos hrunning]
    exact ⟨hrunning, rfl, .inl ⟨at_, hexecuting⟩⟩
  · rw [hrow, Option.any_some] at hunstarted
    rw [hstmt, JobStmt.set, Job.claim_job, if_pos hunstarted]
    exact ⟨rfl, rfl, .inr hunstarted⟩
  · rcases hfailed with hraised | hnone
    · rw [hok.2.1 task track batch pc hp hpc] at hraised
      cases hraised
    · rw [hrow] at hnone
      cases hnone

theorem inProcessInv_go (hlocal : cfg.local_mode = true) (h : InProcessInv s)
    {i : TaskId} {choice : Choice} {stmt : Stmt} {p : Proc} (hok : Orphaned s (.go i choice))
    (hrenew : Renewing cfg s (.go i choice)) (hgoes : Goes cfg i s.store (s.procs i) choice stmt p)
    (hne : ∀ cutoff doomed, stmt ≠ .purge_executions cutoff doomed) :
    InProcessInv (s.set i (stmt.run cfg s.store) p) := by
  obtain ⟨hinProcess, hsends⟩ := hgoes.inProcess hlocal (h.inProcess i)
  have hrow : ∀ {job_id row}, s.store.job job_id = some row →
      (stmt.run cfg s.store).job job_id = some (stmt.onJob cfg s.store.clock row) :=
        Stmt.run_job_of_ne hne
  have hsome : ∀ {job_id}, (s.store.job job_id).isSome →
      ((stmt.run cfg s.store).job job_id).isSome := fun hjob => by
    obtain ⟨row, hjob⟩ := Option.isSome_iff_exists.mp hjob
    rw [hrow hjob]
    rfl
  -- nobody else executes what task `i` has just started
  have honce : ∀ k job_id at_ at', k ≠ i → (s.procs k).executing = some (job_id, at_) →
      p.executing ≠ some (job_id, at') := by
    intro k job_id at_ at' hk hex hown
    obtain ⟨-, row, hjob, -, -, hbefore⟩ := held_own h hok hgoes hown
    rcases hbefore with ⟨at₀, hi⟩ | hunstarted
    · exact hk (h.once k i job_id _ _ hex hi)
    · rw [((h.held k job_id at_ hex).2 row hjob).1] at hunstarted
      cases hunstarted
  refine ⟨?_, Pool.forall_set hinProcess fun k _ => h.inProcess k, ?_, ?_, ?_⟩
  · rw [Pool.set_store, Stmt.run_sent, hsends, h.sent]
    rfl
  · refine Pool.forall_set
      (B := fun _ (q : Proc) => ∀ job_id ∈ q.fetched, ((stmt.run cfg s.store).job job_id).isSome) ?_
      fun k _ job_id hjob => hsome (h.fetched k job_id hjob)
    intro job_id hjob
    rcases hgoes.fetched job_id hjob with hold | hnew
    · exact hsome (h.fetched i job_id hold)
    · exact hsome hnew
  · refine Pool.forall_set
      (B := fun _ (q : Proc) => ∀ job_id renewed_at, q.executing = some (job_id, renewed_at) →
      renewed_at ≤ (stmt.run cfg s.store).clock ∧
        ∀ row, (stmt.run cfg s.store).job job_id = some row →
        row.state = .running ∧ renewed_at ≤ row.updated_at) ?_ ?_
    · intro job_id renewed_at hex
      obtain ⟨rfl, row, hjob, hrunning, hupdated, -⟩ := held_own h hok hgoes hex
      rw [Stmt.run_clock]
      refine ⟨Int.le_refl _, fun row' hrow' => ?_⟩
      rw [hrow hjob] at hrow'
      cases hrow'
      exact ⟨hrunning, Int.le_of_eq hupdated.symm⟩
    · intro k hk job_id renewed_at hex
      rw [Stmt.run_clock]
      refine ⟨(h.held k job_id renewed_at hex).1, fun row' hrow' => ?_⟩
      obtain ⟨row, hjob⟩ :=
        Option.isSome_iff_exists.mp (h.fetched k job_id (Proc.fetched_of_executing hex))
      rw [hrow hjob] at hrow'
      cases hrow'
      exact held_others h hok hrenew hgoes hk hex hjob
  · intro k₁ k₂ job_id at₁ at₂ h₁ h₂
    by_cases hk₁ : k₁ = i <;> by_cases hk₂ : k₂ = i
    · rw [hk₁, hk₂]
    · subst hk₁
      rw [Pool.set_procs_self] at h₁
      rw [Pool.set_procs_of_ne s _ p hk₂] at h₂
      exact absurd h₁ (honce k₂ job_id at₂ at₁ hk₂ h₂)
    · subst hk₂
      rw [Pool.set_procs_self] at h₂
      rw [Pool.set_procs_of_ne s _ p hk₁] at h₁
      exact absurd h₂ (honce k₁ job_id at₁ at₂ hk₁ h₁)
    · rw [Pool.set_procs_of_ne s _ p hk₁] at h₁
      rw [Pool.set_procs_of_ne s _ p hk₂] at h₂
      exact h.once k₁ k₂ job_id at₁ at₂ h₁ h₂

-- The retention sweep finds no loop with jobs, so it deletes none that is executed.
theorem inProcessInv_purge (h : InProcessInv s) {i : TaskId} {p : Proc} {cutoff : Int}
    {doomed : List JobId}
    (hp : p.InProcess) (hfetched : ∀ k, (s.procs k).fetched = []) (hown : p.fetched = []) :
    InProcessInv (s.set i (Stmt.run cfg s.store (.purge_executions cutoff doomed)) p) := by
  have hnone : ∀ k, ((s.set i (Stmt.run cfg s.store (.purge_executions cutoff doomed)) p).procs
      k).fetched = [] :=
    Pool.forall_set (B := fun _ (q : Proc) => q.fetched = []) hown fun k _ => hfetched k
  have hidle : ∀ k entry,
    ((s.set i (Stmt.run cfg s.store (.purge_executions cutoff doomed)) p).procs k).executing ≠
      some entry := by
    intro k entry hex
    have hmem := Proc.fetched_of_executing hex
    rw [hnone k] at hmem
    cases hmem
  refine ⟨?_, Pool.forall_set hp fun k _ => h.inProcess k, fun k job_id hjob => ?_,
    fun k _ _ hex => absurd hex (hidle k _), fun k _ _ _ _ hex => absurd hex (hidle k _)⟩
  · rw [Pool.set_store, Stmt.run_sent, h.sent]
    rfl
  · rw [hnone k] at hjob
    cases hjob

theorem inProcessInv_step (hlocal : cfg.local_mode = true) (h : InProcessInv s) (hok : Orphaned s e)
    (hrenew : Renewing cfg s e) (hs : step cfg s e = some s') : InProcessInv s' := by
  cases e with
  | tick now =>
      obtain ⟨hle, rfl⟩ := step_tick hs
      exact ⟨h.sent, h.inProcess, h.fetched, fun k job_id at_ hex =>
        ⟨Int.le_trans (h.held k job_id at_ hex).1 hle, (h.held k job_id at_ hex).2⟩, h.once⟩
  | start i entry =>
      obtain ⟨-, p, hp, rfl⟩ := step_start hs
      rcases Entry.cases hp with ⟨_, rfl⟩ | ⟨_, rfl⟩ | rfl | ⟨_, hsent, rfl⟩ | ⟨_, rfl⟩
      case inr.inr.inr.inl =>
        rw [h.sent] at hsent
        cases hsent
      all_goals exact inProcessInv_set h trivial rfl
  | go i choice =>
      obtain ⟨stmt, p, hgoes, rfl⟩ := step_goes hs
      by_cases hpurge : ∃ cutoff doomed, stmt = .purge_executions cutoff doomed
      · obtain ⟨cutoff, doomed, rfl⟩ := hpurge
        obtain ⟨hp, rfl⟩ : s.procs i = .sweep (.executions cutoff doomed) ∧ p = .ended := by
          generalize s.procs i = p₀ at hgoes
          cases hgoes
          exact ⟨rfl, rfl⟩
        exact inProcessInv_purge h trivial (hok.2.2 cutoff doomed hp) rfl
      · exact inProcessInv_go hlocal h hok hrenew hgoes fun cutoff doomed hp =>
          hpurge ⟨cutoff, doomed, hp⟩
  | crash i =>
      cases hs
      exact inProcessInv_set h trivial rfl

-- Of three tasks: nothing fails, and no sweep of theirs finds a job of theirs lost.
def attended (s : Manager) : Event → Bool
  | .go i choice => choice.raised.isNone && match s.procs i with
      | .drive _ (.reclaim _ sweep) => decide (Below 3 (fun p => p.executing.all
          (sweep - localDefaults.JOB_RUNNING_LEASE_SECONDS ≤ ·.2) = true) s)
      | _ => true
  | _ => true

theorem renewing_of_attended (hidle : ∀ k, 3 ≤ k → s.procs k = .idle) (h : attended s e = true) :
    Renewing localDefaults s e ∧ e.succeeds = true := by
  cases e with
  | tick | start | crash => exact ⟨trivial, rfl⟩
  | go i choice =>
      simp only [attended, Bool.and_eq_true] at h
      refine ⟨fun task track sweep hp k job_id renewed_at hex => ?_, h.1⟩
      rw [hp] at h
      rcases Nat.lt_or_ge k 3 with hlt | hle
      · have hall := of_decide_eq_true h.2 k hlt
        simp only [hex, Option.all_some, decide_eq_true_eq] at hall
        exact hall
      · rw [hidle k hle] at hex
        cases hex

-- Nor does a resume of theirs find a job in execution, or a retention sweep run.
def orphaned (s : Manager) (e : Event) : Bool :=
  attended s e && match e with
    | .go i _ => match s.procs i with
        | .resume .orphans => decide (Below 3 (·.executing = none) s)
        | .sweep (.executions _ _) => false
        | _ => true
    | _ => true

theorem of_orphaned (hidle : ∀ k, 3 ≤ k → s.procs k = .idle) (h : orphaned s e = true) :
    Renewing localDefaults s e ∧ Orphaned s e := by
  simp only [orphaned, Bool.and_eq_true] at h
  refine ⟨(renewing_of_attended hidle h.1).1, ?_⟩
  cases e with
  | go i choice =>
      have hnone : choice.raised = none := by
        have hattended := h.1
        simp only [attended, Bool.and_eq_true] at hattended
        exact Option.isNone_iff_eq_none.mp hattended.1
      refine ⟨fun hp k => ?_, fun _ _ _ _ _ _ => hnone, fun cutoff doomed hp => ?_⟩
      · rcases Nat.lt_or_ge k 3 with hlt | hle
        · have hbelow := h.2
          simp only [hp, decide_eq_true_eq] at hbelow
          exact hbelow k hlt
        · rw [hidle k hle]
          rfl
      · have hsweep := h.2
        simp only [hp, Bool.false_eq_true] at hsweep
  | tick | start | crash => trivial

theorem started_once (cfg : Config) (hlocal : cfg.local_mode = true) :
    StartedOnce cfg fun s e => Renewing cfg s e ∧ Orphaned s e := by
  intro s hr
  exact (hr.invariant (I := InProcessInv) (fun s hs => inProcessInv_initial hs.1 hs.2)
    fun s e s' _ h hok hs => inProcessInv_step hlocal h hok.2 hok.1 hs).once

-- The manager is killed while it executes the job; the next one puts it back and executes it.
theorem started_once_local :
    StartedOnce localDefaults (fun s e => Renewing localDefaults s e ∧ Orphaned s e) ∧
    ∃ s : Manager, Reach (step localDefaults) (fun s => Initial s ∧ s.store.sent = [])
        (fun s e => Renewing localDefaults s e ∧ Orphaned s e) s ∧
      s.store.jobs.map (·.attempts) = [2] ∧ ((s.procs 1).executing).map (·.1) = some 0 := by
  refine ⟨started_once localDefaults rfl, ?_⟩
  obtain ⟨s, hr, htest⟩ := Reach.replay_within (step localDefaults)
    (fun s => Initial s ∧ s.store.sent = [])
    (fun s e => Renewing localDefaults s e ∧ Orphaned s e) orphaned
      (fun s => ∀ k, 3 ≤ k → s.procs k = .idle)
    (fun _ _ => of_orphaned) ⟨.inl (fresh_created 0), rfl⟩
    (fun k hk => created_idle (Nat.lt_of_lt_of_le (by decide) hk))
      (localRun ++ [.crash 0] ++ restartedRun 1)
    (idle_step 3 (by decide))
    (fun s => decide (s.store.jobs.map (·.attempts) = [2] ∧
      ((s.procs 1).executing).map (·.1) = some 0)) (by decide)
  exact ⟨s, hr, of_decide_eq_true htest⟩

-- The execution is paused and resumed, and the resume comes more than a driver lease after
-- the loop has last shown itself.
def pausedRun : List Event :=
  localRun ++ [.start 1 (.request .pause), .go 1 .ok, .go 1 .ok, .tick (30 * second), .go 0 .beat,
    .start 2 (.request .resume)] ++ List.replicate 5 (.go 2 .ok) ++
      [.tick (61 * second), .go 0 .beat] ++
    List.replicate 11 (.go 2 .ok)

-- The job runs for longer than the driver lease: the resume takes it for an orphan, and its
-- loop starts it again.
theorem started_twice : ¬∀ cfg : Config, cfg.local_mode = true →
    StartedOnce cfg fun s e => Renewing cfg s e ∧ e.succeeds = true := by
  intro honce
  obtain ⟨s, hr, htest⟩ := Reach.replay_within (step localDefaults)
    (fun s => Initial s ∧ s.store.sent = [])
    (fun s e => Renewing localDefaults s e ∧ e.succeeds = true) attended
      (fun s => ∀ k, 3 ≤ k → s.procs k = .idle)
    (fun s e hidle h => renewing_of_attended hidle h) ⟨.inl (fresh_created 0), rfl⟩
    (fun k hk => created_idle (Nat.lt_of_lt_of_le (by decide) hk)) pausedRun
      (idle_step 3 (by decide))
    (fun s => (s.procs 0).executing.any (·.1 == 0) && (s.procs 2).executing.any
      (·.1 == 0)) (by decide)
  simp only [Bool.and_eq_true, Option.any_eq_true, beq_iff_eq] at htest
  obtain ⟨⟨⟨job_id, at_⟩, h0, hid⟩, ⟨job_id', at'⟩, h2, hid'⟩ := htest
  cases hid
  cases hid'
  exact absurd (honce localDefaults rfl s hr 0 2 0 at_ at' h0 h2) (by decide)

end Manager

end Reflowfy
