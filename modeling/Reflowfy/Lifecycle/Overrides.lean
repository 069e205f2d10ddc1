import Reflowfy.RunSettings
import Reflowfy.Lifecycle.InFlight

namespace Reflowfy.RunSettings

open Interleaving

variable {cfg : Config} {request : RunPipelineRequest} {process : TaskId → Process}
    {i : TaskId} {store : Store}
  {p p' : Proc} {choice : Choice} {stmt : Stmt} {settings : Settings}

section Tasks

-- A loop that has taken a token for a message.
def hasToken : Proc → Bool
  | .drive _ (.should_stop _ _ token) | .drive _ (.check_heartbeat _ _ token)
  | .drive _ (.check_state _ _ token) => token
  | .drive _ (.send _ _) => true
  | _ => false

-- Its batch is sent as messages.
theorem token_goes (h : Goes cfg i store p choice stmt p') (htoken : hasToken p' = true) :
    hasToken p = true ∨ cfg.local_mode = false := by
  cases h
  case acquire_token hlocal => exact .inr hlocal
  case should_stop_check | check_heartbeat => exact .inl htoken
  case should_stop_send | check_state_send => exact .inl rfl
  all_goals cases htoken

-- What a loop dispatches with: the run's own as its request says, and a resume's as the process
-- it runs in says, but for the rate that the request has left in the row.
def LoopUses (request : RunPipelineRequest) (process : TaskId → Process) (i : TaskId)
    (settings : Settings) : Task → Prop
  | .run => settings = dispatch_pipeline_jobs (process 0) request
  | .resume => settings.dispatcher = make_manager (process i) none ∧
      settings.effective_rate_limit = effective_rate_limit request.rate_limit (process i).pipeline

def SettlerUses (request : RunPipelineRequest) (process : TaskId → Process) (i : TaskId)
    (settings : Settings) :
    Settler → Prop
  | .loop task _ => LoopUses request process i settings task
  | .resume => True

def Uses (request : RunPipelineRequest) (process : TaskId → Process) (i : TaskId)
    (settings : Settings) : Proc → Prop
  | .plan _ _ => i = 0 ∧ settings = dispatch_pipeline_jobs (process 0) request
  | .drive task _ => LoopUses request process i settings task
  | .settle settler _ _ _ => SettlerUses request process i settings settler
  | .resume .orphans => LoopUses request process i settings .resume
  | .resume _ => settings.dispatcher = make_manager (process i) none
  | _ => True

theorem uses_goes (h : Goes cfg i store p choice stmt p') (hp : Uses request process i settings p) :
    Uses request process i (settings.resettle (process i) request.rate_limit p p') p' := by
  cases h
  case plan_stop | plan_stop_unleased | stop_error => exact hp.2
  case resume_orphans | resume_drive => exact ⟨hp, rfl⟩
  all_goals trivial

theorem uses_entry {entry : Entry} (h : entry.proc cfg store = some p) :
    Uses request process i settings p := by
  rcases Entry.cases h with ⟨_, rfl⟩ | ⟨_, rfl⟩ | rfl | ⟨_, -, rfl⟩ | ⟨_, rfl⟩ <;> trivial

theorem token_entry {entry : Entry} (h : entry.proc cfg store = some p) : hasToken p = false := by
  rcases Entry.cases h with ⟨_, rfl⟩ | ⟨_, rfl⟩ | rfl | ⟨_, -, rfl⟩ | ⟨_, rfl⟩ <;> rfl

theorem batch_entry {entry : Entry} (h : entry.proc cfg store = some p) : p.batch = none := by
  rcases Entry.cases h with ⟨_, rfl⟩ | ⟨_, rfl⟩ | rfl | ⟨_, -, rfl⟩ | ⟨_, rfl⟩ <;> rfl

-- A loop with a token has kept its settings since.
theorem resettle_token (h : Goes cfg i store p choice stmt p') (htoken : hasToken p' = true)
    (rate_limit : Option ℚ) :
    settings.resettle (process i) rate_limit p p' = settings := by
  cases h
  case should_stop_check | should_stop_send | check_heartbeat | check_state_send |
    acquire_token => rfl
  all_goals cases htoken

-- A step that sends a job is a loop's, of a job in its batch, and by the dispatcher that it has.
theorem sends_cases {local_mode : Bool} {job_id : JobId} {dispatcher : Dispatcher}
    (h : sends local_mode p choice = some (job_id, dispatcher)) :
    ∃ task pc batch, p = .drive task pc ∧ p.batch = some batch ∧ job_id ∈ batch.jobs ∧
      (dispatcher = .LocalDispatcher ∧ local_mode = true ∨ dispatcher = .KafkaDispatcher ∧
        hasToken p = true) := by
  unfold sends at h
  split at h
  · rename_i task track batch
    split at h
    · rename_i hlocal
      obtain ⟨job, hjob, heq⟩ := Option.map_eq_some_iff.mp h
      cases heq
      exact ⟨_, _, _, rfl, rfl, List.mem_of_mem_head? hjob, .inl ⟨rfl, hlocal⟩⟩
    · cases h
  · obtain ⟨job, hjob, heq⟩ := Option.map_eq_some_iff.mp h
    cases heq
    exact ⟨_, _, _, rfl, rfl, List.mem_of_mem_head? hjob, .inr ⟨rfl, rfl⟩⟩
  · cases h

end Tasks

section Runs

variable {s s' : RunState} {e : Event}

theorem step_go (h : s.step cfg process (.go i choice) = some s') : ∃ stmt p,
    Goes (s.config cfg i) i s.manager.store (s.manager.procs i) choice stmt p ∧
      s' = { s with
        manager := s.manager.set i (stmt.run (s.config cfg i) s.manager.store) p
        dedup_checks := s.save i stmt
        settings := Function.update s.settings i
          ((s.settings i).resettle (process i) s.rate_limit (s.manager.procs i) p)
        sent := s.record cfg i choice } := by
  simp only [RunState.step, Option.bind_eq_some_iff, Option.map_eq_some_iff] at h
  obtain ⟨a, ha, manager, hmanager, rfl⟩ := h
  obtain ⟨a', ha', rfl⟩ := Manager.step_go hmanager
  cases Option.some.inj (ha.symm.trans ha')
  refine ⟨a.stmt, _, goes_of_act ha, ?_⟩
  rw [Pool.set_procs_self]

theorem step_other (h : ∀ i choice, e ≠ .go i choice) (hs : s.step cfg process e = some s') :
    ∃ manager, s.manager.step cfg e = some manager ∧ s' = { s with manager } := by
  cases e
  case go i choice => exact absurd rfl (h i choice)
  all_goals
    simp only [RunState.step, Option.map_eq_some_iff] at hs
    obtain ⟨manager, hmanager, rfl⟩ := hs
    exact ⟨manager, hmanager, rfl⟩

-- The settings of the request, in the process that has taken it.
variable (request process) in
def original : Settings := dispatch_pipeline_jobs (process 0) request

-- A job that has been sent as the request said.
variable (request process) in
def AsRequested (job : SentJob) : Prop :=
  job.dispatcher = (original request process).dispatcher ∧
    job.rate_limit = (original request process).effective_rate_limit ∧
    job.dedup_check = some (!(original request process).enable_duplicate_jobs)

-- The process of a resume gives what the request gave where it was taken.
variable (request process) in
def Agrees (i : TaskId) : Prop :=
  make_manager (process i) none = make_manager (process 0) request.mode ∧
    effective_rate_limit request.rate_limit (process i).pipeline =
      effective_rate_limit request.rate_limit (process 0).pipeline

-- A job is sent by the run's own loop, or by a resume's where the process agrees.
variable (cfg request process) in
def Agreeing (s : RunState) : Event → Prop
  | .go i choice => (sends (s.config cfg i).local_mode (s.manager.procs i) choice).isSome →
      (∃ pc, s.manager.procs i = .drive .resume pc) → Agrees request process i
  | _ => True

variable (request process) in
structure Settled (s : RunState) : Prop where
  rate_limit : s.rate_limit = request.rate_limit
  uses : ∀ i, Uses request process i (s.settings i) (s.manager.procs i)
  token : ∀ i, hasToken (s.manager.procs i) = true → (s.settings i).dispatcher = .KafkaDispatcher
  jobs : ∀ job ∈ s.manager.store.jobs, s.dedup_checks job.job_id =
    some (!(original request process).enable_duplicate_jobs)
  batches : ∀ i batch, (s.manager.procs i).batch = some batch → ∀ job_id ∈ batch.jobs,
    s.dedup_checks job_id = some (!(original request process).enable_duplicate_jobs)

theorem settled_initial (h : s.Initial request process) : Settled request process s := by
  obtain ⟨⟨-, hjobs, -, -, hplan, hidle⟩, hrate, hsettings, -⟩ := h
  have hproc : ∀ i, (i = 0 ∧ s.manager.procs i = .plan false .lease) ∨
      s.manager.procs i = .idle := by
    intro i
    by_cases hi : i = 0
    · subst hi
      exact .inl ⟨rfl, hplan⟩
    · exact .inr (hidle i hi)
  refine ⟨hrate, fun i => ?_, fun i htoken => ?_, fun job hjob => ?_, fun i batch hbatch => ?_⟩
  · rcases hproc i with ⟨rfl, hp⟩ | hp
    · rw [hp]
      exact ⟨rfl, hsettings⟩
    · rw [hp]
      trivial
  · rcases hproc i with ⟨-, hp⟩ | hp <;> rw [hp] at htoken <;> cases htoken
  · rw [hjobs] at hjob
    cases hjob
  · rcases hproc i with ⟨-, hp⟩ | hp <;> rw [hp] at hbatch <;> cases hbatch

theorem planner_settings (h : Settled request process s) {leased : Bool} {pc : PlanPc}
    (hp : s.manager.procs i = .plan leased pc) : s.settings i = original request process := by
  have huses := h.uses i
  rw [hp] at huses
  exact huses.2

-- What a planner saves has the request's setting, as what was saved before.
theorem save_rows (h : Settled request process s) {rows : List (JobId × ℕ)}
    (hgoes : Goes (s.config cfg i) i s.manager.store (s.manager.procs i) choice
      (.create_jobs rows) p') {k : JobId}
    (hsaved : s.manager.store.execution.isSome ∧ k ∈ rows.map Prod.fst) :
    s.save i (.create_jobs rows) k = some (!(original request process).enable_duplicate_jobs) := by
  obtain ⟨leased, pl, -, hp⟩ := hgoes.creates
  have hsettings : s.settings i = original request process :=
    hp.elim (planner_settings h) (planner_settings h)
  simp only [RunState.save, if_pos hsaved, hsettings]

theorem save_keeps (h : Settled request process s)
    (hgoes : Goes (s.config cfg i) i s.manager.store (s.manager.procs i) choice stmt p') {k : JobId}
    (hk : s.dedup_checks k = some (!(original request process).enable_duplicate_jobs)) :
    s.save i stmt k = some (!(original request process).enable_duplicate_jobs) := by
  cases stmt
  case create_jobs rows =>
    by_cases hsaved : s.manager.store.execution.isSome ∧ k ∈ rows.map Prod.fst
    · exact save_rows h hgoes hsaved
    · simp only [RunState.save, if_neg hsaved, hk]
  all_goals exact hk

-- Each job in the table has been saved, and each job of a batch has been in the table.
theorem saved_run (h : Settled request process s)
    (hgoes : Goes (s.config cfg i) i s.manager.store (s.manager.procs i) choice
      stmt p') {job' : Job}
    (hjob : job' ∈ (stmt.run (s.config cfg i) s.manager.store).jobs) :
    s.save i stmt job'.job_id = some (!(original request process).enable_duplicate_jobs) := by
  rcases Stmt.mem_run_jobs hjob with ⟨job, hmem, rfl⟩ | ⟨hsome, hnew⟩
  · rw [Stmt.onJob_job_id]
    exact save_keeps h hgoes (h.jobs job hmem)
  · cases stmt
    case create_jobs rows =>
      obtain ⟨row, hrow, rfl⟩ := List.mem_map.mp hnew
      exact save_rows h hgoes ⟨hsome, List.mem_map_of_mem hrow⟩
    all_goals cases hnew

theorem saved_batch (h : Settled request process s)
    (hgoes : Goes (s.config cfg i) i s.manager.store (s.manager.procs i) choice stmt
      p') {batch' : Batch}
    (hbatch : p'.batch = some batch') : ∀ job_id ∈ batch'.jobs,
      s.save i stmt job_id = some (!(original request process).enable_duplicate_jobs) := by
  intro job_id hmem
  rcases Manager.batch_of_goes hgoes hbatch with ⟨batch, hbefore, hsub⟩ | ⟨_, _, limit, -, -, hjobs⟩
  · exact save_keeps h hgoes (h.batches i batch hbefore job_id (hsub job_id hmem))
  · rw [hjobs] at hmem
    obtain ⟨job, hjob, rfl⟩ := List.mem_map.mp hmem
    exact save_keeps h hgoes (h.jobs job (List.mem_filter.mp (List.mem_of_mem_take hjob)).1)

theorem settled_go (h : Settled request process s)
    (hgoes : Goes (s.config cfg i) i s.manager.store (s.manager.procs i) choice stmt p')
    (sent : List SentJob) :
    Settled request process { s with
      manager := s.manager.set i (stmt.run (s.config cfg i) s.manager.store) p'
      dedup_checks := s.save i stmt
      settings := Function.update s.settings i
        ((s.settings i).resettle (process i) s.rate_limit (s.manager.procs i) p')
      sent } where
  rate_limit := h.rate_limit
  uses j := by
    by_cases hj : j = i
    · subst hj
      simp only [Pool.set_procs_self, Function.update_self, h.rate_limit]
      exact uses_goes hgoes (h.uses j)
    · simp only [Pool.set_procs_of_ne _ _ _ hj, Function.update_of_ne hj]
      exact h.uses j
  token j htoken := by
    by_cases hj : j = i
    · subst hj
      simp only [Pool.set_procs_self] at htoken
      simp only [Function.update_self, resettle_token hgoes htoken]
      rcases token_goes hgoes htoken with hbefore | hkafka
      · exact h.token j hbefore
      · simp only [RunState.config, decide_eq_false_iff_not] at hkafka
        cases hdispatcher : (s.settings j).dispatcher
        · exact absurd hdispatcher hkafka
        · rfl
    · simp only [Pool.set_procs_of_ne _ _ _ hj] at htoken
      simp only [Function.update_of_ne hj]
      exact h.token j htoken
  jobs job hjob := saved_run h hgoes hjob
  batches j batch hbatch := by
    by_cases hj : j = i
    · subst hj
      simp only [Pool.set_procs_self] at hbatch
      exact saved_batch h hgoes hbatch
    · simp only [Pool.set_procs_of_ne _ _ _ hj] at hbatch
      exact fun job_id hmem => save_keeps h hgoes (h.batches j batch hbatch job_id hmem)

theorem settled_other (h : Settled request process s) {proc : Proc} (cfg : Config)
    (hstart : proc = .ended ∨
    ∃ entry, Entry.proc cfg s.manager.store entry = some proc) (i : TaskId) :
    Settled request process { s with manager := s.manager.set i s.manager.store proc } := by
  have hproc : Uses request process i (s.settings i) proc ∧ hasToken proc = false ∧
      proc.batch = none := by
    rcases hstart with rfl | ⟨entry, hentry⟩
    · exact ⟨trivial, rfl, rfl⟩
    · exact ⟨uses_entry hentry, token_entry hentry, batch_entry hentry⟩
  refine ⟨h.rate_limit, fun j => ?_, fun j htoken => ?_, h.jobs, fun j batch hbatch => ?_⟩
  · by_cases hj : j = i
    · subst hj
      simp only [Pool.set_procs_self]
      exact hproc.1
    · simp only [Pool.set_procs_of_ne _ _ _ hj]
      exact h.uses j
  · by_cases hj : j = i
    · subst hj
      simp only [Pool.set_procs_self, hproc.2.1] at htoken
      cases htoken
    · simp only [Pool.set_procs_of_ne _ _ _ hj] at htoken
      exact h.token j htoken
  · by_cases hj : j = i
    · subst hj
      simp only [Pool.set_procs_self, hproc.2.2] at hbatch
      cases hbatch
    · simp only [Pool.set_procs_of_ne _ _ _ hj] at hbatch
      exact h.batches j batch hbatch

theorem settled_step (h : Settled request process s) (hs : s.step cfg process e = some s') :
    Settled request process s' := by
  cases e with
  | go i choice =>
      obtain ⟨stmt, p, hgoes, rfl⟩ := step_go hs
      exact settled_go h hgoes _
  | tick now =>
      obtain ⟨manager, hmanager, rfl⟩ := step_other (by simp) hs
      obtain ⟨-, rfl⟩ := Manager.step_tick hmanager
      exact ⟨h.rate_limit, h.uses, h.token, h.jobs, h.batches⟩
  | start i entry =>
      obtain ⟨manager, hmanager, rfl⟩ := step_other (by simp) hs
      obtain ⟨-, p, hp, rfl⟩ := Manager.step_start hmanager
      exact settled_other h cfg (.inr ⟨entry, hp⟩) i
  | crash i =>
      obtain ⟨manager, hmanager, rfl⟩ := step_other (by simp) hs
      cases hmanager
      exact settled_other h cfg (.inl rfl) i

-- What a step sends, it sends as the request said just when it is an agreeing one.
theorem record_iff (h : Settled request process s) {job_id : JobId} {dispatcher : Dispatcher}
    (hsends : sends (s.config cfg i).local_mode (s.manager.procs i) choice =
      some (job_id, dispatcher)) :
    AsRequested request process ⟨job_id, dispatcher, (s.settings i).effective_rate_limit,
      s.dedup_checks job_id⟩ ↔
      Agreeing cfg request process s (.go i choice) := by
  obtain ⟨task, pc, batch, hp, hbatch, hmem, hkind⟩ := sends_cases hsends
  have hdispatcher : dispatcher = (s.settings i).dispatcher := by
    rcases hkind with ⟨rfl, hlocal⟩ | ⟨rfl, htoken⟩
    · exact (of_decide_eq_true hlocal).symm
    · exact (h.token i htoken).symm
  have hdedup := h.batches i batch hbatch job_id hmem
  have huses := h.uses i
  rw [hp] at huses
  simp only [AsRequested, Agreeing, hsends, Option.isSome_some, hdispatcher, hdedup,
    and_true, forall_const]
  cases task with
  | run =>
      have hsettings : s.settings i = original request process := huses
      refine iff_of_true (by rw [hsettings]; exact ⟨rfl, rfl⟩) fun hresume => ?_
      obtain ⟨pc', hpc'⟩ := hresume
      rw [hp] at hpc'
      cases hpc'
  | resume =>
      rw [huses.1, huses.2]
      exact ⟨fun hsame _ => hsame, fun hagrees => hagrees ⟨pc, hp⟩⟩

-- Every job that has been sent, by whatever loop, went as the request said.
variable (request process) in
def Kept (s : RunState) : Prop := ∀ job ∈ s.sent, AsRequested request process job

theorem record_cases (s : RunState) (cfg : Config) (i : TaskId) (choice : Choice) :
    (sends (s.config cfg i).local_mode (s.manager.procs i) choice = none ∧
      s.record cfg i choice = s.sent) ∨
      ∃ job_id dispatcher, sends (s.config cfg i).local_mode (s.manager.procs i) choice =
        some (job_id, dispatcher) ∧
        s.record cfg i choice =
          ⟨job_id, dispatcher, (s.settings i).effective_rate_limit,
            s.dedup_checks job_id⟩ :: s.sent := by
  unfold RunState.record
  cases sends (s.config cfg i).local_mode (s.manager.procs i) choice with
  | none => exact .inl ⟨rfl, rfl⟩
  | some job => exact .inr ⟨_, _, rfl, rfl⟩

theorem kept_step (h : Settled request process s) (hkept : Kept request process s)
    (hs : s.step cfg process e = some s') : Kept request process s' ↔
      Agreeing cfg request process s e := by
  cases e with
  | go i choice =>
      obtain ⟨stmt, p, -, rfl⟩ := step_go hs
      rcases record_cases s cfg i choice with
        ⟨hnone, hrecord⟩ | ⟨job_id, dispatcher, hsends, hrecord⟩
      · refine iff_of_true ?_ fun hsome => ?_
        · simp only [Kept, hrecord]
          exact hkept
        · rw [hnone] at hsome
          cases hsome
      · rw [← record_iff h hsends]
        simp only [Kept, hrecord, List.forall_mem_cons]
        exact and_iff_left hkept
  | tick | start | crash =>
      obtain ⟨manager, -, rfl⟩ := step_other (by simp) hs
      exact iff_of_true hkept trivial

theorem settled_of_reach {Ok : RunState → Event → Prop}
    (hr : Reach (RunState.step cfg process) (RunState.Initial request process) Ok s) :
      Settled request process s :=
  hr.invariant (fun _ hs => settled_initial hs) fun _ _ _ _ h _ hs => settled_step h hs

-- In a run whose jobs are sent by loops that agree with the request's process, each goes as the
-- request said; the first that any other loop sends does not.
theorem overrides_kept (hr : Reach (RunState.step cfg process) (RunState.Initial request process)
      (Agreeing cfg request process) s) :
    Kept request process s ∧ ∀ e s', s.step cfg process e = some s' →
      ¬Agreeing cfg request process s e →
      ¬Kept request process s' := by
  have hkept : Kept request process s := by
    refine hr.invariant (fun s hs job hjob => ?_) fun s e s' hr h hok hs =>
      (kept_step (settled_of_reach hr) h hs).mpr hok
    rw [hs.2.2.2] at hjob
    cases hjob
  exact ⟨hkept, fun e s' hs hnot hkept' =>
    hnot ((kept_step (settled_of_reach hr) hkept hs).mp hkept')⟩

end Runs

section Interrupted

-- The request as its background task finds it.
def accepted (request : RunPipelineRequest) (process : TaskId → Process) : RunState where
  manager := Manager.created 0
  rate_limit := request.rate_limit
  dedup_checks _ := none
  settings _ := dispatch_pipeline_jobs (process 0) request
  sent := []

theorem initial_accepted (request : RunPipelineRequest) (process : TaskId → Process) :
    (accepted request process).Initial request process := ⟨Manager.fresh_created 0, rfl, rfl, rfl⟩

-- A job is planned, the run is paused before its loop sends it, and resumed; the new loop sends it.
def pausedRun : List Event :=
  List.replicate 4 (.go 0 .ok) ++ [.go 0 .slice, .go 0 .ok, .go 0 .plan_end] ++
    List.replicate 4 (.go 0 .ok) ++
    [.start 1 (.request .pause)] ++ List.replicate 2 (.go 1 .ok) ++ List.replicate 5 (.go 0 .ok) ++
    [.start 2 (.request .resume)] ++ List.replicate 17 (.go 2 .ok)

-- A manager whose environment says nothing of EXECUTION_MODE.
def plain : Process := ⟨none, ⟨some 100, true⟩⟩

-- The overrides of a rate and of duplicates survive where the mode is left to the environment.
theorem overrides_kept_paused : ∃ s, Kept ⟨some 30, none, some false⟩ (fun _ => plain) s ∧
    s.sent = [⟨0, .KafkaDispatcher, some 30, some true⟩] := by
  obtain ⟨s, hr, -, htest⟩ := Reach.replay (RunState.step Config.defaults fun _ => plain)
    (RunState.Initial ⟨some 30, none, some false⟩ fun _ => plain)
    (Agreeing Config.defaults ⟨some 30, none, some false⟩ fun _ => plain) (fun _ _ => true)
    (fun s e _ => by
      cases e
      case go => exact fun _ _ => ⟨rfl, rfl⟩
      all_goals trivial)
    (initial_accepted _ _) pausedRun
      (fun s => decide (s.sent = [⟨0, .KafkaDispatcher, some 30, some true⟩])) (by decide)
  exact ⟨s, (overrides_kept hr).1, of_decide_eq_true htest⟩

-- A run in the manager's own process goes on over Kafka once it has been paused and resumed.
theorem mode_lost :
    ¬∀ (cfg : Config) (request : RunPipelineRequest) (process : Process) (s : RunState),
    Reach (RunState.step cfg fun _ => process) (RunState.Initial request fun _ => process)
      (fun _ _ => True) s →
      Kept request (fun _ => process) s := by
  intro hkept
  obtain ⟨s, hr, -, htest⟩ := Reach.replay (RunState.step Config.defaults fun _ => plain)
    (RunState.Initial ⟨none, some "local", none⟩ fun _ => plain) (fun _ _ => True) (fun _ _ => true)
    (fun _ _ _ => trivial) (initial_accepted _ _) pausedRun
    (fun s => decide (s.sent = [⟨0, .KafkaDispatcher, some 100, some false⟩])) (by decide)
  have hsent := hkept Config.defaults ⟨none, some "local", none⟩ plain s hr
  rw [Kept, of_decide_eq_true htest, List.forall_mem_singleton] at hsent
  exact absurd hsent.1 (by decide)

end Interrupted

end Reflowfy.RunSettings
