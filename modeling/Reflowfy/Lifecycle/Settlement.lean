import Reflowfy.Lifecycle.Retry

namespace Reflowfy.Manager

open Interleaving

def AllSucceeded (jobs : List Job) : Prop := ∀ job ∈ jobs, job.state.succeeded = true

-- The job whose outcome a task is about to report.
def reports : Proc → Choice → Option JobId
  | .deliver job_id (.live _), .result _ => some job_id
  | .drive _ (.execute_job _ batch (.live _)), .result _ => batch.jobs.head?
  | .drive _ (.on_unsendable _ batch _), .ok => batch.jobs.head?
  | _, _ => none

-- An outcome is reported of an unfinished job only: nothing but a retry changes the
-- state of a finished one.
def lands (s : Manager) : Event → Bool
  | .go i choice => s.store.jobs.all fun job =>
      job.state.unfinished || reports (s.procs i) choice != some job.job_id
  | _ => true

-- A retry is called only while the execution is settled.
def retriesSettled (s : Manager) : Event → Bool
  | .start _ (.retry _) => s.store.execution.all (·.state.terminal)
  | .go i _ => match s.procs i with
      | .retry (.load _) | .retry (.requeue _) => s.store.execution.all (·.state.terminal)
      | _ => true
  | _ => true

structure Settled (cfg : Config) (s s' : Manager) : Prop where
  dispatched : ∀ job ∈ s.store.jobs, job.state = .dispatched → job.dispatched_at.isSome
  -- once both leases have passed, one sweep takes an unfinished job back or fails it
  reclaimed : ∀ job ∈ s.store.jobs, job.state.unfinished = true → ∀ now,
    job.updated_at < now - cfg.JOB_RUNNING_LEASE_SECONDS →
    (∀ at_, job.dispatched_at = some at_ → at_ < now - cfg.JOB_DISPATCH_LEASE_SECONDS) →
    (job.reclaim_expired_leases cfg now).state = .pending ∨
      (job.reclaim_expired_leases cfg now).state = .failed
  -- an execution becomes 'completed' with a complete plan all of whose jobs succeeded
  completed : ∀ row row', s.store.execution = some row → s'.store.execution = some row' →
    row.state ≠ .completed → row'.state = .completed →
    row'.plan_complete ≠ some false ∧ AllSucceeded s'.store.jobs

def SettlementKept (cfg : Config) (Ok : Manager → Event → Prop) : Prop :=
  ∀ s e s', Reach (step cfg) Initial Ok s → Ok s e → step cfg s e = some s' → Settled cfg s s'

variable {cfg : Config} {s s' : Manager} {e : Event}

section Counts

theorem countP_succeeded (jobs : List Job) : jobs.countP (·.state.succeeded) =
    jobs.countP (·.state = .completed) + jobs.countP (·.state = .deduplicated) := by
  induction jobs with
  | nil => rfl
  | cons job jobs ih =>
      simp only [List.countP_cons, ih]
      cases job.state <;> simp [JobState.succeeded] <;> omega

theorem allSucceeded_of_counts {jobs : List Job} {total : ℕ} (htotal : jobs.length ≤ total)
    (hfailed : (get_job_counts jobs).failed = 0)
    (hfinished : (get_job_counts jobs).finished = total) :
    AllSucceeded jobs := by
  have hle : jobs.countP (·.state.succeeded) ≤ jobs.length := List.countP_le_length
  have hlength : jobs.countP (·.state.succeeded) = jobs.length := by
    simp only [JobCounts.finished, get_job_counts] at hfailed hfinished
    have := countP_succeeded jobs
    omega
  exact List.countP_eq_length.mp hlength

theorem noFailed_of_counts {jobs : List Job} (h : (get_job_counts jobs).failed = 0) :
    ∀ job ∈ jobs, job.state ≠ .failed := by
  simpa [get_job_counts, List.countP_eq_zero] using h

theorem counts_of_noFailed {jobs : List Job} (h : ∀ job ∈ jobs, job.state ≠ .failed) :
    (get_job_counts jobs).failed = 0 := by
  simpa [get_job_counts, List.countP_eq_zero] using h

theorem completed_of_finalState {total finished failed : ℕ}
    (h : finalState total finished failed = .completed) : finished = total ∧ failed = 0 := by
  unfold finalState at h
  split at h
  · split at h
    · exact ⟨‹_›, ‹_›⟩
    · cases h
  · cases h

end Counts

section Shape

theorem onJob_dispatched {now : Int} {stmt : Stmt} {job : Job}
    (h : (stmt.onJob cfg now job).state = .dispatched)
    (hjob : job.state = .dispatched → job.dispatched_at.isSome) :
    (stmt.onJob cfg now job).dispatched_at.isSome := by
  cases stmt <;> simp only [Stmt.onJob] at h ⊢
  case job job_id jobStmt =>
    split
    · rename_i hid
      rw [if_pos hid] at h
      exact JobStmt.set_dispatched h hjob
    · rename_i hid
      rw [if_neg hid] at h
      exact hjob h
  case cancel_unstarted_jobs =>
    unfold Job.cancel_unstarted_jobs at h ⊢
    split
    · rename_i hunstarted
      simp [hunstarted] at h
    · rename_i hunstarted
      rw [if_neg hunstarted] at h
      exact hjob h
  case requeue_failed error_contains =>
    unfold Job.requeue_failed at h ⊢
    split
    · rename_i hretryable
      simp [hretryable] at h
    · rename_i hretryable
      rw [if_neg hretryable] at h
      exact hjob h
  case requeue_orphans =>
    unfold Job.requeueOrphan at h ⊢
    split
    · rename_i horphan
      simp [horphan] at h
    · rename_i horphan
      rw [if_neg horphan] at h
      exact hjob h
  case reclaim_expired_leases sweep =>
    rcases Job.reclaim_cases cfg sweep job with ⟨-, -, hf⟩ | ⟨-, -, hp⟩ | ⟨-, hp⟩ | ⟨-, -, hsame⟩
    · rw [hf] at h
      cases h
    · rw [hp] at h
      cases h
    · rw [hp] at h
      cases h
    · rw [hsame] at h ⊢
      exact hjob h
  all_goals exact hjob h

theorem reclaimed {job : Job} {now : Int} (hunfinished : job.state.unfinished = true)
    (hdispatched : job.state = .dispatched → job.dispatched_at.isSome)
    (hrunning : job.updated_at < now - cfg.JOB_RUNNING_LEASE_SECONDS)
    (hlease : ∀ at_, job.dispatched_at = some at_ → at_ < now - cfg.JOB_DISPATCH_LEASE_SECONDS) :
    (job.reclaim_expired_leases cfg now).state = .pending ∨
      (job.reclaim_expired_leases cfg now).state = .failed := by
  rcases Job.reclaim_cases cfg now job with ⟨-, -, hf⟩ | ⟨-, -, hp⟩ | ⟨-, hp⟩ | ⟨hnotRunning,
    hnotDispatched, hsame⟩
  · exact .inr hf
  · exact .inl hp
  · exact .inl hp
  · rw [hsame]
    cases hstate : job.state with
    | pending => exact .inl rfl
    | dispatched =>
        obtain ⟨at_, hat⟩ := Option.isSome_iff_exists.mp (hdispatched hstate)
        have hpast := hlease at_ hat
        simp [Job.staleDispatched, hstate, hat] at hnotDispatched
        omega
    | running =>
        simp [Job.staleRunning, hstate] at hnotRunning
        omega
    | _ =>
        rw [hstate] at hunfinished
        cases hunfinished

def Shaped (store : Store) : Prop := ∀ job ∈ store.jobs, job.state = .dispatched →
    job.dispatched_at.isSome

theorem shaped_run {store : Store} {stmt : Stmt} (h : Shaped store) :
    Shaped (stmt.run cfg store) := by
  intro job' hjob' hstate
  rcases Stmt.mem_run_jobs hjob' with ⟨job, hjob, rfl⟩ | ⟨-, hnew⟩
  · exact onJob_dispatched hstate (h job hjob)
  · cases stmt <;> simp only [Stmt.created, List.not_mem_nil] at hnew
    case create_jobs rows =>
      obtain ⟨⟨job_id, batch⟩, -, rfl⟩ := List.mem_map.mp hnew
      cases hstate

theorem shaped_reach {Ok : Manager → Event → Prop} (hr : Reach (step cfg) Initial Ok s) :
    Shaped s.store := by
  refine hr.invariant (I := fun s => Shaped s.store) (fun s hs => ?_) fun s e s' _ h _ hs => ?_
  · rcases hs with ⟨-, hjobs, -⟩ | ⟨-, hjobs, -⟩
    · intro job hjob
      rw [hjobs] at hjob
      cases hjob
    · exact hjobs
  · rcases step_store hs with ⟨now, -, hstore⟩ | ⟨i, choice, stmt, -, -, hstore⟩ <;> rw [hstore]
    · exact h
    · exact shaped_run h

end Shape

section Settling

-- Jobs that have kept their states; some may have been deleted.
def Shrunk (jobs jobs' : List Job) : Prop :=
  jobs'.length ≤ jobs.length ∧ ∀ job' ∈ jobs', ∃ job ∈ jobs, job'.state = job.state

-- What a settling task knows of the jobs: how many there were, and what it takes to
-- have them all succeeded.
def SettleInv (store : Store) (_ : TaskId) : Proc → Prop
  | .drive _ (.settle_sync _ total) => store.jobs.length ≤ total
  | .settle _ total fallback pc => store.jobs.length ≤ total ∧
      (fallbackState total fallback = .completed → AllSucceeded store.jobs) ∧
      match pc with
      | .sync => True
      | .counts failed => failed = 0 → ∀ job ∈ store.jobs, job.state ≠ .failed
      | .load final | .store final _ => final = .completed → AllSucceeded store.jobs
  | _ => True

theorem settleInv_of_not {store : Store} {i : TaskId} {p : Proc} (h : ¬Settles p) :
    SettleInv store i p := by
  cases p
  case drive task pc =>
    cases pc
    case settle_sync => exact absurd trivial h
    all_goals trivial
  case settle => exact absurd trivial h
  all_goals trivial

theorem allSucceeded_shrunk {jobs jobs' : List Job} (h : Shrunk jobs jobs')
    (hall : AllSucceeded jobs) :
    AllSucceeded jobs' := by
  intro job' hjob'
  obtain ⟨job, hjob, hstate⟩ := h.2 job' hjob'
  rw [hstate]
  exact hall job hjob

theorem settleInv_shrunk {store store' : Store} {i : TaskId} {p : Proc}
    (hshrunk : Shrunk store.jobs store'.jobs) (h : SettleInv store i p) : SettleInv store' i p := by
  cases p
  case drive task pc =>
    cases pc
    case settle_sync => exact Nat.le_trans hshrunk.1 h
    all_goals trivial
  case settle settler total fallback pc =>
    obtain ⟨hlength, hfallback, hpc⟩ := h
    refine ⟨Nat.le_trans hshrunk.1 hlength, fun hf => allSucceeded_shrunk hshrunk
      (hfallback hf), ?_⟩
    cases pc
    case sync => trivial
    case counts failed =>
      intro hfailed job' hjob'
      obtain ⟨job, hjob, hstate⟩ := hshrunk.2 job' hjob'
      rw [hstate]
      exact hpc hfailed job hjob
    all_goals exact fun hf => allSucceeded_shrunk hshrunk (hpc hf)
  all_goals trivial

theorem reports_of_goes {i : TaskId} {store : Store} {p p' : Proc}
    {choice : Choice} {job_id : JobId}
    {jobStmt : JobStmt} (h : Goes cfg i store p choice (.job job_id jobStmt) p')
    (hreports : reports p choice ≠ some job_id) :
    (∀ stats, jobStmt ≠ .update_job_in_db stats) ∧
    ∀ reason, jobStmt ≠ .update_job_state_failed reason := by
  cases h
  case on_sent => exact ⟨by simp, by simp⟩
  case on_unsendable hjob => exact absurd hjob hreports
  case execute_job ha hjob =>
    rcases DeliveryPc.act_stmt ha with ⟨at_, stats, rfl, rfl, -⟩ | hnone
    · exact absurd hjob hreports
    · exact hnone
  case deliver ha =>
    rcases DeliveryPc.act_stmt ha with ⟨at_, stats, rfl, rfl, -⟩ | hnone
    · exact absurd rfl hreports
    · exact hnone

theorem shrunk_run {store : Store} {stmt : Stmt}
    (hstate : ∀ job ∈ store.jobs, (stmt.onJob cfg store.clock job).state = job.state)
    (hcreates : store.execution.isSome → ∀ rows, stmt ≠ .create_jobs rows) :
    Shrunk store.jobs (stmt.run cfg store).jobs := by
  refine ⟨?_, fun job' hjob' => ?_⟩
  · by_cases hpurge : ∃ cutoff doomed, stmt = .purge_executions cutoff doomed
    · obtain ⟨cutoff, doomed, rfl⟩ := hpurge
      simp only [Stmt.run, Stmt.purge]
      split
      · split
        · exact Nat.zero_le _
        · exact Nat.le_refl _
      · exact List.length_filter_le _ _
    · rw [Stmt.run_jobs cfg store fun cutoff doomed hp => hpurge ⟨cutoff, doomed, hp⟩]
      split
      · simp [Stmt.created_of_ne (hcreates ‹_›)]
      · simp
  · rcases Stmt.mem_run_jobs hjob' with ⟨job, hjob, rfl⟩ | ⟨hsome, hnew⟩
    · exact ⟨job, hjob, hstate job hjob⟩
    · rw [Stmt.created_of_ne (hcreates hsome)] at hnew
      cases hnew

theorem fallback_allSucceeded {jobs : List Job} {total : ℕ} (htotal : jobs.length ≤ total)
    (h : fallbackState total (get_job_counts jobs).totals = .completed) : AllSucceeded jobs := by
  obtain ⟨hfinished, hfailed⟩ := completed_of_finalState h
  refine allSucceeded_of_counts htotal hfailed ?_
  simp only [JobCounts.totals, JobCounts.finished] at hfinished ⊢
  omega

-- A settling task's own step.
theorem settleInv_goes {i : TaskId} {store : Store} {p p' : Proc} {choice : Choice} {stmt : Stmt}
    (h : Goes cfg i store p choice stmt p') (hp : SettleInv store i p)
    (hshrunk : Settles p' → Shrunk store.jobs (stmt.run cfg store).jobs) :
    SettleInv (stmt.run cfg store) i p' := by
  suffices hkeep : SettleInv store i p' by
    by_cases hsettles : Settles p'
    · exact settleInv_shrunk (hshrunk hsettles) hkeep
    · exact settleInv_of_not hsettles
  cases h
  case counts_settle => exact Nat.le_refl _
  case settle_sync total => exact ⟨hp, fallback_allSucceeded hp, trivial⟩
  case resume_settle =>
    refine ⟨Nat.le_refl _, fun hf job hjob => ?_, trivial⟩
    have hnone := (completed_of_finalState hf).1
    rw [List.eq_nil_of_length_eq_zero hnone.symm] at hjob
    cases hjob
  case settle_failed => exact ⟨hp.1, hp.2.1, noFailed_of_counts⟩
  case settle_counts =>
    obtain ⟨htotal, hfallback, hnone⟩ := hp
    refine ⟨htotal, hfallback, fun hf => ?_⟩
    obtain ⟨hfinished, hfailed⟩ := completed_of_finalState hf
    exact allSucceeded_of_counts htotal (counts_of_noFailed (hnone hfailed)) hfinished
  case settle_load => exact hp
  case settle_fallback => exact ⟨hp.1, hp.2.1, hp.2.1⟩
  case plan_beat => exact hp
  all_goals trivial

-- No retry lands on a settling task, and what is reported lands on unfinished jobs.
def Steady (s : Manager) (e : Event) : Prop := lands s e = true ∧ Apart s e

theorem shrunk_go {i j : TaskId} {choice : Choice} {stmt : Stmt} {p : Proc}
    (hr : Reach (step cfg) Initial Steady s)
    (hok : Steady s (.go i choice)) (hgoes : Goes cfg i s.store (s.procs i) choice stmt p)
    (hj : Settles (s.procs j)) : Shrunk s.store.jobs (stmt.run cfg s.store).jobs := by
  have hapart : Reach (step cfg) Initial Apart s := hr.mono (fun _ h => h) fun _ _ h => h.2
  have hdrained := settling_drained hapart j hj
  obtain ⟨hretry, hcreates⟩ := settling_stmt (phase_reach hr).2 hok.2 hgoes hj
  refine shrunk_run (fun job hjob => Stmt.onJob_settled (hdrained job hjob) hretry
    fun jobStmt hstmt => ?_) hcreates
  subst hstmt
  refine reports_of_goes hgoes ?_
  have hlands := List.all_eq_true.mp hok.1 job hjob
  simpa [hdrained job hjob] using hlands

theorem settle_preserved (cfg : Config) :
    Preserved cfg Initial Steady (fun _ => True) SettleInv where
  init s hs := by
    refine ⟨trivial, fun i => ?_⟩
    rcases hs.proc i with hp | ⟨-, hp⟩ <;> rw [hp] <;> trivial
  tick _ _ _ _ _ := ⟨trivial, fun _ hj => hj⟩
  start _ _ _ _ _ _ hp := by
    rcases Entry.cases hp with ⟨r, rfl⟩ | ⟨_, rfl⟩ | rfl | ⟨_, -, rfl⟩ | ⟨_, rfl⟩ <;> trivial
  crash _ _ := trivial
  go s i choice stmt p hr hs hok hgoes := by
    refine ⟨trivial, settleInv_goes hgoes (hs.2 i) fun hsettles => ?_, fun j _ hj => ?_⟩
    · rcases settles_goes hgoes hsettles with hbefore | ⟨rfl, -⟩
      · exact shrunk_go hr hok hgoes hbefore
      · exact shrunk_run (fun _ _ => rfl) (by simp)
    · by_cases hsettles : Settles (s.procs j)
      · exact settleInv_shrunk (shrunk_go hr hok hgoes hsettles) hj
      · exact settleInv_of_not hsettles

theorem settle_of_completes {p : Proc} {seen : Execution}
    (hw : p.writes = some (seen, .completed)) :
    ∃ settler total fallback, p = .settle settler total fallback (.store .completed seen) := by
  unfold Proc.writes at hw
  split at hw <;> simp only [Option.some.injEq, Prod.mk.injEq, reduceCtorEq, and_false] at hw
  case h_3 settler total fallback final seen =>
    obtain ⟨rfl, rfl⟩ := hw
    exact ⟨settler, total, fallback, rfl⟩
  case h_6 r _ =>
    obtain ⟨-, htarget⟩ := hw
    cases r <;> cases htarget

end Settling

theorem settled_step (hr : Reach (step cfg) Initial Steady s) (hok : Steady s e)
    (hs : step cfg s e = some s') :
    Settled cfg s s' where
  dispatched := shaped_reach hr
  reclaimed job hjob hunfinished _ hrunning hlease :=
    Manager.reclaimed hunfinished (shaped_reach hr job hjob) hrunning hlease
  completed row row' hrow hrow' hbefore hafter := by
    have hr' := hr.step hok hs
    rcases step_state hs hrow hrow' with hsame | ⟨i, choice, seen, target, rfl, hw, -, htarget⟩
    · rw [hsame] at hafter
      exact absurd hafter hbefore
    · rw [hafter] at htarget
      subst htarget
      obtain ⟨settler, total, fallback, hp⟩ := settle_of_completes hw
      have hinv := ((settle_preserved cfg).reach hr).2 i
      have hplanned := (phase_reach hr).2 i
      rw [hp] at hinv hplanned
      have hsettles : Settles (s.procs i) := by rw [hp]; trivial
      obtain ⟨stmt, p, hgoes, rfl⟩ := step_goes hs
      exact ⟨planned_run hplanned row' hrow',
        allSucceeded_shrunk (shrunk_go hr hok hgoes hsettles) (hinv.2.2 rfl)⟩

theorem settlement_kept (cfg : Config) : SettlementKept cfg Steady :=
  fun _ _ _ hr hok hs => settled_step hr hok hs

def steady (s : Manager) (e : Event) : Bool := lands s e && calm s e

theorem of_steady (h : steady s e = true) : Steady s e :=
  ⟨(Bool.and_eq_true_iff.mp h).1, apart_of_calm (Bool.and_eq_true_iff.mp h).2⟩

-- The loop has settled the execution as failed, and a retry requeues its job and reopens it.
-- The message, delivered again, completes the job, and the loop of the resume the execution.
theorem settlement_kept_retried : ∃ s s', Reach (step Config.defaults) Initial Steady s ∧
    Steady s (.go 2 .ok) ∧
    step Config.defaults s (.go 2 .ok) = some s' ∧
      s.store.execution.any (·.state == .running) = true ∧
    s'.store.execution.any (·.state == .completed) = true := by
  let es : List Event := List.replicate 22 (.go 2 .ok) ++
    [.start 3 (.deliver 0), .go 3 .ok, .go 3 (.result ⟨false, true, 0, none, none⟩)] ++
      List.replicate 5 (.go 2 .ok)
  obtain ⟨s₀, hr, hreplay, htest⟩ := Reach.replay (step Config.defaults) Initial Steady steady
    (fun _ _ => of_steady)
    (.inl (fresh_created 0))
      (countedRun ++ List.replicate 6 (.go 0 .ok) ++ [.start 2 (.retry none), .go 2 .ok])
    (fun s => decide (Below 3 (¬Settles ·) s) && lands s (.go 2 .ok) &&
        (step Config.defaults s (.go 2 .ok)).any fun s₁ =>
      (replay (step Config.defaults) steady s₁ es).any fun s => steady s (.go 2 .ok) &&
        s.store.execution.any (·.state == .running) && (step Config.defaults s (.go 2 .ok)).any
          fun s' => s'.store.execution.any (·.state == .completed)) (by decide)
  simp only [Bool.and_eq_true, decide_eq_true_eq, Option.any_eq_true _ (step _ _ _)] at htest
  obtain ⟨⟨hbelow, hlands⟩, s₁, hs₁, hafter⟩ := htest
  obtain ⟨s, hpath, -, htest⟩ := Path.replay (step Config.defaults) Steady steady
    (fun _ _ => of_steady) es _ hafter
  simp only [Bool.and_eq_true, Option.any_eq_true _ (step _ _ _)] at htest
  obtain ⟨⟨hsteady, hrunning⟩, s', hs, hcompleted⟩ := htest
  have hretry : Steady s₀ (.go 2 .ok) :=
    ⟨hlands, apart_of_below 3 (by decide) hreplay hbelow (by decide)⟩
  exact ⟨s, s', (hr.step hretry hs₁).path hpath, of_steady hsteady, hs, hrunning, hcompleted⟩

-- The loop stands between its two counts, of which the first still found the failed job
-- and the second is to come; a cancel lands, a retry requeues the job and reopens the
-- execution. The loop reads that nothing has failed, a second delivery of the message
-- fails the job again, and the loop counts as many finished jobs as there are.
theorem settlement_completes_failed : ¬SettlementKept Config.defaults fun s e =>
    lands s e = true ∧ retriesSettled s e = true := by
  intro hkept
  obtain ⟨s, hr, -, htest⟩ := Reach.replay (step Config.defaults) Initial
    (fun s e => lands s e = true ∧ retriesSettled s e = true)
      (fun s e => lands s e && retriesSettled s e)
    (fun _ _ h => Bool.and_eq_true_iff.mp h) (.inl (fresh_created 0))
    (countedRun ++ [.go 0 .ok, .start 2 (.request .cancel), .go 2 .ok, .go 2 .ok, .go 2 .ok,
      .start 3 (.retry none), .go 3 .ok, .go 3 .ok, .go 3 .ok, .go 3 .ok, .go 0 .ok,
      .start 4 (.deliver 0), .go 4 .ok, .go 4 (.result ⟨false, false, 0, none, none⟩),
        .go 0 .ok, .go 0 .ok])
    (fun s => lands s (.go 0 .ok) && retriesSettled s (.go 0 .ok) &&
      s.store.execution.any (·.state == .running) &&
          (step Config.defaults s (.go 0 .ok)).any fun s' =>
        s'.store.execution.any (·.state == .completed) &&
          s'.store.jobs.any (·.state == .failed)) (by decide)
  simp only [Bool.and_eq_true, Option.any_eq_true, List.any_eq_true, beq_iff_eq] at htest
  obtain ⟨⟨hok, row, hrow, hrunning⟩, s', hs, ⟨row', hrow', hcompleted⟩, job,
    hjob, hfailed⟩ := htest
  have hall := ((hkept s _ s' hr hok hs).completed row row' hrow hrow' (by simp [hrunning])
    hcompleted).2 job hjob
  rw [hfailed] at hall
  cases hall

end Reflowfy.Manager
