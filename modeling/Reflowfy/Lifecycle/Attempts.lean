import Reflowfy.Lifecycle.States
import Reflowfy.Manager.Jobs
import Reflowfy.Worker.Attempts

namespace Reflowfy

namespace Stmt

def claims (job_id : JobId) : Stmt → Bool
  | job id .claim_job => id == job_id
  | _ => false

def retries : Stmt → Bool
  | requeue_failed _ => true
  | _ => false

variable {cfg : Config} {s : Store}

theorem onJob_attempts (stmt : Stmt) (now : Int) (job : Job) (hretry : stmt.retries = false) :
    (stmt.onJob cfg now job).attempts =
      if stmt.claims job.job_id = true ∧ job.state.unstarted = true then job.attempts + 1
      else job.attempts := by
  cases stmt <;> simp only [onJob, claims, Bool.false_eq_true, false_and, if_false]
  case job job_id stmt =>
    by_cases hid : job.job_id = job_id
    · subst hid
      rw [if_pos rfl, JobStmt.set_attempts]
      cases stmt <;> simp
    · rw [if_neg hid]
      cases stmt <;> simp [Ne.symm hid]
  case requeue_failed => cases hretry
  all_goals simp

-- The one statement that puts a started job back without a look at its attempts is the
-- requeue of a local resume.
theorem withinAttempts_onJob (stmt : Stmt) (now : Int) {job : Job} (hmax : 0 < cfg.JOB_MAX_ATTEMPTS)
    (h : job.WithinAttempts cfg)
    (horphan : stmt = .requeue_orphans → job.state = .running →
      job.attempts < cfg.JOB_MAX_ATTEMPTS) :
    (stmt.onJob cfg now job).WithinAttempts cfg := by
  cases stmt <;> simp only [onJob]
  case job job_id stmt =>
    split
    · exact stmt.withinAttempts_set now h
    · exact h
  case cancel_unstarted_jobs =>
    refine ⟨by simpa using h.1, fun hset => ?_⟩
    rw [Job.cancel_unstarted_jobs_state] at hset
    split at hset
    · cases hset
    · simpa using h.2 hset
  case requeue_failed error_contains =>
    rw [Job.WithinAttempts, Job.requeue_failed_attempts, Job.requeue_failed_state]
    split
    · exact ⟨Nat.zero_le _, fun _ => hmax⟩
    · exact h
  case requeue_orphans =>
    rw [Job.WithinAttempts, Job.requeueOrphan_attempts, Job.requeueOrphan_state]
    refine ⟨h.1, fun hset => ?_⟩
    split at hset
    · rename_i hstate
      rcases hstate with hdispatched | hrunning
      · exact h.2 (by rw [hdispatched]; rfl)
      · exact horphan rfl hrunning
    · exact h.2 hset
  case reclaim_expired_leases sweep =>
    refine ⟨by simpa using h.1, fun hset => ?_⟩
    rw [Job.reclaim_expired_leases_attempts]
    rcases Job.reclaim_cases cfg sweep job with
      ⟨-, -, hf⟩ | ⟨-, hleft, -⟩ | ⟨hstale, -⟩ | ⟨-, -, hsame⟩
    · rw [hf] at hset
      cases hset
    · exact hleft
    · exact h.2 (by rw [Job.dispatched_of_staleDispatched hstale]; rfl)
    · rw [hsame] at hset
      exact h.2 hset
  all_goals exact h

end Stmt

namespace Manager

open Interleaving

-- A claim of the job that succeeds.
def starts (cfg : Config) (job_id : JobId) (s : Manager) : Event → Bool
  | .go i choice =>
      (s.act cfg i choice).any (·.stmt.claims job_id) && (s.store.job job_id).any
        (·.state.unstarted)
  | _ => false

def retries (cfg : Config) (s : Manager) : Event → Bool
  | .go i choice => (s.act cfg i choice).any (·.stmt.retries)
  | _ => false

-- A later part of a run in which the job is started `n` times, no retry requeues failed
-- jobs, and the job's row is not deleted.
inductive Starts (cfg : Config) (Ok : Manager → Event → Prop) (job_id : JobId) (s : Manager) :
    Manager → ℕ → Prop
  | refl : Starts cfg Ok job_id s s 0
  | tail {m s' : Manager} {e : Event} {n : ℕ} (hp : Starts cfg Ok job_id s m n)
      (hrow : (m.store.job job_id).isSome) (hok : Ok m e) (hretry : retries cfg m e = false)
      (hs : step cfg m e = some s') :
      Starts cfg Ok job_id s s' (if starts cfg job_id m e then n + 1 else n)

-- A record that is new, or whose jobs an earlier process left within their attempts.
def WithinAttempts (cfg : Config) (s : Manager) : Prop :=
  ∀ job ∈ s.store.jobs, job.WithinAttempts cfg

structure AttemptsKept (cfg : Config) (Ok : Manager → Event → Prop) (s : Manager) : Prop where
  within : WithinAttempts cfg s
  started : ∀ s' job_id n, Starts cfg Ok job_id s s' n → n ≤ cfg.JOB_MAX_ATTEMPTS
  -- the sweep that finds a job's last attempt lost fails the job
  lost : ∀ s' i task track sweep, s.procs i = .drive task (.reclaim track sweep) →
    step cfg s (.go i .ok) = some s' → ∀ job ∈ s.store.jobs, job.staleRunning cfg sweep = true →
    cfg.JOB_MAX_ATTEMPTS ≤ job.attempts → ∃ job' ∈ s'.store.jobs, job'.job_id = job.job_id ∧
      job'.state = .failed

def AttemptsBounded (cfg : Config) (Ok : Manager → Event → Prop) : Prop :=
  ∀ s, Reach (step cfg) (fun s => Initial s ∧ WithinAttempts cfg s) Ok s → AttemptsKept cfg Ok s

-- A local resume puts no job back that is running for the last time it may be started.
def AttemptsLeft (cfg : Config) (s : Manager) : Event → Prop
  | .go i _ => s.procs i = .resume .orphans →
      ∀ job ∈ s.store.jobs, job.state = .running → job.attempts < cfg.JOB_MAX_ATTEMPTS
  | _ => True

variable {cfg : Config} {s s' : Manager} {e : Event}

theorem withinAttempts_go {i : TaskId} {choice : Choice} {stmt : Stmt} {p : Proc}
    (hmax : 0 < cfg.JOB_MAX_ATTEMPTS) (hleft : AttemptsLeft cfg s (.go i choice))
    (hgoes : Goes cfg i s.store (s.procs i) choice stmt p) (h : WithinAttempts cfg s) :
    ∀ job ∈ (stmt.run cfg s.store).jobs, job.WithinAttempts cfg := by
  intro job' hjob'
  rcases Stmt.mem_run_jobs hjob' with ⟨job, hjob, rfl⟩ | ⟨-, hnew⟩
  · refine stmt.withinAttempts_onJob _ hmax (h job hjob) fun horphan hrunning => ?_
    subst horphan
    refine hleft ?_ job hjob hrunning
    generalize s.procs i = p₀ at hgoes
    cases hgoes
    rfl
  · cases stmt
    case create_jobs rows =>
      obtain ⟨row, -, rfl⟩ := List.mem_map.mp hnew
      exact ⟨Nat.zero_le _, fun _ => hmax⟩
    all_goals cases hnew

theorem withinAttempts_step (hmax : 0 < cfg.JOB_MAX_ATTEMPTS) (hleft : AttemptsLeft cfg s e)
    (h : WithinAttempts cfg s) (hs : step cfg s e = some s') : WithinAttempts cfg s' := by
  rcases step_store hs with ⟨now, -, hstore⟩ | ⟨i, choice, stmt, rfl, hgoes, hstore⟩
  · rw [WithinAttempts, hstore]
    exact h
  · rw [WithinAttempts, hstore]
    exact withinAttempts_go hmax hleft hgoes h

theorem withinAttempts_reach (hmax : 0 < cfg.JOB_MAX_ATTEMPTS)
    (hr : Reach (step cfg) (fun s => Initial s ∧ WithinAttempts cfg s) (AttemptsLeft cfg) s) :
    WithinAttempts cfg s :=
  hr.invariant (fun _ h => h.2) fun _ _ _ _ h hok hs => withinAttempts_step hmax hok h hs

-- The row's count follows the starts.
theorem attempts_step {job_id : JobId} {row row' : Job} (hretry : retries cfg s e = false)
    (hs : step cfg s e = some s') (hrow : s.store.job job_id = some row)
    (hrow' : s'.store.job job_id = some row') :
    row'.attempts = if starts cfg job_id s e then row.attempts + 1 else row.attempts := by
  have hid : row.job_id = job_id := by simpa using List.find?_some hrow
  have hsame : s'.store.jobs = s.store.jobs → row' = row := fun hjobs => by
    rw [Store.job, hjobs] at hrow'
    exact Option.some.inj (hrow'.symm.trans hrow)
  cases e with
  | tick now =>
      obtain ⟨-, rfl⟩ := step_tick hs
      rw [hsame rfl]
      rfl
  | start i entry =>
      obtain ⟨-, p, -, rfl⟩ := step_start hs
      rw [hsame rfl]
      rfl
  | go i choice =>
      obtain ⟨a, ha, rfl⟩ := step_go hs
      simp only [retries, ha, Option.any_some] at hretry
      rw [Stmt.run_job hrow hrow', Stmt.onJob_attempts _ _ _ hretry]
      simp only [starts, ha, hrow, Option.any_some, hid, Bool.and_eq_true]
  | crash i =>
      cases hs
      rw [hsame rfl]
      rfl

theorem starts_row {Ok : Manager → Event → Prop} {job_id : JobId} {n : ℕ}
    (h : Starts cfg Ok job_id s s' n) :
    ∀ row, s'.store.job job_id = some row → n ≤ row.attempts := by
  induction h with
  | refl => exact fun _ _ => Nat.zero_le _
  | @tail m s' e n _ hrow _ hretry hs ih =>
      intro row' hrow'
      obtain ⟨row, hrow⟩ := Option.isSome_iff_exists.mp hrow
      rw [attempts_step hretry hs hrow hrow']
      have hn := ih row hrow
      split <;> omega

theorem starts_bounded {Ok : Manager → Event → Prop} {job_id : JobId} {n : ℕ}
    (hwithin : ∀ m k, Starts cfg Ok job_id s m k → WithinAttempts cfg m)
    (h : Starts cfg Ok job_id s s' n) :
    n ≤ cfg.JOB_MAX_ATTEMPTS := by
  cases h with
  | refl => exact Nat.zero_le _
  | @tail m _ e n hp hrow hok hretry hs =>
      obtain ⟨row, hrow⟩ := Option.isSome_iff_exists.mp hrow
      have hn := starts_row hp row hrow
      have hrow_within := hwithin m n hp row (List.mem_of_find?_eq_some hrow)
      split
      · rename_i hstart
        have hunstarted : row.state.unstarted = true := by
          cases e with
          | go i choice => simpa [starts, hrow] using (Bool.and_eq_true_iff.mp hstart).2
          | tick | start | crash => cases hstart
        exact Nat.lt_of_le_of_lt hn (hrow_within.2 hunstarted)
      · exact Nat.le_trans hn hrow_within.1

def localDefaults : Config := { Config.defaults with local_mode := true }

-- One job is planned, and the loop has just started it in its own process.
def localRun : List Event :=
  List.replicate 4 (.go 0 .ok) ++ [.go 0 .slice, .go 0 .ok, .go 0 .plan_end] ++
    List.replicate 15 (.go 0 .ok)

-- A minute after the manager died, the next one starts up and comes to the same job.
def restartedRun (i : TaskId) : List Event :=
  [.tick (61 * i * second), .start i .startup] ++ List.replicate 16 (.go i .ok)

def attemptsLeft (cfg : Config) (s : Manager) : Event → Bool
  | .go i _ => s.procs i != .resume .orphans ||
      s.store.jobs.all fun job => job.state != .running ||
        decide (job.attempts < cfg.JOB_MAX_ATTEMPTS)
  | _ => true

theorem of_attemptsLeft (h : attemptsLeft cfg s e = true) : AttemptsLeft cfg s e := by
  cases e with
  | go i choice =>
      intro hp job hjob hstate
      simp only [attemptsLeft, hp, bne_self_eq_false, Bool.false_or, List.all_eq_true] at h
      simpa [hstate] using h job hjob
  | tick | start | crash => trivial

theorem attempts_bounded (cfg : Config) (hmax : 0 < cfg.JOB_MAX_ATTEMPTS) :
    AttemptsBounded cfg (AttemptsLeft cfg) := by
  intro s hr
  refine ⟨withinAttempts_reach hmax hr, fun s' job_id n hstarts => ?_, ?_⟩
  · refine starts_bounded (fun m k hm => withinAttempts_reach hmax ?_) hstarts
    induction hm with
    | refl => exact hr
    | tail _ _ hok _ hs ih => exact ih.step hok hs
  · intro s' i task track sweep hp hs job hjob hstale hlast
    obtain ⟨stmt, p, hgoes, rfl⟩ := step_goes hs
    rw [hp] at hgoes
    cases hgoes
    refine ⟨job.reclaim_expired_leases cfg sweep, ?_, Job.reclaim_expired_leases_job_id .., ?_⟩
    · rw [Pool.set_store, Stmt.run_jobs cfg s.store (by simp)]
      exact List.mem_append_left _ (List.mem_map_of_mem hjob)
    · rcases Job.reclaim_cases cfg sweep job with
        ⟨-, -, hf⟩ | ⟨-, hleft, -⟩ | ⟨hdispatched, -⟩ | ⟨hfresh, -⟩
      · exact hf
      · omega
      · have hstate := Job.running_of_staleRunning hstale
        rw [Job.dispatched_of_staleDispatched hdispatched] at hstate
        cases hstate
      · rw [hstale] at hfresh
        cases hfresh

-- The default settings; and a run in which the job kills two managers, is put back by the
-- resumes that find it, and is started for the last time.
theorem attempts_bounded_defaults : AttemptsBounded Config.defaults (AttemptsLeft Config.defaults) ∧
    ∃ s : Manager, s.store.jobs.map (fun job => (job.state, job.attempts)) = [(.running, 3)] ∧
      AttemptsKept localDefaults (AttemptsLeft localDefaults) s := by
  refine ⟨attempts_bounded Config.defaults (by decide), ?_⟩
  have hinit : Initial (created 0) ∧ WithinAttempts localDefaults (created 0) :=
    ⟨.inl (fresh_created 0), fun job hjob => by cases hjob⟩
  obtain ⟨s, hr, -, htest⟩ := Reach.replay (step localDefaults)
    (fun s => Initial s ∧ WithinAttempts localDefaults s) (AttemptsLeft localDefaults)
      (attemptsLeft localDefaults)
    (fun _ _ => of_attemptsLeft) hinit
    (localRun ++ [.crash 0] ++ restartedRun 1 ++ [.crash 1] ++ restartedRun 2)
    (fun s => decide (s.store.jobs.map (fun job => (job.state, job.attempts)) = [(.running, 3)]))
      (by decide)
  exact ⟨s, of_decide_eq_true htest, attempts_bounded localDefaults (by decide) s hr⟩

-- The job kills three managers, and the fourth one starts it again.
theorem attempts_exceeded :
    ¬∀ cfg : Config, 0 < cfg.JOB_MAX_ATTEMPTS → AttemptsBounded cfg fun _ e =>
      e.succeeds = true := by
  intro hbounded
  have hinit : Initial (created 0) ∧ WithinAttempts localDefaults (created 0) :=
    ⟨.inl (fresh_created 0), fun job hjob => by cases hjob⟩
  obtain ⟨s, hr, -, htest⟩ := Reach.replay (step localDefaults)
    (fun s => Initial s ∧ WithinAttempts localDefaults s) (fun _ e => e.succeeds = true)
    (fun _ e => e.succeeds) (fun _ _ h => h) hinit
    (localRun ++ [.crash 0] ++ restartedRun 1 ++ [.crash 1] ++ restartedRun 2 ++
      [.crash 2] ++ restartedRun 3)
    (fun s => s.store.jobs.any (3 < ·.attempts)) (by decide)
  obtain ⟨job, hjob, hattempts⟩ := List.any_eq_true.mp htest
  have hwithin := ((hbounded localDefaults (by decide) s hr).within job hjob).1
  exact absurd (of_decide_eq_true hattempts) (Nat.not_lt.mpr hwithin)

end Manager

end Reflowfy
