import Reflowfy.Models

namespace Reflowfy

namespace Job

-- One row of `create_jobs`.
def create_job (job_id : JobId) (batch_number : ℕ) (now : Int) : Job where
  job_id := job_id
  batch_number := batch_number
  state := .pending
  attempts := 0
  processed_records := 0
  error_message := none
  error_traceback := none
  stats := none
  created_at := now
  updated_at := now
  dispatched_at := none
  completed_at := none

-- The first UPDATE sets `dispatched_at` whatever the state, and with it `updated_at`,
-- which has an `onupdate` default; only a pending job becomes dispatched.
def mark_job_dispatched (now : Int) (job : Job) : Job :=
  let sent := { job with dispatched_at := some now, updated_at := now }
  if sent.state = .pending then { sent with state := .dispatched } else sent

def cancel_unstarted_jobs (now : Int) (job : Job) : Job :=
  if job.state.unstarted then
    { job with state := .cancelled, completed_at := some now, updated_at := now }
  else job

-- WHERE state = 'failed' [AND error_message LIKE '%' || :text || '%'].
def retryable (like : String → String → Bool) (error_contains : Option String) (job : Job) : Bool :=
  job.state == .failed &&
    match error_contains with
    | some text => text == "" || job.error_message.any (like text)
    | none => true

def requeue_failed (like : String → String → Bool) (error_contains : Option String) (now : Int)
    (job : Job) : Job :=
  if job.retryable like error_contains then
    { job with
      state := .pending
      attempts := 0
      error_message := none
      error_traceback := none
      completed_at := none
      stats := none
      updated_at := now }
  else job

-- `f"{seconds:.0f}"`: rounded to whole seconds, halves to the even one.
def wholeSeconds (duration : Int) : Int :=
  let whole := duration / second
  let rest := 2 * (duration % second)
  if rest < second ∨ (rest = second ∧ whole % 2 = 0) then whole else whole + 1

def lostMessage (lease_seconds : Int) (attempts : ℕ) : String :=
  "Worker lost: no result within " ++ toString (wholeSeconds lease_seconds) ++ "s, " ++
    toString attempts ++ " attempt(s)"

-- WHERE state = 'running' AND updated_at < now - running lease.
def staleRunning (cfg : Config) (now : Int) (job : Job) : Bool :=
  job.state == .running && job.updated_at < now - cfg.JOB_RUNNING_LEASE_SECONDS

-- WHERE state = 'dispatched' AND dispatched_at < now - dispatch lease.
def staleDispatched (cfg : Config) (now : Int) (job : Job) : Bool :=
  job.state == .dispatched &&
    job.dispatched_at.any (· < now - cfg.JOB_DISPATCH_LEASE_SECONDS)

def failOutOfAttempts (cfg : Config) (now : Int) (job : Job) : Job :=
  if job.staleRunning cfg now && cfg.JOB_MAX_ATTEMPTS ≤ job.attempts then
    { job with
      state := .failed
      error_message := some (lostMessage cfg.JOB_RUNNING_LEASE_SECONDS cfg.JOB_MAX_ATTEMPTS)
      completed_at := some now
      updated_at := now }
  else job

def requeueRunning (cfg : Config) (now : Int) (job : Job) : Job :=
  if job.staleRunning cfg now then { job with state := .pending, updated_at := now } else job

def requeueDispatched (cfg : Config) (now : Int) (job : Job) : Job :=
  if job.staleDispatched cfg now then { job with state := .pending, updated_at := now } else job

-- The three UPDATEs of one sweep, in order; they commit together.
def reclaim_expired_leases (cfg : Config) (now : Int) (job : Job) : Job :=
  ((job.failOutOfAttempts cfg now).requeueRunning cfg now).requeueDispatched cfg now

-- `update_job_state(job_id, "failed", error_message=reason)`, as `on_unsendable` calls it.
def update_job_state_failed (reason : String) (now : Int) (job : Job) : Job :=
  { job with
    state := .failed
    updated_at := now
    completed_at := some now
    error_message := if reason = "" then job.error_message else some reason }

-- The local-mode UPDATE of `resume_execution`; `updated_at` follows by `onupdate`.
def requeueOrphan (now : Int) (job : Job) : Job :=
  if job.state = .dispatched ∨ job.state = .running then
    { job with state := .pending, updated_at := now }
  else job

-- WHERE state IN ('pending', 'dispatched').
def claim_job (now : Int) (job : Job) : Job :=
  if job.state.unstarted then
    { job with state := .running, attempts := job.attempts + 1, updated_at := now }
  else job

def heartbeat_job (now : Int) (job : Job) : Job :=
  if job.state = .running then { job with updated_at := now } else job

end Job

def JobStats.state (stats : JobStats) : JobState :=
  if stats.deduplicated then .deduplicated else if stats.success then .completed else .failed

-- `_update_job_in_db`: WHERE job_id = :id, and nothing else.
def Job.update_job_in_db (stats : JobStats) (now : Int) (job : Job) : Job :=
  { job with
    state := stats.state
    updated_at := now
    completed_at := some now
    processed_records := stats.records_output
    stats := some stats
    error_message := match stats.error with
      | some text => if text = "" then job.error_message else some text
      | none => job.error_message
    error_traceback := match stats.error_traceback with
      | some text => if text = "" then job.error_traceback else some text
      | none => job.error_traceback }

structure JobCounts where
  total : ℕ
  pending : ℕ
  dispatched : ℕ
  running : ℕ
  completed : ℕ
  failed : ℕ
  deduplicated : ℕ
  cancelled : ℕ
  deriving DecidableEq, Repr

def get_job_counts (jobs : List Job) : JobCounts where
  total := jobs.length
  pending := jobs.countP (·.state = .pending)
  dispatched := jobs.countP (·.state = .dispatched)
  running := jobs.countP (·.state = .running)
  completed := jobs.countP (·.state = .completed)
  failed := jobs.countP (·.state = .failed)
  deduplicated := jobs.countP (·.state = .deduplicated)
  cancelled := jobs.countP (·.state = .cancelled)

-- `_finished_count`.
def JobCounts.finished (counts : JobCounts) : ℕ :=
  counts.completed + counts.failed + counts.deduplicated

-- Rows stand in plan order, which is ORDER BY batch_number, created_at.
def get_pending_jobs (limit : ℕ) (jobs : List Job) : List JobId :=
  ((jobs.filter (·.state = .pending)).take limit).map (·.job_id)

end Reflowfy
