import Reflowfy.Interleaving.Pool
import Reflowfy.Interleaving.RowLocks
import Reflowfy.Models
import Reflowfy.RuntimeParams
import Mathlib.Algebra.Group.Nat.Defs

namespace Reflowfy

open Interleaving

namespace DLQScheduler

inductive DLQStatus
  | pending | processing | completed | cancelled
  deriving DecidableEq, Repr

-- A row of `dlq_jobs` beside its id. An `execution_id` is given by the random part of it.
structure DLQJob where
  job_payload : Params
  pipeline_name : String
  scheduled_at : Int
  delay_minutes : Int
  status : DLQStatus
  retry_count : ℕ
  max_retries : ℕ
  error_message : Option String
  created_at : Int
  processed_at : Option Int
  execution_id : Option ℕ

-- A row of `dlq_jobs_archive` beside its id.
structure DLQJobArchive where
  job_payload : Params
  pipeline_name : String
  delay_minutes : Int
  retry_count : ℕ
  max_retries : ℕ
  error_message : Option String
  created_at : Int
  archived_at : Int

def minute : Int := 60 * second

-- The last microsecond of the year 9999.
def DATETIME_MAX : Int := 253402300799999999

-- `datetime + timedelta`, or OverflowError.
def add_minutes (t minutes : Int) : Option Int :=
  if t + minutes * minute ≤ DATETIME_MAX then some (t + minutes * minute) else none

def calculate_backoff (retry_count : ℕ) : ℕ := 5 * 2 ^ (retry_count - 1)

-- What an open transaction has made of a row it has locked.
inductive JobWrite
  | update (job : DLQJob)
  | archive (row : DLQJobArchive)

namespace DLQJob

def archive_job (job : DLQJob) (now : Int) : DLQJobArchive :=
  { job_payload := job.job_payload
    pipeline_name := job.pipeline_name
    delay_minutes := job.delay_minutes
    retry_count := job.retry_count
    max_retries := job.max_retries
    error_message := job.error_message
    created_at := job.created_at
    archived_at := now }

-- The row with its failure counted.
def count_failure (job : DLQJob) (error_msg : String) : DLQJob :=
  { job with retry_count := job.retry_count + 1, error_message := some error_msg }

-- `_handle_job_failure`, or the OverflowError of its backoff.
def handle_job_failure (job : DLQJob) (error_msg : String) (now : Int) : Option JobWrite :=
  let job := job.count_failure error_msg
  if job.retry_count ≥ job.max_retries then some (.archive (job.archive_job now))
  else (add_minutes now (calculate_backoff job.retry_count)).map fun scheduled_at =>
    .update { job with scheduled_at, status := .pending }

-- `_mark_completed` for one job.
def mark_completed (job : DLQJob) (execution_id : ℕ) (now : Int) : DLQJob :=
  { job with status := .completed, processed_at := some now, execution_id := some execution_id }

def cancel (job : DLQJob) : DLQJob := { job with status := .cancelled }

-- The UPDATE that a session emits for an instance of the row as it is by then.
def flush (loaded new current : DLQJob) : DLQJob :=
  { current with
    scheduled_at := updated loaded.scheduled_at new.scheduled_at current.scheduled_at
    status := updated loaded.status new.status current.status
    retry_count := updated loaded.retry_count new.retry_count current.retry_count
    error_message := updated loaded.error_message new.error_message current.error_message }

end DLQJob

section Grouping

variable {α κ : Type} [DecidableEq κ]

-- `groups.setdefault(key, []).append(job)`.
def append_to (key : κ) (job : α) : List (κ × List α) → List (κ × List α)
  | [] => [(key, [job])]
  | (key', jobs) :: groups =>
      if key' = key then (key', jobs ++ [job]) :: groups
      else (key', jobs) :: append_to key job groups

def group_by (key : α → κ) (jobs : List α) : List (List α) :=
  (jobs.foldl (fun groups job => append_to (key job) job groups) []).map Prod.snd

end Grouping

abbrev Jobs := List (JobId × DLQJob)
abbrev JobWrites := List (JobId × JobWrite)

-- How a call of `run_pipeline` ends. The last two can only follow on a manual dispatch of
-- one job: the commit that records it fails, or what is read for the log after it.
inductive DispatchOutcome
  | returned (execution_id : ℕ)
  | raised (error : String)
  | not_committed (execution_id : ℕ) (error : String)
  | not_logged (execution_id : ℕ) (error : String)
  deriving DecidableEq, Repr

-- Where a call stands.
inductive DlqPc
  | idle
  -- `_poll_and_process` and `process_pipeline_immediately`, before their SELECT
  | poll (now : Int)
  | pipeline (pipeline_name : String)
  -- their groups that are still to be dispatched, the one that is being dispatched, and
  -- what has become of the others
  | batch (groups : List Jobs) (done : JobWrites)
  | dispatch (group : Jobs) (groups : List Jobs) (done : JobWrites)
  -- `process_job_immediately`: the SELECT, `run_pipeline`, the reload after the rollback, and
  -- the commit of the failure
  | manual (job_id : JobId)
  | manual_dispatch (job_id : JobId) (job : DLQJob)
  | failed (job_id : JobId) (error_msg : String)
  | handled (job_id : JobId) (loaded : DLQJob) (write : JobWrite)
  -- `cancel_dlq_job`: the SELECT, and the commit for the pending job that it has loaded
  | cancel (job_id : JobId)
  | cancelling (job_id : JobId) (loaded : { job : DLQJob // job.status = .pending })

-- A call of `run_pipeline` that has returned.
structure Dispatched where
  execution_id : ℕ
  pipeline_name : String
  runtime_params : Params
  dlq_job_ids : List JobId

-- The two tables, and what the transactions have locked of the first. What follows is kept
-- for the statements about it and read by no step: the jobs whose failed manual dispatch
-- is still to be recorded, by whom; the jobs of the calls of `run_pipeline` that have been
-- made, that have failed, and that have returned; and the cancels that have succeeded.
structure DlqStore where
  clock : Int
  next_id : JobId
  jobs : JobId → Option DLQJob
  archive : JobId → Option DLQJobArchive
  locks : Locks JobId
  handling : Locks JobId
  started : List JobId
  failures : List JobId
  dispatched : List Dispatched
  cancelled : List JobId

abbrev DlqSystem := Pool DlqStore DlqPc

inductive DlqEvent
  | tick (d : ℕ)
  | schedule (pipeline_name : String) (job_payload : Params) (delay_minutes : Int) (max_retries : ℕ)
  | poll (i : TaskId)
  | dispatch_pipeline (i : TaskId) (pipeline_name : String)
  | dispatch_job (i : TaskId) (job_id : JobId)
  | cancel (i : TaskId) (job_id : JobId)
  -- SELECT … FOR UPDATE SKIP LOCKED, in the order in which the database gives the rows
  | select (i : TaskId) (jobs : List JobId)
  | go (i : TaskId)
  | outcome (i : TaskId) (outcome : DispatchOutcome)
  -- the transaction is rolled back: a statement fails, or the pod dies
  | abort (i : TaskId)

namespace DlqStore

-- POST /dlq/schedule.
def schedule (s : DlqStore) (pipeline_name : String) (job_payload : Params) (delay_minutes : Int)
    (max_retries : ℕ) : Option DlqStore :=
  (add_minutes s.clock delay_minutes).map fun scheduled_at =>
    { s with
      next_id := s.next_id + 1
      jobs := Function.update s.jobs s.next_id (some
        { job_payload, pipeline_name, scheduled_at, delay_minutes, status := .pending
          retry_count := 0, max_retries, error_message := none, created_at := s.clock
          processed_at := none, execution_id := none }) }

-- The rows that the SELECT of a poll, or of a manual dispatch of a pipeline, finds and locks.
def find (s : DlqStore) (filter : DLQJob → Bool) : List JobId :=
  (List.range s.next_id).filter fun k => s.locks k = none ∧ (s.jobs k).any filter

def load (s : DlqStore) (ids : List JobId) : Jobs :=
  ids.filterMap fun k => (s.jobs k).map fun job => (k, job)

def start (s : DlqStore) (group : Jobs) : DlqStore :=
  { s with started := group.map Prod.fst ++ s.started }

def fail (s : DlqStore) (group : Jobs) : DlqStore :=
  { s with failures := group.map Prod.fst ++ s.failures }

-- The execution that `_dispatch_jobs` runs for a group: all its jobs have the same payload.
def record (s : DlqStore) (group : Jobs) (execution_id : ℕ) : DlqStore :=
  let pipeline_name := (group.head?.map fun p => p.2.pipeline_name).getD ""
  let job_payload := (group.head?.map fun p => p.2.job_payload).getD .empty
  let runtime_params := (job_payload.set "_dlq_source" (.bool true)).set "_dlq_job_ids"
    (.list (group.map fun p => .int p.1))
  { s with dispatched := ⟨execution_id, pipeline_name, runtime_params,
    group.map Prod.fst⟩ :: s.dispatched }

-- What a commit leaves in the two tables.
def write (s : DlqStore) (k : JobId) : Option JobWrite → Option DLQJob × Option DLQJobArchive
  | none => (s.jobs k, s.archive k)
  | some (.update job) => (some job, s.archive k)
  | some (.archive row) => (none, some row)

def commit (s : DlqStore) (i : TaskId) (done : JobWrites) : DlqStore :=
  { s with
    jobs := fun k => (s.write k (done.lookup k)).1
    archive := fun k => (s.write k (done.lookup k)).2
    locks := s.locks.release i }

def rollback (s : DlqStore) (i : TaskId) : DlqStore :=
  { s with locks := s.locks.release i, handling := s.handling.release i }

-- The row of one job, in a transaction of its own.
def set_job (s : DlqStore) (k : JobId) (job : DLQJob) : DlqStore :=
  { s with jobs := Function.update s.jobs k (some job) }

-- The commit of the handler of a failed manual dispatch. When the row is gone the UPDATE
-- fails (StaleDataError), and so does the INSERT into the archive (IntegrityError).
def write_failure (s : DlqStore) (k : JobId) (loaded : DLQJob) : JobWrite → DlqStore
  | .update new => (s.jobs k).elim s fun current => s.set_job k (loaded.flush new current)
  | .archive row =>
      if (s.archive k).isSome then s
      else { s with
        jobs := Function.update s.jobs k none
        archive := Function.update s.archive k (some row) }

end DlqStore

-- `json.dumps(job_payload or {}, sort_keys=True, default=str)`.
variable (dumps : Params → String)

-- `_group_by_params`.
def group_by_params (jobs : Jobs) : List Jobs := group_by (fun p => dumps p.2.job_payload) jobs

namespace DlqPc

-- The rows that the SELECT locks, and what the call makes of them.
def select (s : DlqStore) : DlqPc → Option (List JobId × (Jobs → List Jobs))
  | poll now => some (s.find fun job => job.status = .pending ∧ job.scheduled_at ≤ now,
      fun jobs => (group_by (fun p => p.2.pipeline_name) jobs).flatMap (group_by_params dumps))
  | pipeline pipeline_name => some (s.find fun job => job.pipeline_name = pipeline_name ∧
      job.status = .pending,
      group_by_params dumps)
  | _ => none

-- The next statement of a call, with what the tables say to it.
def go (i : TaskId) (s : DlqStore) : DlqPc → Option (DlqStore × DlqPc)
  | batch (group :: groups) done => some (s.start group, dispatch group groups done)
  | batch [] done => some (s.commit i done, idle)
  | manual k =>
      if s.locks k = none then
        match s.jobs k with
        | none => some (s, idle)
        | some job =>
            if job.status = .pending then
              some ({ s with locks := s.locks.take i [k] }.start [(k, job)], manual_dispatch k job)
            else some (s, idle)
      else none
  -- `job.pipeline_name`, expired by the rollback, is read again (ObjectDeletedError)
  | failed k error_msg =>
      match (s.jobs k).bind fun job => (job.handle_job_failure error_msg s.clock).map
          fun write => (job, write) with
      | some (job, write) => some (s, handled k job write)
      | none => some (s.rollback i, idle)
  | handled k loaded write =>
      if s.locks k = none then some ((s.write_failure k loaded write).rollback i, idle) else none
  | cancel k =>
      match s.jobs k with
      | none => some (s, idle)
      | some job => some (s, if h : job.status = .pending then cancelling k ⟨job, h⟩ else idle)
  | cancelling k loaded =>
      if s.locks k = none then
        match s.jobs k with
        | none => some (s, idle)
        | some job =>
            some ({ s.set_job k (loaded.1.flush loaded.1.cancel
              job) with cancelled := k :: s.cancelled }, idle)
      else none
  | _ => none

-- The end of the dispatch that is being made.
def outcome (i : TaskId) (s : DlqStore) : DlqPc → DispatchOutcome → Option (DlqStore × DlqPc)
  | dispatch group groups done, .returned id =>
      some (s.record group id,
        batch groups (group.map (fun p => (p.1, .update (p.2.mark_completed id s.clock))) ++ done))
  | dispatch group groups done, .raised error_msg =>
      match group.mapM fun p => (p.2.handle_job_failure error_msg s.clock).map
          fun write => (p.1, write) with
      | some writes => some (s.fail group, batch groups (writes ++ done))
      | none => some ((s.fail group).rollback i, idle)
  | manual_dispatch k job, .returned id =>
      some (((s.record [(k, job)] id).set_job k (job.mark_completed id s.clock)).rollback i, idle)
  | manual_dispatch k job, .raised error_msg =>
      some ({ (s.fail [(k, job)]).rollback i with handling := s.handling.take i [k] },
        failed k error_msg)
  | manual_dispatch k job, .not_committed id error_msg =>
      some ({ (s.record [(k, job)] id).rollback i with handling := s.handling.take i [k] },
        failed k error_msg)
  | manual_dispatch k job, .not_logged id error_msg =>
      some ({ ((s.record [(k, job)] id).set_job k (job.mark_completed id s.clock)).rollback i with
        handling := s.handling.take i [k] }, failed k error_msg)
  | _, _ => none

def ready : DlqPc → Bool
  | idle => true
  | _ => false

end DlqPc

namespace DlqSystem

-- A call begins.
def call (s : DlqSystem) (i : TaskId) (pc : DlqPc) : Option DlqSystem :=
  if (s.procs i).ready then some (s.set i s.store pc) else none

def step (s : DlqSystem) : DlqEvent → Option DlqSystem
  | .tick d => some { s with store := { s.store with clock := s.store.clock + d } }
  | .schedule pipeline_name job_payload delay_minutes max_retries =>
      (s.store.schedule pipeline_name job_payload delay_minutes max_retries).map
        fun store => { s with store }
  | .poll i => s.call i (.poll s.store.clock)
  | .dispatch_pipeline i pipeline_name => s.call i (.pipeline pipeline_name)
  | .dispatch_job i job_id => s.call i (.manual job_id)
  | .cancel i job_id => s.call i (.cancel job_id)
  | .select i jobs =>
      match (s.procs i).select dumps s.store with
      | some (found, groups) =>
          if jobs.isPerm found then
            if jobs = [] then some (s.set i s.store .idle)
            else some (s.set i { s.store with locks := s.store.locks.take i jobs }
              (.batch (groups (s.store.load jobs)) []))
          else none
      | none => none
  | .go i => ((s.procs i).go i s.store).map fun r => s.set i r.1 r.2
  | .outcome i outcome => ((s.procs i).outcome i s.store outcome).map fun r => s.set i r.1 r.2
  | .abort i => some (s.set i (s.store.rollback i) .idle)

-- Nothing has been scheduled, and no call has begun.
def Initial (s : DlqSystem) : Prop :=
  s.store.next_id = 0 ∧
    (∀ k, s.store.jobs k = none ∧ s.store.archive k = none ∧ s.store.locks k = none ∧
    s.store.handling k = none) ∧ s.store.started = [] ∧ s.store.failures = [] ∧
      s.store.dispatched = [] ∧
    s.store.cancelled = [] ∧ ∀ i, s.procs i = .idle

end DlqSystem

end DLQScheduler

end Reflowfy
