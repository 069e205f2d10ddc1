import Reflowfy.DlqScheduler
import Reflowfy.Json.Text

namespace Reflowfy.DLQScheduler

-- The value that a JSON text is loaded as.
mutual

def loaded : Json → Value
  | .null => .None
  | .bool b => .bool b
  | .int n => .int n
  | .float text => .float text
  | .str s => .str s
  | .list items => .list (loaded_items items)
  | .obj entries => .dict (loaded_entries entries)

def loaded_items : List Json → List Value
  | [] => []
  | item :: items => loaded item :: loaded_items items

def loaded_entries : List (String × Json) → List (Key × Value)
  | [] => []
  | (k, v) :: entries => (.str k, loaded v) :: loaded_entries entries

end

def payload_params (payload : List (String × Json)) : Params :=
  fun k => (payload.lookup k).map loaded

-- A pending row of `dlq_jobs` with the JSON object in its `job_payload`.
structure LockedJob where
  id : JobId
  payload : List (String × Json)
  row : DLQJob
  job_payload : row.job_payload = payload_params payload
  wellFormed : (Json.obj payload).WellFormed
  printable : (Json.obj payload).Printable
  pending : row.status = .pending

def LockedJob.ids (group : List LockedJob) : List JobId := group.map LockedJob.id

structure DlqTables where
  jobs : JobId → Option DLQJob
  archive : JobId → Option DLQJobArchive

namespace DlqTables

def write (tables : DlqTables) (k : JobId) : Option JobWrite → Option DLQJob × Option DLQJobArchive
  | none => (tables.jobs k, tables.archive k)
  | some (.update job) => (some job, tables.archive k)
  | some (.archive row) => (none, some row)

def commit (tables : DlqTables) (writes : JobWrites) : DlqTables where
  jobs k := (tables.write k (writes.lookup k)).1
  archive k := (tables.write k (writes.lookup k)).2

end DlqTables

-- What the SELECT of a driver finds for one pipeline, in the order of its rows.
structure Locked where
  tables : DlqTables
  pipeline_name : String
  jobs : List LockedJob
  nodup : (LockedJob.ids jobs).Nodup
  stored : ∀ job ∈ jobs, tables.jobs job.id = some job.row ∧ job.row.pipeline_name = pipeline_name

-- What a call meets outside: how `run_pipeline` ends for the group of these jobs, what the
-- clock says when a job's failure is handled and when a group is marked, and whether the
-- COMMIT raises.
structure Dispatches where
  run_pipeline : List JobId → Except String ℕ
  now : JobId → Int
  processed_at : List JobId → Int
  commit_error : Option String

inductive DriverError
  | overflow
  | run_pipeline (error : String)
  | commit (error : String)
  deriving DecidableEq, Repr

-- `json.dumps(job.job_payload or {}, sort_keys=True, default=str)`.
def LockedJob.key (job : LockedJob) : List Char := (Json.obj job.payload).sorted.render

-- `_group_by_params`.
def Locked.groups (l : Locked) : List (List LockedJob) := group_by LockedJob.key l.jobs

-- What a transaction has made of its groups so far, and the executions it has started.
structure Batch where
  writes : JobWrites
  executions : List Dispatched
  last_error : Option String

variable (d : Dispatches)

-- `_dispatch_jobs`, for a group whose jobs all have the payload of its first.
def dispatch_jobs (pipeline_name : String) (group : List LockedJob) : Except String Dispatched :=
  let job_payload := (group.head?.map fun job => job.row.job_payload).getD .empty
  let runtime_params := (job_payload.set "_dlq_source" (.bool true)).set "_dlq_job_ids"
    (.list (group.map fun job => .int job.id))
  (d.run_pipeline (LockedJob.ids group)).map fun execution_id =>
    ⟨execution_id, pipeline_name, runtime_params, LockedJob.ids group⟩

-- `_mark_completed`.
def mark_group (group : List LockedJob) (execution_id : ℕ) : JobWrites :=
  group.map fun job =>
    (job.id, .update (job.row.mark_completed execution_id (d.processed_at (LockedJob.ids group))))

-- `_handle_job_failure` for each job of a group.
def handle_failures (group : List LockedJob) (error_msg : String) : Option JobWrites :=
  group.mapM fun job => (job.row.handle_job_failure error_msg (d.now job.id)).map
    fun write => (job.id, write)

-- The loop that both drivers have over their groups. The OverflowError of a backoff ends it.
def process_groups (pipeline_name : String) : List (List LockedJob) → Batch →
    Batch × Except DriverError Unit
  | [], batch => (batch, .ok ())
  | group :: groups, batch =>
      match dispatch_jobs d pipeline_name group with
      | .ok execution =>
          process_groups pipeline_name groups
            { batch with
              writes := batch.writes ++ mark_group d group execution.execution_id
              executions := batch.executions ++ [execution] }
      | .error e =>
          match handle_failures d group e with
          | some writes =>
              process_groups pipeline_name groups
                { batch with writes := batch.writes ++ writes, last_error := some e }
          | none => (batch, .error .overflow)

-- What a driver leaves: the tables, the executions, and what it returns or raises.
structure DriverEnd (α : Type) where
  tables : DlqTables
  executions : List Dispatched
  result : Except DriverError α

variable (l : Locked)

-- The groups, and the COMMIT. Whatever raises, the transaction is rolled back.
def commit_groups : DriverEnd Batch :=
  match process_groups d l.pipeline_name l.groups ⟨[], [], none⟩ with
  | (batch, .error e) => ⟨l.tables, batch.executions, .error e⟩
  | (batch, .ok ()) =>
      match d.commit_error with
      | some e => ⟨l.tables, batch.executions, .error (.commit e)⟩
      | none => ⟨l.tables.commit batch.writes, batch.executions, .ok batch⟩

-- `_poll_and_process`, when the due jobs are of one pipeline.
def poll_and_process : DriverEnd Unit :=
  if l.jobs.isEmpty then ⟨l.tables, [], .ok ()⟩
  else
    let r := commit_groups d l
    ⟨r.tables, r.executions, r.result.map fun _ => ()⟩

-- The jobs that are read back as completed. An archived one has no row.
def completed_count (tables : DlqTables) : ℕ :=
  l.jobs.countP fun job => (tables.jobs job.id).any fun row => row.status = .completed

def process_pipeline_immediately : DriverEnd (ℕ × List ℕ) :=
  if l.jobs.isEmpty then ⟨l.tables, [], .ok (0, [])⟩
  else
    let r := commit_groups d l
    match r.result with
    | .error e => ⟨r.tables, r.executions, .error e⟩
    | .ok batch =>
        let execution_ids := batch.executions.map Dispatched.execution_id
        match batch.last_error with
        | some e =>
            if execution_ids.isEmpty then ⟨r.tables, r.executions, .error (.run_pipeline e)⟩
            else ⟨r.tables, r.executions, .ok (completed_count l r.tables, execution_ids)⟩
        | none => ⟨r.tables, r.executions, .ok (completed_count l r.tables, execution_ids)⟩

end Reflowfy.DLQScheduler
