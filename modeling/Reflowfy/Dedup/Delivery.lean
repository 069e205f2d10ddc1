import Reflowfy.ContentDedup
import Reflowfy.Manager.Statements
import Reflowfy.Interleaving.Pool

namespace Reflowfy

open Interleaving

-- The jobs of every run, and the tables that record dedup reads and writes. `delivered`
-- and `produced` are kept for the statements about them and read by no step: what each
-- job's sends have brought to its destination, and which records a job had when it was
-- reported to have succeeded.
structure DedupStore where
  clock : Int
  jobs : List Job
  processed_content : List (ContentHash × JobId)
  records : Records
  delivered : List (JobId × RecordHash)
  produced : List (JobId × RecordHash)

namespace DedupStore

def job (s : DedupStore) (job_id : JobId) : Option Job := s.jobs.find? (·.job_id = job_id)

def exec (cfg : Config) (stmt : Stmt) (s : DedupStore) : DedupStore :=
  { s with jobs := s.jobs.map (stmt.onJob cfg s.clock) }

def deliver (job_id : JobId) (hashes : List RecordHash) (s : DedupStore) : DedupStore :=
  { s with delivered := hashes.map (job_id, ·) ++ s.delivered }

def produce (job_id : JobId) (hashes : List RecordHash) (s : DedupStore) : DedupStore :=
  { s with produced := hashes.map (job_id, ·) ++ s.produced }

end DedupStore

-- The records of a job and the hashes that `claim_record_hashes` returned for them.
structure Slice where
  records : List RecordHash
  won : List RecordHash
  deriving DecidableEq, Repr

def Slice.kept (slice : Slice) : List RecordHash := keep slice.won [] slice.records

-- Who releases the claims, and so what comes next.
inductive Releasing
  -- the destination is unhealthy; the failure is reported inside the `try`
  | unhealthy
  -- `except Exception`
  | failed
  -- `except BaseException`
  | shutdown
  deriving DecidableEq, Repr

-- What a call came to, and what the outside world decided.
inductive WorkChoice
  | ok
  | raised (message traceback : String)
  -- the source returned no record, or these records after transformation
  | no_records
  | fetched (records : List RecordHash) (job_hashes : List ContentHash)
  | unhealthy
  -- the destination takes one of the records
  | wrote (h : RecordHash)
  | beat
  -- SystemExit or CancelledError; or the process is gone
  | shutdown
  | die
  deriving DecidableEq

-- Where a delivery with `dedup_check` stands in `_execute_job_inner`. `caught`: the report
-- is made by the handler of an exception.
inductive RecordsPc
  | idle
  | claim
  | blocked
  | fetch
  | held (records : List RecordHash) (job_hashes : List ContentHash)
  | claiming (records : List RecordHash) (now : Int) (claims : ClaimPc)
  | health_check (slice : Slice)
  | send (slice : Slice)
  | release (slice : Slice) (by_ : Releasing) (stats : JobStats)
  | report (slice : Slice) (stats : JobStats) (caught : Bool)
  | closing (slice : Slice) (caught : Bool)
  | ended
  deriving DecidableEq, Repr

namespace JobStats

def sent (records_output : ℕ) : JobStats where
  deduplicated := false
  success := true
  records_output := records_output
  error := none
  error_traceback := none

def duplicate : JobStats := { sent 0 with deduplicated := true }

def unhealthy (records_output : ℕ) : JobStats :=
  { sent records_output with success := false, error := some "Destination health check failed" }

def raised (records_output : ℕ) (message traceback : String) : JobStats :=
  { sent records_output with
    success := false, error := some message, error_traceback := some traceback }

end JobStats

namespace RecordsPc

def reportBy (slice : Slice) (stats : JobStats) : Releasing → RecordsPc
  | .unhealthy => report slice stats false
  | .failed => report slice stats true
  | .shutdown => ended

-- `if claimed_record_hashes: await release_record_hashes(…)`.
def releaseBy (slice : Slice) (by_ : Releasing) (stats : JobStats) : RecordsPc :=
  if slice.won = [] then reportBy slice stats by_ else release slice by_ stats

-- What `_claim_records` returns decides whether there is something to send.
def claimed (records : List RecordHash) (now : Int) : ClaimPc → RecordsPc
  | .done won =>
      if (⟨records, won⟩ : Slice).kept = [] then report ⟨records, won⟩ .duplicate false
      else health_check ⟨records, won⟩
  | claims => claiming records now claims

-- The jobs whose deliveries send a heartbeat, whatever else they wait for.
def beating : RecordsPc → Bool
  | idle | claim | blocked | ended => false
  | _ => true

def go (cfg : Config) (d : TaskId) (job_id : JobId) (s : DedupStore) : RecordsPc → WorkChoice →
    Option (DedupStore × RecordsPc)
  -- `_claim_job` fails open
  | claim, .ok =>
      some (s.exec cfg (.job job_id .claim_job), if JobStmt.claim_job.reply (s.job job_id) then
        fetch else blocked)
  | claim, .raised _ _ => some (s, fetch)
  | blocked, .ok => some (s, if (s.job job_id).isNone then fetch else ended)
  | blocked, .raised _ _ => some (s, fetch)
  | fetch, .no_records => some (s, report ⟨[], []⟩ (.sent 0) false)
  | fetch, .fetched records job_hashes =>
      -- no record to send is not a duplicate
      some (s, if records = [] then health_check ⟨[], []⟩ else held records job_hashes)
  | fetch, .raised message traceback => some (s, report ⟨[], []⟩ (.raised 0 message traceback) true)
  | held records job_hashes, .ok =>
      some (s, if held_by_other_job s.processed_content job_hashes job_id then
        report ⟨records, []⟩ .duplicate false
        else claiming records s.clock (.claim_record_hashes records))
  | held records _, .raised message traceback =>
      some (s, report ⟨records, []⟩ (.raised records.length message traceback) true)
  | claiming records now claims, .ok =>
      (claims.step d job_id now s.records).map fun (table, claims') =>
        ({ s with records := table }, claimed records now claims')
  | claiming records _ _, .raised message traceback =>
      some ({ s with records := s.records.rollback d },
        report ⟨records, []⟩ (.raised records.length message traceback) true)
  | claiming _ _ _, .shutdown
  | claiming _ _ _, .die => some ({ s with records := s.records.rollback d }, ended)
  | health_check slice, .ok => some (s, send slice)
  | health_check slice, .unhealthy =>
      some (s, releaseBy slice .unhealthy (.unhealthy slice.kept.length))
  | health_check slice, .raised message traceback | send slice, .raised message traceback =>
      some (s, releaseBy slice .failed (.raised slice.kept.length message traceback))
  | send slice, .wrote h => if h ∈ slice.kept then some (s.deliver job_id [h], send slice) else none
  | send slice, .ok =>
      some (s.deliver job_id slice.kept, report slice (.sent slice.kept.length) false)
  | release slice by_ stats, .ok =>
      some ({ s with records := s.records.release_record_hashes slice.won job_id },
        reportBy slice stats by_)
  -- an error of the first release leads to the handler, which tries again; one of the
  -- handler's own is ignored
  | release slice .unhealthy _, .raised message traceback =>
      some (s, release slice .failed (.raised slice.kept.length message traceback))
  | release slice by_ stats, .raised _ _ => some (s, reportBy slice stats by_)
  | report slice stats caught, .ok =>
      some ((s.exec cfg (.job job_id (.update_job_in_db stats))).produce job_id
        (if stats.success then slice.records else []),
        closing slice caught)
  -- `_update_job_in_db` logs its errors: the result is lost
  | report slice _ caught, .raised _ _ => some (s, closing slice caught)
  | closing _ _, .ok => some (s, ended)
  -- a shutdown inside the `try` releases the claims, one that hits a handler does not
  | health_check slice, .shutdown | send slice, .shutdown | release slice .unhealthy _, .shutdown
  | report slice _ false, .shutdown | closing slice false, .shutdown =>
      some (s, releaseBy slice .shutdown (.sent 0))
  | idle, _ | ended, _ => none
  | _, .shutdown | _, .die => some (s, ended)
  | pc, .beat => if pc.beating then some (s.exec cfg (.job job_id .heartbeat_job), pc) else none
  | _, _ => none

end RecordsPc

structure RecordsDelivery where
  job_id : JobId
  pc : RecordsPc
  deriving DecidableEq

abbrev DedupSystem := Pool DedupStore RecordsDelivery

-- Statements of the manager, as opposed to those of a job's deliveries.
def Stmt.managing : Stmt → Bool
  | .job _ (.mark_job_dispatched) | .job _ (.update_job_state_failed _) => true
  | .job _ _ => false
  | _ => true

inductive DedupEvent
  | tick (now : Int)
  | deliver (d : TaskId) (job_id : JobId)
  | go (d : TaskId) (choice : WorkChoice)
  -- a statement about the jobs of one run
  | manage (run : List JobId) (stmt : Stmt)
  | purge_executions (run : List JobId)
  | purge_expired_content (cutoff : Int) (selected : List RecordHash)
  | purge_processed_content (selected : List ContentHash)

namespace DedupSystem

def step (cfg : Config) (s : DedupSystem) : DedupEvent → Option DedupSystem
  | .tick now => if s.store.clock ≤ now then
      some { s with store := { s.store with clock := now } } else none
  | .deliver d job_id => if (s.procs d).pc = .idle then
      some (s.set d s.store ⟨job_id, .claim⟩) else none
  | .go d choice =>
      ((s.procs d).pc.go cfg d (s.procs d).job_id s.store choice).map fun (store, pc) =>
        s.set d store ⟨(s.procs d).job_id, pc⟩
  | .manage run stmt =>
      if stmt.managing then
        some { s with store := { s.store with
          jobs := (s.store.jobs.map fun row =>
            if run.contains row.job_id then stmt.onJob cfg s.store.clock row else row) ++
            stmt.created s.store.clock } }
      else none
  | .purge_executions run =>
      some { s with store := { s.store with jobs := s.store.jobs.filter (!run.contains ·.job_id) } }
  | .purge_expired_content cutoff selected =>
      some { s with store := { s.store with
        records := s.store.records.purge_expired_content cutoff selected } }
  | .purge_processed_content selected =>
      some { s with store := { s.store with
        processed_content := s.store.processed_content.filter (!selected.contains ·.1) } }

-- No delivery has begun, and no transaction is open.
def Initial (s : DedupSystem) : Prop :=
  (∀ h, s.store.records.holder h = none) ∧ s.store.delivered = [] ∧ s.store.produced = [] ∧
    ∀ d, (s.procs d).pc = .idle

end DedupSystem

end Reflowfy
