import Reflowfy.Interleaving.Pool
import Reflowfy.Worker.Delivery

namespace Reflowfy

open Interleaving

-- One tracked job. `holder` and `fetched` are kept for the statements about them and read
-- by no step: the delivery granted the last claim, until a sweep takes the job back; and
-- the dispatch loops that have fetched the job, until it is claimed, cancelled or failed.
structure JobStore where
  clock : Int
  row : Job
  holder : Option TaskId
  fetched : List TaskId

-- The job and the deliveries of its message, each with its own number.
abbrev JobSystem := Pool JobStore DeliveryPc

inductive JobEvent
  | tick (now : Int)
  | deliver (d : TaskId)
  | go (d : TaskId) (choice : Choice)
  | mark_job_dispatched
  | cancel_unstarted_jobs
  | requeue_failed (error_contains : Option String)
  -- a sweep reads the clock before its transaction commits
  | reclaim_expired_leases (now : Int)
  -- a dispatch loop: `get_pending_jobs`, and what it reports of a job among those
  | fetch (loop : TaskId)
  | on_unsendable (loop : TaskId) (reason : String)

namespace JobStore

def setRow (s : JobStore) (row : Job) : JobStore := { s with row }

-- What a delivery's statement leaves, with the claim it may have won.
def apply (s : JobStore) (d : TaskId) (stmt : JobStmt) : JobStore :=
  { s with
    row := stmt.set s.clock s.row
    holder := match stmt with
      | .claim_job => if s.row.state.unstarted then some d else s.holder
      | _ => s.holder
    fetched := match stmt with
      | .claim_job => if s.row.state.unstarted then [] else s.fetched
      | _ => s.fetched }

def reclaim (cfg : Config) (now : Int) (s : JobStore) : JobStore :=
  { s with
    row := s.row.reclaim_expired_leases cfg now
    holder := if s.row.staleRunning cfg now then none else s.holder }

end JobStore

namespace JobSystem

def step (cfg : Config) (s : JobSystem) : JobEvent → Option JobSystem
  | .tick now => if s.store.clock ≤ now then
      some { s with store := { s.store with clock := now } } else none
  | .deliver d => if s.procs d = .idle then some (s.set d s.store .claim) else none
  | .go d choice =>
      ((s.procs d).act s.store.clock choice).map fun a =>
        s.set d (s.store.apply d a.stmt) (a.next (a.stmt.reply (some s.store.row)))
  | .mark_job_dispatched =>
      some { s with store := s.store.setRow (s.store.row.mark_job_dispatched s.store.clock) }
  | .cancel_unstarted_jobs =>
      some { s with
        store := { s.store with
          row := s.store.row.cancel_unstarted_jobs s.store.clock, fetched := [] } }
  | .requeue_failed error_contains =>
      some { s with
        store := s.store.setRow (s.store.row.requeue_failed cfg.like error_contains s.store.clock) }
  | .reclaim_expired_leases now =>
      if now ≤ s.store.clock then some { s with store := s.store.reclaim cfg now } else none
  | .fetch loop =>
      some { s with
        store := if s.store.row.state = .pending then
            { s.store with fetched := loop :: s.store.fetched }
          else s.store }
  | .on_unsendable _ reason =>
      some { s with
        store := { s.store with
          row := s.store.row.update_job_state_failed reason s.store.clock, fetched := [] } }

-- No delivery of the job has begun; its row is as `create_jobs` or an earlier
-- process left it.
def Initial (s : JobSystem) : Prop :=
  s.store.holder = none ∧ s.store.fetched = [] ∧ ∀ d, s.procs d = .idle

end JobSystem

end Reflowfy
