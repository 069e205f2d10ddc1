import Reflowfy.Interleaving.Pool
import Reflowfy.Models

namespace Reflowfy.ElasticLogHandler

open Interleaving

-- A formatted line, told from others by the thread and the number of its call of `emit`.
abbrev Line := TaskId × ℕ

structure Config where
  -- `maxsize` of the queue: none where it is not positive
  queue_max : ℤ
  flush_docs : ℤ

-- Where a thread stands in `emit`: the operation on the queue that is next.
inductive EmitPc
  | idle
  | put_nowait (line : Line)
  | get_nowait (line : Line)
  | put_again (line : Line)
  -- `queue.Full` has come out of `emit`
  | raised (line : Line)
  deriving DecidableEq, Repr

-- Where the shipper's thread stands: in its loop, at a batch that is due, at what is still
-- queued after the stop, or at the last batches.
inductive ShipperPc
  | looping
  | due
  | draining
  | last
  deriving DecidableEq, Repr

-- How `helpers.bulk` ends: with the documents that Elasticsearch has rejected, or by an
-- exception, after some of the documents have been taken.
inductive Bulk
  | no_client
  | returned (rejected : Line → Bool)
  | raised (taken : Line → Bool)

-- `batch` has the lines that are still to be flushed. The lists after the counter are kept for
-- the statements about it and read by no step: how many lines each thread has begun to
-- emit, the lines with which `emit` has returned, and those that were shipped or are counted.
structure LogStore where
  queue : List Line
  shipper : ShipperPc
  batch : List Line
  logs_dropped_total : ℕ
  emits : TaskId → ℕ
  accepted : List Line
  shipped : List Line
  dropped : List Line

abbrev LogSystem := Pool LogStore EmitPc

inductive LogEvent
  | emit (i : TaskId)
  | go (i : TaskId)
  -- the shipper's `get`, and whether `flush_seconds` have passed
  | get (expired : Bool)
  | flush (bulk : Bulk)
  | stop
  | drain

namespace LogStore

def full (c : Config) (s : LogStore) : Bool := 0 < c.queue_max ∧ c.queue_max ≤ s.queue.length

def put (s : LogStore) (line : Line) : LogStore :=
  { s with queue := s.queue ++ [line], accepted := line :: s.accepted }

-- `metrics.logs_dropped_total.inc(len(lines))`.
def drop (s : LogStore) (lines : List Line) : LogStore :=
  { s with
    logs_dropped_total := s.logs_dropped_total + lines.length
    dropped := lines ++ s.dropped }

def ship (s : LogStore) (lines : List Line) : LogStore := { s with shipped := lines ++ s.shipped }

-- `_flush`.
def flush (s : LogStore) (lines : List Line) : Bulk → LogStore
  | .no_client => s.drop lines
  | .returned rejected => (s.ship (lines.filter fun line => !rejected line)).drop
      (lines.filter rejected)
  | .raised taken => (s.ship (lines.filter taken)).drop lines

-- The lines that the next `_flush` is called with. At the end they are those of
-- `range(0, len(batch), self.flush_docs)`.
def due_lines (c : Config) (s : LogStore) : List Line :=
  match s.shipper with
  | .due => s.batch
  | .last => s.batch.take c.flush_docs.toNat
  | .looping | .draining => []

-- `_flush`, and what is then left of the batch.
def flush_due (c : Config) (s : LogStore) (bulk : Bulk) : LogStore :=
  { s.flush (s.due_lines c) bulk with
    batch := s.batch.drop (s.due_lines c).length
    shipper := if s.shipper = .due then .looping else s.shipper }

-- `len(batch) >= self.flush_docs or … >= self.flush_seconds`, and the batch not empty.
def next (c : Config) (expired : Bool) (s : LogStore) : LogStore :=
  if s.batch ≠ [] ∧ (c.flush_docs ≤ s.batch.length ∨ expired) then { s with shipper := .due } else s

end LogStore

-- The next operation of a thread that emits.
def EmitPc.go (c : Config) (s : LogStore) : EmitPc → Option (LogStore × EmitPc)
  | put_nowait line => if s.full c then some (s, get_nowait line) else some (s.put line, idle)
  | get_nowait line =>
      match s.queue with
      | [] => some ({ s with accepted := line :: s.accepted }.drop [line], idle)
      | oldest :: queue => some ({ s with queue }.drop [oldest], put_again line)
  | put_again line => if s.full c then some (s, raised line) else some (s.put line, idle)
  | idle | raised _ => none

namespace LogSystem

def step (c : Config) (s : LogSystem) : LogEvent → Option LogSystem
  | .emit i =>
      if s.procs i = .idle then
        some (s.set i
          { s.store with emits := Function.update s.store.emits i (s.store.emits i + 1) }
          (.put_nowait (i, s.store.emits i)))
      else none
  | .go i => ((s.procs i).go c s.store).map fun r => s.set i r.1 r.2
  | .get expired =>
      if s.store.shipper = .looping then
        match s.store.queue with
        | [] => some { s with store := s.store.next c expired }
        | line :: queue =>
            some { s with
              store := { s.store with queue, batch := s.store.batch ++ [line] }.next c expired }
      else none
  | .flush bulk => if s.store.due_lines c ≠ [] then
      some { s with store := s.store.flush_due c bulk } else none
  | .stop => if s.store.shipper = .looping then
      some { s with store := { s.store with shipper := .draining } } else none
  | .drain =>
      if s.store.shipper = .draining then
        match s.store.queue with
        | [] => some { s with store := { s.store with shipper := .last } }
        | line :: queue =>
            some { s with store := { s.store with queue, batch := s.store.batch ++ [line] } }
      else none

def Initial (s : LogSystem) : Prop :=
  s.store = ⟨[], .looping, [], 0, fun _ => 0, [], [], []⟩ ∧ ∀ i, s.procs i = .idle

end LogSystem

end Reflowfy.ElasticLogHandler
