import Reflowfy.Interleaving.Runs
import Mathlib.Data.Nat.Notation

namespace Reflowfy.AsyncUtils

-- Where a worker task stands. After `task.cancel()` the CancelledError is raised where the task
-- waits, when it goes on.
inductive Worker (ε : Type)
  | created (cancelling : Bool)
  | calling (index : ℕ) (cancelling : Bool)
  | done
  | failed (error : ε)
  | cancelled

-- Where the caller of the workers stands: in a loop of its own, at the first `gather`, at the
-- second one with the error of the first, or back.
inductive Caller (ε : Type)
  | looping
  | gathering
  | joining (error : ε)
  | returned
  | raised (error : ε)

-- What becomes of the calls of the function, and where the caller cancels the workers. What a
-- call does on its way is for the function to say.
inductive Event (α ρ ε κ : Type)
  | start (index : ℕ) (item : α)
  | act (index : ℕ) (what : κ)
  | finish (index : ℕ) (result : ρ)
  | fail (index : ℕ) (error : ε)
  | give_up (index : ℕ)
  | swallow (index : ℕ)
  | cancel

-- `next_index` is where the iterator stands that the workers share. The log is kept for what is
-- said about runs.
structure Pool (α ρ ε κ : Type) where
  items : List α
  next_index : ℕ
  workers : List (Worker ε)
  results : List (Option ρ)
  caller : Caller ε
  log : List (Event α ρ ε κ)

-- What the event loop runs next: a worker up to where it waits again, or the caller.
inductive Action (ρ ε κ : Type)
  | resume (w : ℕ)
  | act (w : ℕ) (what : κ)
  | finish (w : ℕ) (result : ρ)
  | fail (w : ℕ) (error : ε)
  | give_up (w : ℕ)
  | swallow (w : ℕ)
  | cancel (w : ℕ)
  | join
  | complete

variable {α ρ ε κ : Type}

namespace Worker

-- The call that the worker awaits.
def index : Worker ε → Option ℕ
  | calling index _ => some index
  | _ => none

def is_done : Worker ε → Bool
  | done => true
  | _ => false

-- `task.done()`.
def ended : Worker ε → Bool
  | done => true
  | failed _ => true
  | cancelled => true
  | _ => false

-- `task.cancel()`.
def cancel : Worker ε → Worker ε
  | created _ => created true
  | calling index _ => calling index true
  | worker => worker

end Worker

-- An error ends a loop at once; a worker's error is for `gather`.
def Caller.fail (error : ε) : Caller ε → Caller ε
  | looping => raised error
  | caller => caller

namespace Pool

def start (caller : Caller ε) (workers : ℕ) (items : List α) : Pool α ρ ε κ where
  items := items
  next_index := 0
  workers := List.replicate workers (.created false)
  results := List.replicate items.length none
  caller := caller
  log := []

def put (s : Pool α ρ ε κ) (w : ℕ) (worker : Worker ε)
    (events : List (Event α ρ ε κ)) : Pool α ρ ε κ :=
  { s with workers := s.workers.set w worker, log := s.log ++ events }

-- `for index, item in pending`, up to the call; nothing in it waits.
def next_item (s : Pool α ρ ε κ) (w : ℕ) : Pool α ρ ε κ :=
  match s.items[s.next_index]? with
  | some item => { s.put w (.calling s.next_index false) [.start s.next_index
      item] with next_index := s.next_index + 1 }
  | none => s.put w .done []

def step (s : Pool α ρ ε κ) : Action ρ ε κ → Option (Pool α ρ ε κ)
  | .resume w => match s.workers[w]? with
      | some (.created false) => some (s.next_item w)
      | some (.created true) => some (s.put w .cancelled [])
      | _ => none
  | .act w what => match s.workers[w]? with
      | some (.calling index cancelling) =>
          some (s.put w (.calling index cancelling) [.act index what])
      | _ => none
  | .finish w result => match s.workers[w]? with
      | some (.calling index false) =>
          some (({ s.put w (.created false) [.finish index result] with
            results := s.results.set index (some result) }).next_item w)
      | _ => none
  | .fail w error => match s.workers[w]? with
      | some (.calling index _) =>
          some { s.put w (.failed error) [.fail index error] with caller := s.caller.fail error }
      | _ => none
  | .give_up w => match s.workers[w]? with
      | some (.calling index true) => some (s.put w .cancelled [.give_up index])
      | _ => none
  -- a call may also go on after a CancelledError
  | .swallow w => match s.workers[w]? with
      | some (.calling index true) => some (s.put w (.calling index false) [.swallow index])
      | _ => none
  -- the `except` clause, with the error that `gather` hands on
  | .cancel w => match s.caller, s.workers[w]? with
      | .gathering, some (.failed error) =>
          some { s with
            workers := s.workers.map Worker.cancel, caller := .joining error,
            log := s.log ++ [.cancel] }
      | _, _ => none
  | .join => match s.caller with
      | .joining error => if s.workers.all Worker.ended then
          some { s with caller := .raised error } else none
      | _ => none
  | .complete => match s.caller with
      | .looping => if s.workers.all Worker.is_done then
          some { s with caller := .returned } else none
      | .gathering => if s.workers.all Worker.is_done then
          some { s with caller := .returned } else none
      | _ => none

end Pool

def for_each_concurrently (items : List α) (concurrency : ℕ) : Pool α ρ ε κ :=
  if concurrency ≤ 1 then Pool.start .looping 1 items
  else Pool.start .gathering (min concurrency items.length) items

end Reflowfy.AsyncUtils
