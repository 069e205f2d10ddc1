import Reflowfy.Interleaving.Pool
import Reflowfy.Manager.Programs

namespace Reflowfy

open Interleaving

-- One execution: its rows and every task, request and delivery that works on it.
abbrev Manager := Pool Store Proc

-- What the outside world can begin. Resumes follow from requests, retries and
-- start-ups, and a delivery needs a message that was sent.
inductive Entry
  | request (r : Request)
  | retry (error_contains : Option String)
  | startup
  | deliver (job_id : JobId)
  | sweep
  deriving DecidableEq

def hour : Int := 3600 * second

def Entry.proc (cfg : Config) (s : Store) : Entry → Option Proc
  | request r => some (.request r .load)
  | retry error_contains => some (.retry (.load error_contains))
  | startup => some (.startup .release)
  | deliver job_id => if job_id ∈ s.sent then some (.deliver job_id .claim) else none
  | sweep =>
      if cfg.EXECUTION_RETENTION_HOURS ≤ 0 then none
      else some (.sweep (.jobs (s.clock - cfg.EXECUTION_RETENTION_HOURS * hour)))

theorem Entry.cases {cfg : Config} {s : Store} {entry : Entry} {p : Proc}
    (h : entry.proc cfg s = some p) :
    (∃ r, p = .request r .load) ∨ (∃ error_contains, p = .retry (.load error_contains)) ∨
      p = .startup .release ∨ (∃ job_id ∈ s.sent, p = .deliver job_id .claim) ∨
      ∃ cutoff, p = .sweep (.jobs cutoff) := by
  cases entry <;> simp only [proc, Option.some.injEq] at h
  case request r => exact .inl ⟨r, h.symm⟩
  case retry error_contains => exact .inr (.inl ⟨error_contains, h.symm⟩)
  case startup => exact .inr (.inr (.inl h.symm))
  case deliver job_id =>
    split at h <;> cases h
    exact .inr (.inr (.inr (.inl ⟨job_id, ‹_›, rfl⟩)))
  case sweep =>
    split at h <;> cases h
    exact .inr (.inr (.inr (.inr ⟨_, rfl⟩)))

inductive Event
  | tick (now : Int)
  | start (i : TaskId) (entry : Entry)
  | go (i : TaskId) (choice : Choice)
  -- the process of task `i` dies
  | crash (i : TaskId)
  deriving DecidableEq

def Event.task : Event → Option TaskId
  | tick _ => none
  | start i _ | go i _ | crash i => some i

namespace Manager

-- What a step of task `i` would do.
def act (cfg : Config) (s : Manager) (i : TaskId) (choice : Choice) : Option Act :=
  (s.procs i).act cfg i s.store.clock choice

def step (cfg : Config) (s : Manager) : Event → Option Manager
  | .tick now =>
      if s.store.clock ≤ now then some { s with store := { s.store with clock := now } } else none
  | .start i entry =>
      match s.procs i with
      | .idle => (entry.proc cfg s.store).map (s.set i s.store)
      | _ => none
  | .go i choice =>
      (s.act cfg i choice).map fun a =>
        s.set i (a.stmt.run cfg s.store) (a.next (a.stmt.reply cfg s.store))
  | .crash i => some (s.set i s.store .ended)

-- `/run`, a schedule or a replay from the DLQ has created the record; task 0 is to
-- plan and dispatch it.
def Fresh (s : Manager) : Prop :=
  s.store.execution = some (.create_execution s.store.clock) ∧ s.store.jobs = [] ∧
    s.store.sent = [] ∧ (∀ driver, s.store.granted driver = none) ∧
    s.procs 0 = .plan false .lease ∧ ∀ i, i ≠ 0 → s.procs i = .idle

-- A record of the time before `plan_complete` existed, with its jobs as an earlier
-- version left them; nothing works on it yet.
def Legacy (s : Manager) : Prop :=
  (∃ row, s.store.execution = some row ∧ row.plan_complete = none ∧
    (row.completed_at.isSome ↔ row.state.terminal)) ∧
  (∀ job ∈ s.store.jobs, job.state = .dispatched → job.dispatched_at.isSome) ∧
  (∀ driver, s.store.granted driver = none) ∧ ∀ i, s.procs i = .idle

def Initial (s : Manager) : Prop := Fresh s ∨ Legacy s

theorem Initial.proc {s : Manager} (h : Initial s) (i : TaskId) :
    s.procs i = .idle ∨ (i = 0 ∧ s.procs i = .plan false .lease) := by
  rcases h with ⟨-, -, -, -, hplan, hidle⟩ | ⟨-, -, -, hidle⟩
  · by_cases hi : i = 0
    · subst hi
      exact .inr ⟨rfl, hplan⟩
    · exact .inl (hidle i hi)
  · exact .inl (hidle i)

theorem Initial.granted {s : Manager} (h : Initial s) (driver : DriverId) :
    s.store.granted driver = none := by
  rcases h with ⟨-, -, -, h, -⟩ | ⟨-, -, h, -⟩ <;> exact h driver

theorem step_go {cfg : Config} {s s' : Manager} {i : TaskId} {choice : Choice}
    (h : step cfg s (.go i choice) = some s') :
    ∃ a, s.act cfg i choice = some a ∧
      s' = s.set i (a.stmt.run cfg s.store) (a.next (a.stmt.reply cfg s.store)) := by
  obtain ⟨a, ha, hs⟩ := Option.map_eq_some_iff.mp h
  exact ⟨a, ha, hs.symm⟩

theorem step_start {cfg : Config} {s s' : Manager} {i : TaskId} {entry : Entry}
    (h : step cfg s (.start i entry) = some s') :
    s.procs i = .idle ∧ ∃ p, entry.proc cfg s.store = some p ∧ s' = s.set i s.store p := by
  simp only [step] at h
  split at h
  · rename_i hi
    obtain ⟨p, hp, rfl⟩ := Option.map_eq_some_iff.mp h
    exact ⟨hi, p, hp, rfl⟩
  · cases h

theorem step_tick {cfg : Config} {s s' : Manager} {now : Int}
    (h : step cfg s (.tick now) = some s') :
    s.store.clock ≤ now ∧ s' = { s with store := { s.store with clock := now } } := by
  simp only [step] at h
  split at h
  · rename_i hle
    exact ⟨hle, (Option.some.inj h).symm⟩
  · cases h

end Manager

end Reflowfy
