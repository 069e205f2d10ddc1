import Reflowfy.Manager.Programs

namespace Reflowfy.KafkaDispatcher

-- How a `send_and_wait` ends.
inductive Sent
  | acknowledged
  | MessageSizeTooLargeError (text : String)
  | KafkaError (type_name text : String)
  deriving DecidableEq, Repr

inductive Event (J : Type)
  | acquire_token (granted : Bool)
  | send (job : J) (sent : Sent)
  | on_sent (job : J)
  | on_unsendable (job : J) (reason : String)

-- What a batch asks and tells: the rate limiter, the producer and the callbacks, which may go by
-- anything in the world and change it.
structure Peers (σ J : Type) where
  should_stop : Option (Bool → σ → Bool × σ)
  acquire_token : σ → Bool × σ
  send_and_wait : J → σ → Sent × σ
  on_sent : Option (J → σ → σ)
  on_unsendable : Option (J → String → σ → σ)

-- The log is kept for what is said about batches.
structure Batch (σ J : Type) where
  dispatched : ℕ
  world : σ
  log : List (Event J)

variable {σ J : Type}

-- `should_stop and should_stop(...)`.
def Peers.stops (peers : Peers σ J) (chunk : Bool) (world : σ) : Bool × σ :=
  match peers.should_stop with
  | some should_stop => should_stop chunk world
  | none => (false, world)

def Peers.report_sent (peers : Peers σ J) (job : J) (batch : Batch σ J) : Batch σ J :=
  match peers.on_sent with
  | some on_sent =>
      { batch with world := on_sent job batch.world, log := batch.log ++ [.on_sent job] }
  | none => batch

-- The body of the loop, which goes on with the next job or breaks.
def one_job (peers : Peers σ J) (job : J) (batch : Batch σ J) : Batch σ J ⊕ Batch σ J :=
  match peers.stops true batch.world with
  | (true, world) => .inr { batch with world }
  | (false, world) =>
      match peers.acquire_token world with
      | (false, world) => .inr { batch with world, log := batch.log ++ [.acquire_token false] }
      | (true, world) =>
          let log := batch.log ++ [.acquire_token true]
          match peers.stops false world with
          | (true, world) => .inr { batch with world, log }
          | (false, world) =>
              match peers.send_and_wait job world with
              | (.acknowledged, world) =>
                  .inl (peers.report_sent job
                    { dispatched := batch.dispatched + 1, world
                      log := log ++ [.send job .acknowledged] })
              | (.MessageSizeTooLargeError error, world) =>
                  let log := log ++ [.send job (.MessageSizeTooLargeError error)]
                  match peers.on_unsendable with
                  | some on_unsendable =>
                      .inl { batch with
                        world := on_unsendable job (unsendableReason error) world
                        log := log ++ [.on_unsendable job (unsendableReason error)] }
                  | none => .inr { batch with world, log }
              | (.KafkaError type_name text, world) =>
                  .inr { batch with world, log := log ++ [.send job (.KafkaError type_name text)] }

def all_jobs (peers : Peers σ J) : List J → Batch σ J → Batch σ J
  | [], batch => batch
  | job :: jobs, batch =>
      match one_job peers job batch with
      | .inl batch => all_jobs peers jobs batch
      | .inr batch => batch

-- `get_producer` tells how `_get_producer` ends, which comes before the first job.
def dispatch_jobs_batch {ε : Type} (get_producer : Except ε σ) (peers : Peers σ J) (jobs : List J) :
    Except ε (Batch σ J) := do
  let world ← get_producer
  return all_jobs peers jobs { dispatched := 0, world, log := [] }

section SendJobs

-- What the callbacks of `_send_jobs` go by: the clock, the driver's lease, the execution's state
-- and the job rows.
structure Runner (σ J : Type) where
  time : σ → Int × σ
  heartbeat_driver : σ → Bool × σ
  is_running : σ → Bool × σ
  mark_job_dispatched : J → σ → σ
  update_job_state_failed : J → String → σ → σ

-- `started`, `last_check` and `stop`.
structure Locals where
  started : Int
  last_check : Int
  stop : Bool

def should_stop (runner : Runner σ J) (chunk : Bool) : Locals × σ → Bool × Locals × σ
  | (locals, world) =>
      match runner.time world with
      | (now, world) =>
          if chunk ∧ DISPATCH_CHUNK_SECONDS ≤ now - locals.started then (true, locals, world)
          else if second ≤ now - locals.last_check then
            match runner.heartbeat_driver world with
            | (false, world) => (true, { locals with last_check := now, stop := true }, world)
            | (true, world) =>
                match runner.is_running world with
                | (running, world) =>
                    (!running, { locals with last_check := now, stop := !running }, world)
          else (locals.stop, locals, world)

-- The callbacks of `_send_jobs`, beside the rate limiter and the producer.
def Runner.peers (runner : Runner σ J) (acquire_token : σ → Bool × σ)
    (send_and_wait : J → σ → Sent × σ) :
    Peers (Locals × σ) J where
  should_stop := some (should_stop runner)
  acquire_token := fun (locals, world) => let (granted, world) := acquire_token world;
    (granted, locals, world)
  send_and_wait := fun job (locals, world) => let (sent, world) := send_and_wait job world;
    (sent, locals, world)
  on_sent := some fun job (locals, world) => (locals, runner.mark_job_dispatched job world)
  on_unsendable := some fun job reason (locals, world) =>
    (locals, runner.update_job_state_failed job reason world)

def send_jobs {ε : Type} (get_producer : σ → Except ε σ) (acquire_token : σ → Bool × σ)
    (send_and_wait : J → σ → Sent × σ) (runner : Runner σ J) (jobs : List J) (world : σ) :
    Except ε (Batch (Locals × σ) J) :=
  match runner.time world with
  | (started, world) =>
      dispatch_jobs_batch ((⟨started, 0, false⟩, ·) <$> get_producer world)
        (runner.peers acquire_token send_and_wait) jobs

end SendJobs

end Reflowfy.KafkaDispatcher
