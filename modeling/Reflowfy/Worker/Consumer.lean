import Reflowfy.Models
import Reflowfy.Value

namespace Reflowfy

-- How a write of `_update_job_in_db` ended.
inductive ReportReply
  | rowcount (n : ℕ)
  -- a database error, which is logged
  | error
  -- the session cannot be opened or rolled back
  | raised
  deriving DecidableEq, Repr

-- How the claim of `_claim_job` ended.
inductive ClaimReply
  | claimed
  | found (state : Option JobState)
  | error
  deriving DecidableEq, Repr

-- What came between the claim and the report of the result.
inductive JobRun
  | returned (success : Bool)
  | raised
  -- SystemExit, or the task is cancelled
  | shutdown
  deriving DecidableEq, Repr

-- What the outside world does during one call of `execute_job`. `unusable`: the message makes
-- it raise before the job is claimed (its metadata are no dict).
structure JobCall where
  unusable : Bool
  claim : ClaimReply
  run : JobRun
  report : ReportReply
  failure_report : ReportReply
  deriving DecidableEq, Repr

-- What a call of `execute_job` came to.
inductive Executed
  -- the claim was refused, and the job left alone
  | blocked
  | returned (success recorded : Bool)
  | raised
  | shutdown
  deriving DecidableEq, Repr

namespace WorkerExecutor

-- `_claim_job`: the state that blocks the job. It fails open.
def claim_job : ClaimReply → Option JobState
  | .claimed => none
  | .found state => state
  | .error => none

-- A statement that finds no row of the job is rolled back.
def recorded : ReportReply → Bool
  | .rowcount n => n ≠ 0
  | _ => false

-- The handler of `except Exception`.
def report_failure (call : JobCall) : Executed :=
  match call.failure_report with
  | .raised => .raised
  | reply => .returned false (recorded reply)

def execute_job (call : JobCall) : Executed :=
  if call.unusable then .raised
  else
    match claim_job call.claim with
    | some _ => .blocked
    | none =>
        match call.run with
        | .shutdown => .shutdown
        | .raised => report_failure call
        | .returned success =>
            match call.report with
            | .raised => report_failure call
            | reply => .returned success (recorded reply)

end WorkerExecutor

-- How `consumer.commit()` ended.
inductive CommitReply
  | ok
  | CommitFailedError
  | error
  deriving DecidableEq, Repr

-- A consumer of one partition. Offsets are counted from where it began; `settled` is kept for
-- the statements about it and read by no step: for each message taken, whether it carried no
-- job, was blocked by the claim, or has its outcome recorded.
structure Consumer where
  position : ℕ
  committed : ℕ
  running : Bool
  settled : List Bool
  deriving DecidableEq, Repr

namespace Consumer

-- What `json.loads(value.decode("utf-8"))` comes to. `other`: an exception of another class
-- (ValueError of an integer with too many digits, RecursionError of a value nested too deep).
inductive Loaded
  | value (job_payload : Value)
  | UnicodeDecodeError
  | JSONDecodeError
  | other

-- What `_process_message` reads in the value of a message. `unreadable`: the exception is not
-- one that makes it an `_InvalidPayload`.
inductive Decoded
  | empty
  | invalid
  | unreadable
  | bad_schema
  | job (job_payload : List (Key × Value))

def start : Consumer := ⟨0, 0, true, []⟩

-- `version != 2`.
def supported : Option Value → Bool
  | some (.int n) => n = 2
  | some (.float text) => text = "2.0"
  | _ => false

def decode (loads : ByteArray → Loaded) : Option ByteArray → Decoded
  | none => .empty
  | some value =>
      match loads value with
      | .value (.dict job_payload) =>
          if supported (job_payload.lookup (.str "schema_version")) then .job job_payload
          else .bad_schema
      | .value _ | .UnicodeDecodeError | .JSONDecodeError => .invalid
      | .other => .unreadable

-- `getmany` gives the next message.
def take (c : Consumer) (settled : Bool) : Consumer :=
  { c with position := c.position + 1, settled := c.settled ++ [settled] }

-- A commit inside the `try`: its errors are logged.
def commit (c : Consumer) : CommitReply → Consumer
  | .ok => { c with committed := c.position }
  | _ => c

-- The commit in the handler of `_InvalidPayload`, where an error ends the loop.
def commit_invalid (c : Consumer) : CommitReply → Consumer
  | .ok => { c with committed := c.position }
  | _ => { c with running := false }

def process_message (loads : ByteArray → Loaded) (c : Consumer) (value : Option ByteArray)
    (call : JobCall) (reply : CommitReply) : Consumer :=
  match decode loads value with
  | .empty | .bad_schema => (c.take true).commit reply
  | .invalid => (c.take true).commit_invalid reply
  -- logged by `except Exception`, and not committed; it is malformed all the same
  | .unreadable => c.take true
  | .job _ =>
      match WorkerExecutor.execute_job call with
      | .blocked => (c.take true).commit reply
      | .returned _ recorded => (c.take recorded).commit reply
      | .raised => c.take false
      | .shutdown => { c.take false with running := false }

-- The loop of `_consume_until_stopped` over the messages of the partition.
def consume (loads : ByteArray → Loaded) (c : Consumer) :
    List ((Option ByteArray × JobCall) × CommitReply) → Consumer
  | [] => c
  | ((value, call), reply) :: messages =>
      if c.running then consume loads (process_message loads c value call reply) messages else c

end Consumer

end Reflowfy
