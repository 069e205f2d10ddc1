import Reflowfy.AsyncUtils
import Reflowfy.BaseDestination

namespace Reflowfy

open AsyncUtils BaseDestination TransformationRunner

-- A header's value: a str in UTF-8, or bytes as they are.
inductive Bytes
  | utf8 (text : String)
  | raw (text : String)
  deriving DecidableEq, Repr

abbrev Headers : Type := List (String × Option Bytes)

structure Message where
  topic : String
  value : String
  headers : Option Headers
  deriving DecidableEq, Repr

-- What a call of `send_one` raises.
inductive CallError
  | KafkaError (error : Thrown)
  | other (error : Thrown)
  deriving DecidableEq, Repr

-- `_check_headers` has made a function or a mapping of str to str of the headers.
structure KafkaDestination where
  topic : String
  key_field : Option String
  concurrency : ℕ
  headers_fn : Option (Value → Except Thrown Value)
  static_headers : Option (List (String × String))
  max_attempts : Int
  -- `check_concurrency`
  concurrency_pos : 1 ≤ concurrency

namespace KafkaDestination

def of_total (index total : ℕ) : String := toString (index + 1) ++ " of " ++ toString total

def header_missing (py : Python) (name : String) (index total : ℕ) (field : List Char) :
    SendError := .ValueError
  ("kafka_destination: header " ++ py.repr name ++ " placeholder \x7b" ++ String.ofList field ++
    "\x7d has no matching field on record " ++ of_total index total)

def fill_header (py : Python) (name template : String) (record : Value) (index total : ℕ) :
    Except SendError String :=
  if '{' ∉ template.toList then .ok template
  else (fun parts => String.ofList parts.flatten) <$> (pieces py.is_word template.toList none).mapM
    (substitute (fun value => (py.str value).toList) (header_missing py name index total) record)

def encode_header (py : Python) (index total : ℕ) : Key × Value →
    Except SendError (String × Option Bytes)
  | (.str name, .str value) => .ok (name, some (.utf8 value))
  | (.str name, .None) => .ok (name, none)
  | (.str name, .bytes value) => .ok (name, some (.raw value))
  | (.str name, value) =>
      .error (.ValueError ("kafka_destination: header " ++ py.repr name ++ " on record " ++
      of_total index total ++ " is " ++ py.type_name value ++
        "; header values must be str, bytes or None"))
  | (key, _) => .error (.ValueError
      ("kafka_destination: header name " ++ py.key_type_name key ++ " on record " ++
      of_total index total ++ "; header names must be str"))

def encode_headers (py : Python) (index total : ℕ) : Value → Except SendError Headers
  | .None => .ok []
  | .dict entries => entries.mapM (encode_header py index total)
  | produced => .error (.ValueError ("kafka_destination: headers function returned " ++
      py.type_name produced ++
      " for record " ++ of_total index total ++ "; expected a mapping or None"))

-- The metadata's own headers.
def base_headers (metadata : List (String × Value)) : Headers :=
  metadata.filterMap fun (k, v) => match v with
    | .str text => some (k, some (.utf8 text))
    | _ => none

-- A record's headers over the base ones of other names.
def merge (base own : Headers) : Headers := base.filter (fun h => h.1 ∉ own.map (·.1)) ++ own

def own_headers (py : Python) (dest : KafkaDestination) (record : Value) (index total : ℕ) :
    Except SendError Headers :=
  match dest.headers_fn with
  | some headers_fn => match headers_fn record with
      | .ok produced => encode_headers py index total produced
      | .error e => .error (.ValueError ("kafka_destination: headers function failed on record " ++
          of_total index total ++
          ": " ++ e.type_name))
  | none => (dest.static_headers.getD []).mapM fun (name, template) => do
      let text ← fill_header py name template record index total
      return (name, some (.utf8 text))

-- `none`: every message gets the base headers.
def build_headers (py : Python) (dest : KafkaDestination) (records : List Value) (base : Headers) :
    Except SendError (Option (List Headers)) :=
  if dest.headers_fn.isNone ∧ dest.static_headers.getD [] = [] then .ok none
  else some <$> records.zipIdx.mapM fun (record, index) => merge base <$>
    own_headers py dest record index records.length

def payload (dest : KafkaDestination) (record : Value) : Value :=
  match dest.key_field, record with
  | some key_field, .dict entries => if key_field = "" then record
      else (entries.lookup (.str key_field)).getD record
  | _, _ => record

-- What `send_one` gives to the producer.
def message (py : Python) (dest : KafkaDestination) (base : Headers)
    (per_record : Option (List Headers)) (index : ℕ) (record : Value) : Except Thrown Message := do
  let value ← py.dumps (dest.payload record)
  let headers := match per_record with
    | some per_record => (per_record[index]?).getD []
    | none => base
  return { topic := dest.topic, value, headers := if headers = [] then none else some headers }

abbrev SendPool : Type := Pool Value Unit CallError Message

def given (index : ℕ) : Event Value Unit CallError Message → Bool
  | .act i _ => i = index
  | _ => false

-- The calls of `send_one` where the broker acknowledges every message: a record that has no
-- message raises before its call waits for anything, the others give their message to the producer,
-- once, and go on after it is acknowledged, or do not after a CancelledError.
def SendsOne (py : Python) (dest : KafkaDestination) (base : Headers)
    (per_record : Option (List Headers)) (s : SendPool)
    (action : Action Unit CallError Message) : Prop :=
  (∀ w index cancelling record error, s.workers[w]? = some (.calling index cancelling) →
    s.items[index]? = some record →
    dest.message py base per_record index record = .error error → action = .fail w (.other error)) ∧
  match action with
  | .act w what => ∃ index record, s.workers[w]? = some (.calling index false) ∧
      s.items[index]? = some record ∧ dest.message py base per_record index record = .ok what ∧
        ¬s.log.any (given index)
  | .finish w _ => ∃ index, s.workers[w]? = some (.calling index false) ∧ s.log.any (given index)
  | .fail w error => ∃ index cancelling record e, s.workers[w]? = some (.calling index cancelling) ∧
      s.items[index]? = some record ∧ dest.message py base per_record index record =
        .error e ∧ error = .other e
  | .swallow _ => False
  | _ => True

-- The messages that the producer was given, with the records they are for.
def writes (log : List (Event Value Unit CallError Message)) : List (ℕ × Message) :=
  log.filterMap fun
    | .act index what => some (index, what)
    | _ => none

-- The `except` clauses of `send`.
def wrap (dest : KafkaDestination) : CallError → SendError
  | .KafkaError e => .DestinationError "kafka"
      ("Failed to send to topic '" ++ dest.topic ++ "': " ++ e.message) e
  | .other e => .DestinationError "kafka" ("Unexpected error: " ++ e.message) e

def result (dest : KafkaDestination) : Caller CallError → Option (Except SendError Unit)
  | .returned => some (.ok ())
  | .raised e => some (.error (dest.wrap e))
  | _ => none

-- A call of `send`, as far as it has come: what was written, and how it has ended. `get_producer`
-- is how `_get_producer` ends.
def Sends (py : Python) (get_producer : Except Thrown Unit) (dest : KafkaDestination)
    (records : List Value) (metadata : List (String × Value)) (written : List (ℕ × Message))
    (out : Option (Except SendError Unit)) : Prop :=
  match get_producer with
  | .error e => written = [] ∧ out = some (.error (.other e))
  | .ok () => match dest.build_headers py records (base_headers metadata) with
      | .error e => written = [] ∧ out = some (.error e)
      | .ok per_record => ∃ s, Interleaving.Reach Pool.step
          (· = for_each_concurrently records dest.concurrency)
          (dest.SendsOne py (base_headers metadata) per_record) s ∧ written = writes s.log ∧
            out = dest.result s.caller

-- `send_with_retry(records, metadata)`, its producer up.
def send_with_retry (py : Python) (dest : KafkaDestination) (records : List Value)
    (metadata : List (String × Value))
    (written : List (ℕ × Message)) (out : Option (Except SendError Unit)) : Prop :=
  ∃ attempts, SendWithRetry (dest.Sends py (.ok ()) records metadata)
    dest.max_attempts 1 attempts out ∧
    written = attempts.flatten

end KafkaDestination

end Reflowfy
