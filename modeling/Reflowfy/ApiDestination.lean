import Reflowfy.AsyncUtils.Acts
import Reflowfy.DestinationIdentity
import Reflowfy.BaseDestination
import Reflowfy.Uri.Encoding

namespace Reflowfy

open AsyncUtils BaseDestination TransformationRunner

-- What `__init__` is given, as far as it checks it or `send` reads it.
structure ApiArguments where
  url : String
  method : String
  params : Option (List (String × Value))
  body : Value
  per_record : Bool
  concurrency : Value
  params_field : Option String
  body_field : Option String
  max_attempts : Int

structure ApiDestination where
  url : String
  method : String
  params : Option (List (String × Value))
  body : Value
  per_record : Bool
  concurrency : ℕ
  params_field : Option String
  body_field : Option String
  max_attempts : Int
  concurrency_pos : 1 ≤ concurrency
  single : per_record = false → concurrency = 1 ∧ body_field = none ∧ params_field = none
  body_none : per_record = true → body.isNone = true
  differ : params_field ≠ none → params_field ≠ body_field

def check_concurrency (destination_type : String) : Value → Except String { n : ℕ // 1 ≤ n }
  | .int n =>
      if h : n < 1 then .error (destination_type ++ ": concurrency must be an integer >= 1")
      else .ok ⟨n.toNat, Int.toNat_le_toNat (Int.not_lt.mp h)⟩
  | _ => .error (destination_type ++ ": concurrency must be an integer >= 1")

namespace ApiDestination

-- How `client.request` is given a body: not at all, as it is, or as JSON.
inductive Content
  | empty
  | raw (body : Value)
  | json (body : Value)
  deriving Repr

structure Request where
  method : String
  url : String
  params : Option (List (String × Value))
  content : Content
  deriving Repr

-- How `client.request` and `raise_for_status` end.
inductive Response
  | ok
  | HTTPStatusError (status_code : ℕ) (text : String) (error : Thrown)
  | RequestError (error : Thrown)
  | other (error : Thrown)

-- `__init__`; `upper` is `str.upper`.
def init (upper : String → String) (args : ApiArguments) : Except String ApiDestination :=
  match check_concurrency "api_destination" args.concurrency with
  | .error message => .error message
  | .ok ⟨concurrency, hpos⟩ =>
      if hsingle : concurrency > 1 ∧ args.per_record = false then
        .error ("api_destination: concurrency= requires per_record=True " ++
          "(without it a job is a single request)")
      else if hbody : args.per_record = true ∧ args.body.isNone = false then
        .error ("api_destination: per_record=True sends each record as the body; " ++
          "do not pass body= as well")
      else if hbody_field : args.body_field ≠ none ∧ args.per_record = false then
        .error "api_destination: body_field= requires per_record=True"
      else if hparams_field : args.params_field ≠ none ∧ args.per_record = false then
        .error "api_destination: params_field= requires per_record=True"
      else if hdiffer : args.params_field ≠ none ∧ args.params_field = args.body_field then
        .error "api_destination: params_field= and body_field= must differ"
      else .ok
        { url := args.url, method := upper args.method, params := args.params, body := args.body,
          per_record := args.per_record, concurrency, params_field := args.params_field,
            body_field := args.body_field,
          max_attempts := args.max_attempts, concurrency_pos := hpos
          single := fun hfalse => ⟨by
              by_contra hmany
              exact hsingle ⟨by omega, hfalse⟩,
            by_contra fun h => hbody_field ⟨h, hfalse⟩, by_contra fun h =>
              hparams_field ⟨h, hfalse⟩⟩
          body_none := fun htrue => by
            cases hnone : args.body.isNone with
            | true => rfl
            | false => exact absurd ⟨htrue, hnone⟩ hbody
          differ := fun hsome heq => hdiffer ⟨hsome, heq⟩ }

-- The bytes that `urllib.parse.quote` leaves as they are.
def unreserved (b : UInt8) : Bool :=
  (48 ≤ b.toNat && b.toNat ≤ 57) || (65 ≤ b.toNat && b.toNat ≤ 90) ||
    (97 ≤ b.toNat && b.toNat ≤ 122) ||
    [45, 46, 95, 126].contains b.toNat

-- `quote(text, safe="")`.
def quote (text : String) : List Char := Uri.encode unreserved (Uri.bytes text.toList)

def url_missing (index : ℕ) (field : List Char) : SendError := .ValueError
  ("api_destination: url placeholder \x7b" ++ String.ofList field ++
    "\x7d has no matching field on record " ++
    toString (index + 1))

def record_url (py : Python) (dest : ApiDestination) (record : Value) (index : ℕ) :
    Except SendError String :=
  if '{' ∉ dest.url.toList then .ok dest.url
  else (fun parts => String.ofList parts.flatten) <$> (pieces py.is_word dest.url.toList none).mapM
    (substitute (fun value => quote (py.str value)) (url_missing index) record)

def param_missing (py : Python) (name : String) (index : ℕ) (field : List Char) :
    SendError := .ValueError
  ("api_destination: params[" ++ py.repr name ++ "] placeholder \x7b" ++ String.ofList field ++
    "\x7d has no matching field on record " ++ toString (index + 1))

-- `_fill_param`; a placeholder alone keeps the value's type.
def fill_param (py : Python) (name : String) (record : Value) (index : ℕ) : Value →
    Except SendError Value
  | .str text =>
      if '{' ∉ text.toList then .ok (.str text)
      else match pieces py.is_word text.toList none with
        | [.field field] => match (fields record).lookup (.str (String.ofList field)) with
            | some value => .ok value
            | none => .error (param_missing py name index field)
        | pieces => (fun parts => .str (String.ofList parts.flatten)) <$> pieces.mapM
            (substitute (fun value => (py.str value).toList) (param_missing py name index) record)
  | value => .ok value

-- `merged.pop(name, None)`, or `merged[name] = value`.
def merge_param (merged : List (String × Value)) : Key × Value → List (String × Value)
  | (name, .None) => merged.filter (·.1 ≠ name.text)
  | (name, value) =>
      if merged.any (·.1 = name.text) then merged.map fun entry => if entry.1 = name.text then
        (entry.1, value) else entry
      else merged ++ [(name.text, value)]

-- The record's own dict of parameters, over the others.
def own_params (py : Python) (dest : ApiDestination) (record : Value) (index : ℕ)
    (params : Option (List (String × Value))) :
    Except SendError (Option (List (String × Value))) :=
  match dest.params_field with
  | none => .ok params
  | some params_field =>
      if params_field = "" then .ok params
      else match (fields record).lookup (.str params_field) with
        | none => .ok params
        | some .None => .ok params
        | some (.dict own) => .ok (some (own.foldl merge_param (params.getD [])))
        | some own => .error (.ValueError
            ("api_destination: params_field " ++ py.repr params_field ++ " on record " ++
            toString (index + 1) ++ " must be a dict of query parameters, got " ++
              py.type_name own))

-- `params` with its placeholders filled.
def static_params (py : Python) (dest : ApiDestination) (record : Value) (index : ℕ) :
    Except SendError (Option (List (String × Value))) :=
  match dest.params with
  | none => .ok none
  | some static => some <$> static.mapM fun (name, value) => (name, ·) <$>
      fill_param py name record index value

def record_params (py : Python) (dest : ApiDestination) (record : Value) (index : ℕ) :
    Except SendError (Option (List (String × Value))) :=
  static_params py dest record index >>= own_params py dest record index

-- What of a record is sent as the body.
def payload (dest : ApiDestination) (record : Value) : Value :=
  match record with
  | .dict entries =>
      let body : Option Value := match dest.body_field with
        | some body_field => if body_field = "" then none else entries.lookup (Key.str body_field)
        | none => none
      match body, dest.params_field with
      | some value, _ => value
      | none, some params_field =>
          if params_field = "" then record else .dict (Entries.pop entries params_field)
      | none, none => record
  | _ => record

def content : Value → Content
  | .None => .empty
  | .str text => .raw (.str text)
  | .bytes text => .raw (.bytes text)
  | body => .json body

-- What `send_one` gives to the client, or raises before; `get_client` is how `_get_client` ends.
def record_request (py : Python) (get_client : Except Thrown Unit) (dest : ApiDestination)
    (index : ℕ) (record : Value) :
    Except SendError Request := do
  let url ← record_url py dest record index
  let params ← record_params py dest record index
  get_client.mapError .other
  return { method := dest.method, url, params, content := content (dest.payload record) }

def single_request (dest : ApiDestination) : Request where
  method := dest.method
  url := dest.url
  params := dest.params
  content := content dest.body

-- What `_request` makes of an answer; the last argument says for which record.
def response_error (reason : String → String) : Response → Option SendError
  | .ok => none
  | .HTTPStatusError status_code text error =>
      some (.DestinationError "api"
        (reason ("HTTP " ++ toString status_code ++ ": " ++ text)) error)
  | .RequestError error =>
      some (.DestinationError "api" (reason ("Request failed: " ++ error.message)) error)
  | .other error => some (.DestinationError "api"
      (reason ("Unexpected error: " ++ error.message)) error)

def of_record (index total : ℕ) (reason : String) : String :=
  "record " ++ toString (index + 1) ++ " of " ++ toString total ++ ": " ++ reason

-- The errors of a call whose request was made.
def refused (total index : ℕ) (error : SendError) : Prop :=
  ∃ response, response_error (of_record index total) response = some error

abbrev RequestPool : Type := Pool Value Unit SendError Request

def result : Caller SendError → Option (Except SendError Unit)
  | .returned => some (.ok ())
  | .raised error => some (.error error)
  | _ => none

-- A call of `send`, as far as it has come: the requests it made, each for a record or for
-- none, and how it has ended.
inductive Sends (py : Python) (get_client : Except Thrown Unit) (dest : ApiDestination)
    (records : List Value) :
    List (Option ℕ × Request) → Option (Except SendError Unit) → Prop
  | unable (h : dest.per_record = false) {error : Thrown} (hclient : get_client = .error error) :
      Sends py get_client dest records [] (some (.error (.other error)))
  | asked (h : dest.per_record = false) (hclient : get_client = .ok ()) :
      Sends py get_client dest records [(none, dest.single_request)] none
  | answered (h : dest.per_record = false) (hclient : get_client = .ok ()) (response : Response) :
      Sends py get_client dest records [(none, dest.single_request)]
          (some (match response_error id response with
        | none => .ok ()
        | some error => .error error))
  | per_record (h : dest.per_record = true) {s : RequestPool}
      (hr : Interleaving.Reach Pool.step (· = for_each_concurrently records dest.concurrency)
        (ActsAtOnce (record_request py get_client dest) (refused records.length)) s) :
      Sends py get_client dest records
        ((acts s.log).map fun made => (some made.1, made.2)) (result s.caller)

-- The requests of each attempt, and how it has ended.
def send_with_retry (py : Python) (get_client : Except Thrown Unit) (dest : ApiDestination)
    (records : List Value) :
    List (List (Option ℕ × Request)) → Option (Except SendError Unit) → Prop :=
  SendWithRetry (Sends py get_client dest records) dest.max_attempts 1

-- The URL that `health_check` asks: the template up to its first placeholder.
def health_url (dest : ApiDestination) : String :=
  String.ofList (dest.url.toList.takeWhile (· ≠ '{'))

end ApiDestination

end Reflowfy
