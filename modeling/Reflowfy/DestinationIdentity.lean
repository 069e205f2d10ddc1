import Reflowfy.Value
import Mathlib.Data.List.Infix

namespace Reflowfy

-- `str(key)`.
def Key.text : Key → String
  | .None => "None"
  | .bool b => if b then "True" else "False"
  | .int n => toString n
  | .float text => text
  | .str s => s
  | .other text => text

def SECRET_MARKERS : List String := ["password", "secret", "token", "credential", "auth", "apikey"]

-- `lower()` as far as it gives ASCII letters; the Kelvin sign gives a k.
def lower (c : Char) : Char := if c = Char.ofNat 0x212a then 'k' else c.toLower

-- The key lowercased, without "-" and "_".
def Key.normalized (key : Key) : List Char :=
  (key.text.toList.map lower).filter fun c => c ≠ '-' ∧ c ≠ '_'

def is_secret_key (key : Key) : Bool := SECRET_MARKERS.any fun m => m.toList <:+: key.normalized

-- `_strip_secrets`; a tuple is left as it is.
mutual

def strip_secrets (is_secret : Key → Bool) : Value → Value
  | .dict entries => .dict (strip_entries is_secret entries)
  | .list items => .list (strip_items is_secret items)
  | .None => .None
  | .bool b => .bool b
  | .int n => .int n
  | .float text => .float text
  | .str s => .str s
  | .bytes text => .bytes text
  | .tuple items => .tuple items
  | .object attributes => .object attributes
  | .other text => .other text

def strip_items (is_secret : Key → Bool) : List Value → List Value
  | [] => []
  | item :: items => strip_secrets is_secret item :: strip_items is_secret items

def strip_entries (is_secret : Key → Bool) : Entries → Entries
  | [] => []
  | (k, v) :: entries =>
      if is_secret k then strip_entries is_secret entries
      else (k, strip_secrets is_secret v) :: strip_entries is_secret entries

end

namespace Entries

-- `entries.get(k)`.
def get (entries : Entries) (k : String) : Value := (entries.lookup (.str k)).getD .None

-- `entries.pop(k, None)`.
def pop (entries : Entries) (k : String) : Entries := entries.filter (·.1 ≠ .str k)

-- `entries[k] = v`.
def set (entries : Entries) (k : String) (v : Value) : Entries :=
  if (entries.lookup (.str k)).isSome then entries.map fun entry => if entry.1 = .str k then
    (entry.1, v) else entry
  else entries ++ [(.str k, v)]

end Entries

-- `value is None`.
def Value.isNone : Value → Bool
  | .None => true
  | _ => false

-- The settings of an `ApiDestination`.
structure ApiConfig where
  url : Value
  method : Value
  headers : Value
  auth_type : Value
  auth_token : Value
  timeout : Value
  params : Value
  body : Value
  health_check_enabled : Value
  per_record : Bool
  body_field : Option String
  concurrency : ℤ
  params_field : Option String

-- The dict that `__init__` makes of them.
def ApiConfig.config (c : ApiConfig) : Entries :=
  [(.str "url", c.url), (.str "method", c.method), (.str "headers", c.headers),
    (.str "auth_type", c.auth_type),
    (.str "auth_token", c.auth_token), (.str "timeout", c.timeout), (.str "params", c.params),
      (.str "body", c.body),
    (.str "health_check_enabled", c.health_check_enabled), (.str "per_record", .bool c.per_record),
    (.str "body_field", optional c.body_field), (.str "concurrency", .int c.concurrency),
    (.str "params_field", optional c.params_field)]

inductive Kind
  | api (config : ApiConfig)
  | kafka (config : Entries)
  | other (config : Entries)

structure Destination where
  type_name : String
  kind : Kind
  -- `.None`: not declared
  dedup_identity : Value

namespace Destination

def config (d : Destination) : Entries :=
  match d.kind with
  | .api c => c.config
  | .kafka config | .other config => config

-- `ApiDestination.identity_config`.
def api_identity_config (config : Entries) : Entries :=
  let identity : Entries := config.filter (·.1 ≠ .str "concurrency")
  let identity : Entries := if (identity.get "per_record").truthy then identity
    else identity.pop "per_record"
  let body_field := identity.get "body_field"
  let identity : Entries := identity.pop "body_field"
  let identity : Entries := if body_field.isNone then identity
    else identity.set "key_field" body_field
  if (identity.get "params_field").isNone then identity.pop "params_field" else identity

-- `KafkaDestination.identity_config`.
def kafka_identity_config (config : Entries) : Entries :=
  config.filter fun entry => entry.1 ≠ .str "concurrency" ∧ entry.1 ≠ .str "headers"

def identity_config (d : Destination) : Entries :=
  match d.kind with
  | .api c => api_identity_config c.config
  | .kafka config => kafka_identity_config config
  | .other config => config

-- `_identity`.
def identity (is_secret : Key → Bool) (d : Destination) : Value :=
  if d.dedup_identity.isNone then
    .dict [(.str "type", .str d.type_name),
      (.str "config", strip_secrets is_secret (.dict d.identity_config))]
  else .dict [(.str "type", .str d.type_name),
    (.str "identity", strip_secrets is_secret d.dedup_identity)]

def destination_identity (d : Destination) : Value := d.identity is_secret_key

end Destination

end Reflowfy
