import Reflowfy.ParameterResolver
import Reflowfy.Sources.Footprint

namespace Reflowfy.IDBasedAPISource

-- `config` as the constructor leaves it.
structure Config where
  base_url : String
  endpoint_template : String
  ids : List Value
  method : String
  headers : List (String × String)
  auth_type : Option String
  auth_token : Option String
  batch_size : ℕ
  timeout : String
  response_key : Option String
  body : Value
  params : List (String × Value)
  health_check_enabled : Bool
  deriving Repr

-- The dict itself.
def config (c : Config) : Value :=
  .dict [(.str "base_url", .str c.base_url), (.str "endpoint_template", .str c.endpoint_template),
    (.str "ids", .list c.ids),
    (.str "method", .str c.method),
      (.str "headers", .dict (c.headers.map fun (k, v) => (.str k, .str v))),
    (.str "auth_type", optional c.auth_type), (.str "auth_token", optional c.auth_token),
      (.str "batch_size", .int c.batch_size),
    (.str "timeout", .float c.timeout), (.str "response_key", optional c.response_key),
      (.str "body", c.body),
    (.str "params", .dict (c.params.map fun (k, v) => (.str k, v))),
      (.str "health_check_enabled", .bool c.health_check_enabled)]

structure Client where
  base_url : String
  headers : List (String × String)
  timeout : String
  deriving DecidableEq, Repr

-- The body of a request: none, one sent as it is, or one sent as JSON.
inductive Body
  | none
  | content (value : Value)
  | json (value : Value)
  deriving Repr

structure Request where
  client : Client
  method : String
  endpoint : String
  body : Body
  params : List (String × Value)
  deriving Repr

inductive Reply
  | response (status_code : ℕ) (text : String) (json : Except Raised Value)
  | RequestError (message : String)

-- The service, with `str.format`, `str` and `b64encode`.
structure Service where
  format : String → Value → Except Raised String
  str : Value → String
  b64encode : String → String
  request : Request → Reply

-- `result[name] = value`.
def set_header (headers : List (String × String)) (name value : String) : List (String × String) :=
  if headers.any (·.1 = name) then headers.map fun (k, v) => if k = name then (k, value) else (k, v)
  else headers ++ [(name, value)]

section Fetch

variable (service : Service)

def build_auth_headers (headers : List (String × String)) (auth_type auth_token : Option String) :
    List (String × String) :=
  match auth_token.filter (· ≠ "") with
  | none => headers
  | some token =>
      if auth_type = some "bearer" then set_header headers "Authorization" ("Bearer " ++ token)
      else if auth_type = some "apikey" then set_header headers "X-API-Key" token
      else if auth_type = some "basic" then set_header headers "Authorization"
        ("Basic " ++ service.b64encode token)
      else headers

def is_per_id_mode (c : Config) : Bool := "\x7bid\x7d".toList <:+: c.endpoint_template.toList

def get_client (c : Config) : Client :=
  ⟨c.base_url, build_auth_headers service c.headers c.auth_type c.auth_token, c.timeout⟩

-- The items of a param that `for` or a slice goes through.
def items_of : Value → Except Raised (List Value)
  | .list items | .tuple items => .ok items
  | .str text => .ok (text.toList.map fun c => .str (String.singleton c))
  | _ => .error (.other "TypeError")

def get_all_ids (c : Config) (runtime_params : Params) : Except Raised (List Value) :=
  if c.ids.isEmpty then
    match (runtime_params "input_ids").filter Value.truthy with
    | some input_ids => items_of input_ids
    | none => ((runtime_params "ids").map items_of).getD (.ok [])
  else .ok c.ids

-- `result.get(key, [])` along the keys.
def follow : List String → Value → Value
  | [], result => result
  | key :: keys, .dict entries => follow keys ((entries.lookup (.str key)).getD (.list []))
  | _ :: _, _ => .list []

def extract_records (c : Config) (data : Value) : List Value :=
  match c.response_key.filter (· ≠ "") with
  | none => match data with
    | .list items => items
    | _ => []
  | some response_key => match follow (response_key.splitOn ".") data with
    | .list items => items
    | result => [result]

def wrap_as_record (item : Value) : Value := .dict [(.str "data", item)]

-- How a body is given to `client.request`.
def sent_body : Value → Body
  | .None => .none
  | .str text => .content (.str text)
  | .bytes text => .content (.bytes text)
  | body => .json body

-- `v.format(id=id_value) if isinstance(v, str) else v`.
def format_entry (id_value : Value) : Key × Value → Except Raised (Key × Value)
  | (k, .str text) => do pure (k, .str (← service.format text id_value))
  | (k, v) => .ok (k, v)

def body_by_id (c : Config) (id_value : Value) : Except Raised Value :=
  if c.method = "GET" ∨ c.method = "HEAD" then .ok .None
  else match c.body with
    | .dict entries => .dict <$> entries.mapM (format_entry service id_value)
    | body => .ok body

def fetch_by_id (c : Config) (id_value : Value) : Except Raised (Option Value) := do
  let endpoint ← service.format c.endpoint_template id_value
  let body ← body_by_id service c id_value
  match service.request ⟨get_client service c, c.method, endpoint, sent_body body, c.params⟩ with
  | .RequestError e =>
      throw (.SourceError "id_based_api"
        ("Request failed for id " ++ service.str id_value ++ ": " ++ e))
  | .response status_code text json =>
      if status_code = 404 then pure none
      else if 200 ≤ status_code ∧ status_code < 300 then some <$> json
      else throw (.SourceError "id_based_api"
        (s!"HTTP {status_code} for id " ++ service.str id_value ++ ": " ++
          String.ofList (text.toList.take 200)))

def fetch_batch (c : Config) : Except Raised (List Value) :=
  match service.request ⟨get_client service c, c.method, c.endpoint_template,
      sent_body c.body, c.params⟩ with
  | .RequestError e => .error (.SourceError "id_based_api" ("Request failed: " ++ e))
  | .response status_code text json =>
      if 200 ≤ status_code ∧ status_code < 300 then
        (fun data => (extract_records c data).map wrap_as_record) <$> json
      else .error (.SourceError "id_based_api" (s!"HTTP {status_code}: " ++ text))

-- `if record: records.append(wrap_as_record(record))`.
def id_records (record : Option Value) : List Value :=
  ((record.filter Value.truthy).map wrap_as_record).toList

-- The loop of `fetch` in per-ID mode.
def fetch_ids (c : Config) : List Value → Except Raised (List Value)
  | [] => .ok []
  | id_value :: ids => do
      let record ← fetch_by_id service c id_value
      let records ← fetch_ids c ids
      pure (id_records record ++ records)

variable (render : Params → String → Except TemplateError String)

def fetch (c : Config) (runtime_params : Params) (limit : Option ℕ) :
    Except Raised (List Value) := do
  let _ ← ParameterResolver.resolve_value (render runtime_params) (config c)
  let ids ← get_all_ids c runtime_params
  let ids := match limit with
    | some n => if n = 0 then ids else ids.take n
    | none => ids
  if is_per_id_mode c then fetch_ids service c ids else fetch_batch service c

def split (c : Config) (runtime_params : Params) : Except Raised (List Config) :=
  if is_per_id_mode c then do
    let ids ← get_all_ids c runtime_params
    if c.batch_size = 0 then throw (.ValueError "range() arg 3 must not be zero")
    pure ((Paging.slices c.batch_size ids).map fun ids => { c with ids })
  else .ok [c]

def kind : SourceKind Config where
  split := split
  fetch c runtime_params := fetch service render c runtime_params none

end Fetch

section Split

open Paging (Delivers)

variable {service : Service} {render : Params → String → Except TemplateError String}
    {c : Config} {params : Params}
  {records : List Value}

theorem fetch_ids_iff {ids : List Value} : fetch_ids service c ids = .ok records ↔
    Delivers (fun id_value part => ∃ record, fetch_by_id service c id_value = .ok record ∧
      id_records record = part) ids
      records := by
  induction ids generalizing records with
  | nil => simp [fetch_ids, Paging.delivers_nil_iff, eq_comm]
  | cons id_value ids ih =>
      simp only [fetch_ids, Paging.bind_eq_ok, Paging.delivers_cons_iff, ← ih, pure,
        Except.pure, Except.ok.injEq]
      constructor
      · rintro ⟨record, hrecord, rest, hrest, rfl⟩
        exact ⟨_, rest, ⟨record, hrecord, rfl⟩, hrest, rfl⟩
      · rintro ⟨_, rest, ⟨record, hrecord, rfl⟩, hrest, rfl⟩
        exact ⟨record, hrecord, rest, hrest, rfl⟩

theorem fetch_iff (hrender : ∀ v, ∃ v', ParameterResolver.resolve_value
    (render params) v = .ok v') :
    fetch service render c params none = .ok records ↔ ∃ ids, get_all_ids c params = .ok ids ∧
      (if is_per_id_mode c then fetch_ids service c ids
        else fetch_batch service c) = .ok records := by
  obtain ⟨v', hv⟩ := hrender (config c)
  have hfetch : fetch service render c params none = get_all_ids c params >>= fun ids =>
      if is_per_id_mode c then fetch_ids service c ids else fetch_batch service c := by
    rw [fetch, hv]
    rfl
  rw [hfetch, Paging.bind_eq_ok]

-- A child has IDs of its own.
theorem fetch_child_iff
    (hrender : ∀ v, ∃ v', ParameterResolver.resolve_value (render params) v = .ok v')
    (hmode : is_per_id_mode c) {ids : List Value} (hids : ids ≠ []) :
    fetch service render { c with ids } params none = .ok records ↔
      Delivers (fun id_value part => ∃ record, fetch_by_id service c id_value = .ok record ∧
        id_records record = part) ids
        records := by
  have hall : get_all_ids { c with ids } params = .ok ids := by simp [get_all_ids, hids]
  have hchild : is_per_id_mode { c with ids } := hmode
  rw [fetch_iff hrender]
  simp only [hall, hchild, if_true, Except.ok.injEq, exists_eq_left', fetch_ids_iff]
  rfl

-- Where the templates render, the children fetch what the source would.
theorem split_faithful
    (hrender : ∀ params v, ∃ v', ParameterResolver.resolve_value (render params) v = .ok v')
    (hsize : 0 < c.batch_size) : (kind service render).Faithful c := by
  intro params records
  show (∃ jobs, split c params = .ok jobs ∧
    Delivers (fun job part => fetch service render job params none = .ok part) jobs
    records) ↔ fetch service render c params none = .ok records
  by_cases hmode : is_per_id_mode c
  · have hsplit : split c params = get_all_ids c params >>= fun ids =>
        .ok ((Paging.slices c.batch_size ids).map fun ids => { c with ids }) := by
      simp [split, hmode, hsize.ne']
      rfl
    have hjobs : ∀ ids, Delivers (fun job part => fetch service render job params none = .ok part)
        ((Paging.slices c.batch_size ids).map fun ids => { c with ids }) records ↔
            fetch_ids service c ids = .ok records := by
      intro ids
      rw [Paging.delivers_map_iff, Paging.delivers_congr fun part hpart _ =>
        fetch_child_iff (hrender params) hmode (Paging.mem_slices_ne_nil hsize part hpart)]
      rw [Paging.delivers_join, List.flatMap_id', Paging.slices_flatten hsize, fetch_ids_iff]
    rw [hsplit, fetch_iff (hrender params)]
    simp only [hmode, if_true]
    constructor
    · rintro ⟨_, hjobs', hdeliver⟩
      obtain ⟨ids, hids, hplan⟩ := Paging.bind_eq_ok.mp hjobs'
      rw [← Except.ok.inj hplan] at hdeliver
      exact ⟨ids, hids, (hjobs ids).mp hdeliver⟩
    · rintro ⟨ids, hids, hfetch⟩
      exact ⟨_, Paging.bind_eq_ok.mpr ⟨ids, hids, rfl⟩, (hjobs ids).mpr hfetch⟩
  · simp [split, hmode, Paging.delivers_cons_iff, Paging.delivers_nil_iff]

end Split

end Reflowfy.IDBasedAPISource
