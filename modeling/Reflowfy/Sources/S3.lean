import Reflowfy.Paging.Loop
import Reflowfy.Sources.Base

namespace Reflowfy

open Paging

namespace S3Source

-- An object as the service lists it.
structure Obj where
  Key : String
  Size : ℕ
  LastModified : String
  ETag : String
  deriving DecidableEq, Repr

-- The configuration; only a planned source has keys.
structure Config where
  bucket : String
  Prefix : String
  file_pattern : Option String
  page_size : ℕ
  read_content : Bool
  content_type : String
  aws_access_key_id : Option String
  aws_secret_access_key : Option String
  region_name : String
  endpoint_url : Option String
  keys : List String
  deriving DecidableEq, Repr

def resolve_parameters (render : String → Except TemplateError String) (config : Config) :
    Except Raised Config := do
  let resolve := ParameterResolver.resolve render
  let bucket ← resolve config.bucket
  let Prefix ← resolve config.Prefix
  let file_pattern ← config.file_pattern.mapM resolve
  let content_type ← resolve config.content_type
  let aws_access_key_id ← config.aws_access_key_id.mapM resolve
  let aws_secret_access_key ← config.aws_secret_access_key.mapM resolve
  let region_name ← resolve config.region_name
  let endpoint_url ← config.endpoint_url.mapM resolve
  let keys ← config.keys.mapM resolve
  pure { config with
    bucket, Prefix, file_pattern, content_type, aws_access_key_id, aws_secret_access_key,
      region_name, endpoint_url, keys }

-- What the client is made with.
structure Client where
  region_name : String
  aws_access_key_id : Option String
  aws_secret_access_key : Option String
  endpoint_url : Option String
  deriving DecidableEq, Repr

-- `_get_client`; an empty string counts as none.
def get_client (config : Config) : Client :=
  let key_id := config.aws_access_key_id.filter (· ≠ "")
  { region_name := config.region_name
    aws_access_key_id := key_id
    aws_secret_access_key := if key_id.isSome then config.aws_secret_access_key else none
    endpoint_url := config.endpoint_url.filter (· ≠ "") }

-- The bucket listings of the service: how it pages does not change what is listed.
structure Listings where
  paginate : Client → String → String → ℕ → Except String (List (List Obj))
  paged : ∀ client bucket key_prefix n m,
    List.flatten <$> paginate client bucket key_prefix n = List.flatten <$>
      paginate client bucket key_prefix m

-- A value that reading an object gives: text, bytes, or parsed data.
inductive Value (Data : Type)
  | str (text : String)
  | bytes (body : ByteArray)
  | parsed (data : Data)

inductive Content (Data : Type)
  | list (items : List (Value Data))
  | one (item : Value Data)

-- `json.loads`, `csv.DictReader` and `fnmatch.fnmatch`, by what they do with an empty text,
-- with a number, and with a table of one row.
structure Parsers (Data : Type) where
  loads : String → Except String (Content Data)
  DictReader : String → Except String (List (Value Data))
  fnmatch : String → String → Bool
  loads_empty : ∃ e, loads "" = .error e
  loads_number : ∃ a b, a ≠ b ∧ loads "0" = .ok (.one a) ∧ loads "1" = .ok (.one b)
  rows_empty : DictReader "" = .ok []
  rows_one : ∃ a b, a ≠ b ∧ DictReader "id\n0\n" = .ok [a] ∧ DictReader "id\n1\n" = .ok [b]

inductive Kind
  | json | csv | text | binary
  deriving DecidableEq, Repr

-- The branches of `_read_object_content`.
def content_kind (content_type : String) : Kind :=
  if content_type = "json" then .json
  else if content_type = "csv" then .csv
  else if content_type = "text" then .text
  else .binary

section Fetch

variable {Data : Type} (py : Parsers Data) (get_object : Client → String → String →
    Except String ByteArray)

-- `key.split("/")[-1]`.
def filename (key : String) : String := String.ofList ((key.toList.splitOn '/').getLastD [])

-- `_matches_pattern`.
def matches_pattern (config : Config) (key : String) : Bool :=
  match config.file_pattern with
  | some pattern => pattern = "" || py.fnmatch (filename key) pattern
  | none => true

def decode (body : ByteArray) : Except Raised String :=
  match String.fromUTF8? body with
  | some text => .ok text
  | none => .error (.other "UnicodeDecodeError")

def parse_body (kind : Kind) (body : ByteArray) : Except Raised (Content Data) :=
  match kind with
  | .json => do
      let text ← decode body
      (py.loads text).mapError .other
  | .csv => do
      let text ← decode body
      .list <$> (py.DictReader text).mapError .other
  | .text => do
      let text ← decode body
      pure (.one (.str text))
  | .binary => pure (.one (.bytes body))

-- `_read_object_content`.
def read_object_content (config : Config) (key : String) : Except Raised (Content Data) :=
  match get_object (get_client config) config.bucket key with
  | .ok body => parse_body py (content_kind config.content_type) body
  | .error e => .error (.SourceError "s3" ("Failed to read object " ++ key ++ ": " ++ e))

-- What a record wraps: a value, the dict of a key alone, or the dict of a listed object.
inductive Item (Data : Type)
  | value (value : Value Data)
  | key (key : String)
  | object (obj : Obj)

structure Record (Data : Type) where
  data : Item Data

def wrap_as_record (item : Item Data) : Record Data := ⟨item⟩

def content_records : Content Data → List (Record Data)
  | .list items => items.map fun item => wrap_as_record (.value item)
  | .one item => [wrap_as_record (.value item)]

-- A loop of `fetch` over keys or objects.
def collect {α : Type} (read : α → Except Raised (List (Record Data))) (limit : Option ℕ)
    (records : List (Record Data)) :
    List α → Except Raised (List (Record Data))
  | [] => .ok records
  | a :: rest => do
      let more ← read a
      match sample limit (records ++ more) with
      | some records => .ok records
      | none => collect read limit (records ++ more) rest

def fetch_key (config resolved : Config) (key : String) : Except Raised (List (Record Data)) :=
  if resolved.read_content then content_records <$> read_object_content py get_object config key
  else .ok [wrap_as_record (.key key)]

def fetch_object (config resolved : Config) (obj : Obj) : Except Raised (List (Record Data)) :=
  if resolved.read_content then content_records <$> read_object_content py get_object config obj.Key
  else .ok [wrap_as_record (.object obj)]

variable (listings : Listings) (render : String → Except TemplateError String)

def fetch (config : Config) (limit : Option ℕ) : Except Raised (List (Record Data)) := do
  let resolved ← resolve_parameters render config
  if resolved.keys ≠ [] then
    collect (fetch_key py get_object config resolved) limit [] resolved.keys
  else
    let page_size := match limit with
      | some n => if n = 0 then 1000 else min n 1000
      | none => 1000
    match listings.paginate (get_client config) resolved.bucket resolved.Prefix page_size with
    | .ok pages =>
        collect (fetch_object py get_object config resolved) limit []
          (pages.flatten.filter fun obj => matches_pattern py config obj.Key)
    | .error e => .error (.SourceError "s3" ("Failed to fetch data: " ++ e))

def split (config : Config) : Except Raised (List Config) := do
  let resolved ← resolve_parameters render config
  match listings.paginate (get_client config) resolved.bucket resolved.Prefix
      resolved.page_size with
  | .ok pages =>
      let keys := pages.map fun page =>
        (page.filter fun obj => matches_pattern py config obj.Key).map (·.Key)
      pure ((keys.filter (· ≠ [])).map fun keys => { resolved with keys })
  | .error e => .error (.ClientError e)

end Fetch

end S3Source

end Reflowfy
