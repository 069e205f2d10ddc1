import Reflowfy.Serialization.Wire
import Reflowfy.Sources.Templates

namespace Reflowfy.SourceFactory

-- What a constructor keeps of an argument: it as it is, `list(arg)`, `arg or []`, `arg or {}`,
-- `arg.upper()`.
inductive Kept
  | as_is | list_of | or_list | or_dict | upper
  deriving DecidableEq, Repr

-- `str.upper`.
variable (upper : String → String)

-- `list_of` of a list or a tuple, and `upper` of a str, as they are declared.
def Kept.keep : Kept → Value → Value
  | as_is, v => v
  | list_of, .tuple items => .list items
  | list_of, v => v
  | or_list, v => if v.truthy then v else .list []
  | or_dict, v => if v.truthy then v else .dict []
  | Kept.upper, .str s => .str (upper s)
  | Kept.upper, v => v

structure Parameter where
  name : String
  default : Option Value
  kept : Kept

-- A constructor: its parameters, in the order in which `config` has them, and whether it takes
-- other keyword arguments, which `config` has after them.
structure SourceType where
  parameters : List Parameter
  kwargs : Bool

def StaticSource : SourceType := ⟨[⟨"records", none, .list_of⟩], false⟩

def MockSource : SourceType :=
  ⟨[⟨"data", none, .as_is⟩, ⟨"batch_size", some (.int 10), .as_is⟩], false⟩

def ElasticSource : SourceType where
  parameters :=
    [⟨"url", none, .as_is⟩, ⟨"index", none, .as_is⟩, ⟨"base_query", none, .as_is⟩,
      ⟨"scroll", some (.str "2m"), .as_is⟩,
      ⟨"size", some (.int 1000), .as_is⟩, ⟨"pit_keep_alive", some (.str "30m"), .as_is⟩,
        ⟨"auth", some .None, .as_is⟩,
      ⟨"verify_certs", some (.bool true), .as_is⟩]
  kwargs := true

def SqlSource : SourceType where
  parameters :=
    [⟨"connection_url", none, .as_is⟩, ⟨"query", none, .as_is⟩, ⟨"id_column", some .None, .as_is⟩,
      ⟨"time_column", some .None, .as_is⟩, ⟨"batch_size", some (.int 1000), .as_is⟩]
  kwargs := true

def S3Source : SourceType where
  parameters :=
    [⟨"bucket", none, .as_is⟩, ⟨"prefix", some (.str ""), .as_is⟩,
      ⟨"file_pattern", some .None, .as_is⟩,
      ⟨"page_size", some (.int 1000), .as_is⟩, ⟨"read_content", some (.bool true), .as_is⟩,
      ⟨"content_type", some (.str "json"), .as_is⟩, ⟨"aws_access_key_id", some .None, .as_is⟩,
      ⟨"aws_secret_access_key", some .None, .as_is⟩,
        ⟨"region_name", some (.str "us-east-1"), .as_is⟩,
      ⟨"endpoint_url", some .None, .as_is⟩]
  kwargs := true

def IDBasedAPISource : SourceType where
  parameters :=
    [⟨"base_url", none, .as_is⟩, ⟨"endpoint_template", none, .as_is⟩, ⟨"ids", some .None, .or_list⟩,
      ⟨"method", some (.str "GET"), .upper⟩, ⟨"headers", some .None, .or_dict⟩,
        ⟨"auth_type", some .None, .as_is⟩,
      ⟨"auth_token", some .None, .as_is⟩, ⟨"batch_size", some (.int 50), .as_is⟩,
        ⟨"timeout", some (.float "30.0"), .as_is⟩,
      ⟨"response_key", some .None, .as_is⟩, ⟨"body", some .None, .as_is⟩,
        ⟨"params", some .None, .or_dict⟩,
      ⟨"health_check_enabled", some (.bool true), .as_is⟩]
  kwargs := false

-- `_registry`, with the optional dependencies installed.
def registry : List (String × SourceType) :=
  [("StaticSource", StaticSource), ("MockSource", MockSource), ("ElasticSource", ElasticSource),
    ("SqlSource", SqlSource),
    ("S3Source", S3Source), ("IDBasedAPISource", IDBasedAPISource)]

inductive CreateError
  | ValueError (message : String)
  | TypeError
  | KeyError (key : String)
  deriving DecidableEq, Repr

namespace SourceType

def named (cls : SourceType) (k : String) : Bool := (cls.parameters.map Parameter.name).contains k

-- `cls(**kwargs).config`.
def init (cls : SourceType) (kwargs : SourceConfig) : Except CreateError SourceConfig :=
  if cls.kwargs || kwargs.all fun entry => cls.named entry.1 then
    match cls.parameters.mapM (fun p => ((kwargs.lookup p.name).or p.default).map fun v =>
        (p.name, p.kept.keep upper v)) with
    | none => .error .TypeError
    | some config => .ok (config ++ kwargs.filter fun entry => !cls.named entry.1)
  else .error .TypeError

end SourceType

def create (type_name : String) (config : SourceConfig) : Except CreateError SourceConfig :=
  match registry.lookup type_name with
  | none =>
      .error (.ValueError ("Unknown source type: '" ++ type_name ++ "'. Available types: " ++
        String.intercalate ", " ((registry.map Prod.fst).mergeSort (· ≤ ·))))
  | some cls => cls.init upper config

-- A dict whose keys are the names of the settings.
def as_dict (config : SourceConfig) : Value :=
  .dict (config.map fun entry => (.str entry.1, entry.2))

def serialize (type_name : String) (config : SourceConfig) : Value :=
  .dict [(.str "type", .str type_name), (.str "config", as_dict config)]

-- A dict of keyword arguments.
def keywords : Value → Except CreateError SourceConfig
  | .dict entries => entries.mapM fun entry =>
      match entry.1 with
      | .str k => .ok (k, entry.2)
      | _ => .error .TypeError
  | _ => .error .TypeError

-- What the worker makes of the descriptor of a job's message.
def rebuild (descriptor : Value) : Except CreateError (String × SourceConfig) :=
  match descriptor with
  | .dict entries =>
      match entries.lookup (.str "type"), entries.lookup (.str "config") with
      | some (.str type_name), some config =>
          match keywords config with
          | .error e => .error e
          | .ok kwargs => (create upper type_name kwargs).map (type_name, ·)
      | none, _ => .error (.KeyError "type")
      | _, none => .error (.KeyError "config")
      | _, _ => .error .TypeError
  | _ => .error .TypeError

end Reflowfy.SourceFactory
