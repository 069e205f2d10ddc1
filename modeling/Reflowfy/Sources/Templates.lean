import Reflowfy.ParameterResolver

namespace Reflowfy

-- `config` of a source.
abbrev SourceConfig := List (String × Value)

namespace SourceConfig

variable (render : String → Except TemplateError String)

def get (config : SourceConfig) (k : String) : Value := (config.lookup k).getD .None

def resolve_parameters (config : SourceConfig) : Except Raised SourceConfig :=
  config.mapM fun entry => do pure (entry.1, ← ParameterResolver.resolve_value render entry.2)

-- What `fetch` works with: the client is made from the settings as they are, all else is
-- read rendered.
def used (setting : String → Bool) (config : SourceConfig) : Except Raised SourceConfig :=
  config.mapM fun entry => do
    let rendered ← ParameterResolver.resolve_value render entry.2
    pure (entry.1, if setting entry.1 then entry.2 else rendered)

end SourceConfig

-- `str(value)`.
variable (str : Value → String)

namespace ElasticSource

-- What `_get_client` reads.
def setting (k : String) : Bool := k ∈ ["url", "auth", "verify_certs"]

def pit_keep_alive (config : SourceConfig) : String :=
  if (config.get "pit_keep_alive").truthy then str (config.get "pit_keep_alive") else "30m"

-- What a plan adds to the config of a child.
inductive Slice
  | window (pit_id search_after : Value) (size : ℕ)
  | slice (pit_id : Value) (id max : ℕ)
  | range (field order after upto : Value)
  | composite_page (after : Value) (size : ℤ)

def Slice.config : Slice → SourceConfig
  | window pit_id search_after size =>
      [("pit_id", pit_id),
        ("window", .dict [(.str "search_after", search_after), (.str "size", .int size)])]
  | slice pit_id id max =>
      [("pit_id", pit_id), ("slice", .dict [(.str "id", .int id), (.str "max", .int max)])]
  | range field order after upto =>
      [("window", .dict [(.str "mode", .str "range"), (.str "field", field), (.str "order", order),
        (.str "after", after),
        (.str "upto", upto)])]
  | composite_page after size =>
      [("composite_page", .dict [(.str "after", after), (.str "size", .int size)])]

-- `_sub_source`, with its slice.
def sub_source (resolved : SourceConfig) (slice : Slice) : SourceConfig :=
  [("url", resolved.get "url"), ("index", resolved.get "index"),
    ("base_query", resolved.get "base_query"), ("scroll", resolved.get "scroll"),
    ("size", resolved.get "size"), ("pit_keep_alive", .str (pit_keep_alive str resolved)),
    ("auth", resolved.get "auth"), ("verify_certs", resolved.get "verify_certs")] ++ slice.config

end ElasticSource

namespace SqlSource

-- `named` of `_engine_kwargs`.
def named (k : String) : Bool :=
  k ∈ ["self", "connection_url", "query", "id_column", "time_column", "batch_size",
    "engine_kwargs", "slice"]

def engine_kwargs (config : SourceConfig) : SourceConfig :=
  config.filter fun entry => !named entry.1

-- What `_get_engine` reads.
def setting (k : String) : Bool := k = "connection_url" ∨ !named k

def windowed (resolved : SourceConfig) (cur nxt : ℤ) : String :=
  "SELECT * FROM (" ++ str (resolved.get "query") ++ ") AS sub WHERE " ++
    str (resolved.get "id_column") ++ " >= " ++
    toString cur ++ " AND " ++ str (resolved.get "id_column") ++ " < " ++ toString nxt

-- What `split` yields for a window; its engine kwargs come from the config as it is.
def sub_source (resolved engine : SourceConfig) (cur nxt : ℤ) : SourceConfig :=
  [("connection_url", resolved.get "connection_url"),
    ("query", .str (windowed str resolved cur nxt)), ("id_column", .None),
    ("time_column", resolved.get "time_column"),
    ("batch_size", (resolved.lookup "batch_size").getD (.int 1000))] ++ engine ++
    [("slice", .dict [(.str "lo", .int cur), (.str "hi", .int nxt)])]

end SqlSource

namespace S3Source

-- What `_get_client`, `_read_object_content` and `_matches_pattern` read.
def setting (k : String) : Bool :=
  k ∈ ["region_name", "aws_access_key_id", "aws_secret_access_key", "endpoint_url", "bucket",
    "content_type", "file_pattern"]

-- What `split` yields for a page.
def sub_source (resolved : SourceConfig) (keys : List String) : SourceConfig :=
  [("bucket", resolved.get "bucket"), ("prefix", resolved.get "prefix"),
    ("file_pattern", resolved.get "file_pattern"),
    ("page_size", (resolved.lookup "page_size").getD (.int 1000)),
    ("read_content", resolved.get "read_content"),
    ("content_type", resolved.get "content_type"),
    ("aws_access_key_id", resolved.get "aws_access_key_id"),
    ("aws_secret_access_key", resolved.get "aws_secret_access_key"),
    ("region_name", resolved.get "region_name"),
    ("endpoint_url", resolved.get "endpoint_url"), ("keys", .list (keys.map .str))]

end S3Source

-- A source that a plan yields: the source itself, or one with a slice.
inductive PlannedSource
  | elastic_self
  | elastic (slice : ElasticSource.Slice)
  | sql_self
  | sql (cur nxt : ℤ)
  | s3 (keys : List String)

namespace PlannedSource

def setting : PlannedSource → String → Bool
  | .elastic_self | .elastic _ => ElasticSource.setting
  | .sql_self | .sql .. => SqlSource.setting
  | .s3 _ => S3Source.setting

-- Its config, by the config of the source and the same rendered.
def config (own resolved : SourceConfig) : PlannedSource → SourceConfig
  | .elastic_self | .sql_self => own
  | .elastic slice => ElasticSource.sub_source str resolved slice
  | .sql cur nxt => SqlSource.sub_source str resolved (SqlSource.engine_kwargs own) cur nxt
  | .s3 keys => S3Source.sub_source resolved keys

end PlannedSource

end Reflowfy
