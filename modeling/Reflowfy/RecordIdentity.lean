import Reflowfy.ContentDedup
import Reflowfy.Json.Tree
import Reflowfy.Serialization
import Reflowfy.Sources.Base

namespace Reflowfy

-- A pipeline's `dedup_key`: a field's name, or a function of the record and the runtime params.
inductive DedupKey
  | field (name : String)
  | function (key : Value → Value → Except Raised Value)

-- `record[name]`.
def field (name : String) : Value → Except Raised Value
  | .dict entries =>
      match entries.find? (·.1 = .str name) with
      | some (_, v) => .ok v
      | none => .error (.other ("KeyError: '" ++ name ++ "'"))
  | _ => .error (.other "TypeError: record is not subscriptable by name")

def record_identity (record : Value) (dedup_key : Option DedupKey) (runtime_params : Value) :
    Except Raised Value :=
  match dedup_key with
  | none => .ok (to_json_safe record)
  | some (.field name) => to_json_safe <$> field name record
  | some (.function key) => to_json_safe <$> key record runtime_params

def SLICE_PARAMS : List String := ["current_id", "current_ids", "input_ids"]

-- `own`: the job's params that do not only say which slice it is.
def own_params (job_params : Option (List (String × Json))) : List (String × Json) :=
  (job_params.getD []).filter fun entry => !SLICE_PARAMS.contains entry.1

-- An optional part of `stable`, left out when empty.
def stable_part (key : String) (entries : List (String × Json)) : List (String × Json) :=
  if entries.isEmpty then [] else [(key, .obj entries)]

def stable (pipeline_name : String) (identity : Json)
    (destination job_params : Option (List (String × Json))) : Json :=
  .obj ([("pipeline_name", .str pipeline_name), ("record", identity)] ++ stable_part "destination"
    (destination.getD []) ++
    stable_part "job_params" (own_params job_params))

-- `json.dumps` with `sort_keys`, then the digest of its text.
def compute_record_hash {Text Digest : Type} (dumps : Json → Text) (sha256 : Text → Digest)
    (pipeline_name : String)
    (identity : Json) (destination job_params : Option (List (String × Json))) : Digest :=
  sha256 (dumps (stable pipeline_name identity destination job_params).sorted)

-- The loop of `_claim_records` over the records and their hashes.
def keep_records {Record : Type} (won seen : List RecordHash) :
    List (Record × RecordHash) → List Record
  | [] => []
  | (record, h) :: rest =>
      if won.contains h && !seen.contains h then record :: keep_records won (h :: seen) rest
      else keep_records won seen rest

-- `release_record_hashes` as it goes through the table, a part at a time.
def Records.release_parts (hashes : List RecordHash) (job_id : JobId)
    (records : Records) : Records :=
  (Paging.slices CLAIM_CHUNK_SIZE (fromkeys hashes)).foldl
    (fun records part => records.release_record_hashes part job_id) records

end Reflowfy
