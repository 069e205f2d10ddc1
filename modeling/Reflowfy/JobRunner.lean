import Reflowfy.Planning
import Reflowfy.Paging.Listing
import Reflowfy.Sources.Base

namespace Reflowfy

-- A class of sources: what `split` and `fetch` of a source do with the params.
structure SourceKind (S : Type) where
  split : S → Params → Except Raised (List S)
  fetch : S → Params → Except Raised (List Value)

-- A source of a class, or a list of records in the place of one.
inductive Source (S : Type)
  | StaticSource (records : List Value)
  | of (source : S)

namespace SourceKind

variable {S : Type}

-- The class together with `StaticSource`, which plans no job for no records.
def with_static (kind : SourceKind S) : SourceKind (Source S) where
  split
    | .StaticSource records, _ => .ok (if records.isEmpty then [] else [.StaticSource records])
    | .of source, params => List.map .of <$> kind.split source params
  fetch
    | .StaticSource records, _ => .ok records
    | .of source, params => kind.fetch source params

end SourceKind

namespace JobRunner

variable {S : Type}

def chunk {α : Type} (records : List α) (size : ℕ) : Except Raised (List (List α)) :=
  if size < 1 then .error (.ValueError s!"chunk size must be >= 1, got {size}")
  else .ok (Paging.slices size records)

theorem flatten_chunk {α : Type} {records : List α} {size : ℕ} {chunks : List (List α)}
    (h : chunk records size = .ok chunks) : chunks.flatten = records := by
  rw [chunk] at h
  split at h
  · cases h
  · rename_i hsize
    rw [← Except.ok.inj h]
    exact Paging.slices_flatten (Nat.not_lt.mp hsize) records

-- The jobs of one source of the plan: what the plan attached to it goes to each of them.
def plan_slices (kind : SourceKind S) (source : Planned S) (runtime_params : Params) :
    Except Raised (List (Planned S)) :=
  List.map (⟨·, source.job_params⟩) <$> kind.split source.source runtime_params

end JobRunner

-- The metadata of a message on the worker; `wire` is what a value of the params is after
-- `_serialize_for_json` and JSON.
def Metadata.received (wire : Value → Value) (metadata : Metadata) : Metadata :=
  { metadata with
    runtime_params := fun k => (metadata.runtime_params k).map wire
    current_ids := metadata.current_ids.map wire }

-- The params that the worker gives a job.
def JobPayload.runtime_params {S : Type} (wire : Value → Value)
    (job_payload : JobPayload S) : Params :=
  build_flat_runtime_params_from_metadata (job_payload.metadata.received wire)

-- Under every name the message's own value, or what the plan gave the job.
theorem PipelineRunner.worker_params {S : Type} (wire : Value → Value) (context : ExecutionContext)
    (default_job_params : Params) (job_id : JobId) (sub_source : Planned S) (k : String) :
    (job_payload context default_job_params job_id sub_source).runtime_params wire k =
      (context.keys k <|> (job_params default_job_params sub_source k).map wire) := by
  by_cases hk : k = "current_ids"
  · subst hk
    show (given ((job_params default_job_params sub_source "current_ids").map wire) <|> (none <|>
      (job_params default_job_params sub_source "current_ids").map wire)) = _
    cases (job_params default_job_params sub_source "current_ids").map wire with
    | none => rfl
    | some v => cases v <;> rfl
  · simp [JobPayload.runtime_params, build_flat_runtime_params_from_metadata,
      build_flat_runtime_params, Params.merge, hk,
      job_payload, Metadata.received]

end Reflowfy
