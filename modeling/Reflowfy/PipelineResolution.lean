import Reflowfy.PipelineParameters
import Reflowfy.Interleaving.Pool
import Reflowfy.Models

namespace Reflowfy

open Interleaving

namespace PipelineResolution

-- Which object of the process a pipeline, or a dict of params, is.
abbrev PipelineId := ℕ

abbrev DictId := ℕ

-- What `resolve` sets on a pipeline that is read again.
structure Attributes (S : Type) where
  resolved_params : Option DictId
  source : Option S

-- The objects of the process. A pipeline without `fork` is resolved where it is registered;
-- the dicts are those that `apply_defaults` makes, one for each execution.
structure Objects (S : Type) where
  registry : String → Option PipelineId
  missing : String → String
  pipeline : PipelineId → PipelineClass S
  has_fork : PipelineId → Bool
  attributes : PipelineId → Attributes S
  next : PipelineId
  dicts : DictId → Params

inductive PlanPc (S : Type)
  | idle
  -- `pipeline_registry.get`, and `fork`
  | get
  | fork (pipeline : PipelineId)
  -- `resolve`: the checks, `_resolved_params`, `define_jobs`, `_source`
  | check (pipeline : PipelineId)
  | store (pipeline : PipelineId)
  | define (pipeline : PipelineId)
  | keep (pipeline : PipelineId) (source : Option S)
  -- `enriched_params`, and the source for the jobs
  | read (pipeline : PipelineId)
  | use (pipeline : PipelineId) (enriched_params : Option Params)
  | done (enriched_params : Option Params) (source : S)
  | failed (error : HookError)

structure PlanTask (S : Type) where
  pipeline_name : String
  runtime_params : Params
  pc : PlanPc S

abbrev PlanSystem (S : Type) := Pool (Objects S) (PlanTask S)

inductive PlanEvent
  | start (i : TaskId) (pipeline_name : String) (runtime_params : Params)
  | go (i : TaskId)

variable {S : Type} (py : Python) (eq : Value → Value → Bool)

namespace Objects

def set_attributes (o : Objects S) (a : PipelineId) (attributes : Attributes S) : Objects S :=
  { o with attributes := Function.update o.attributes a attributes }

def set_dict (o : Objects S) (d : DictId) (params : Params) : Objects S :=
  { o with dicts := Function.update o.dicts d params }

-- `copy.copy`.
def fork (o : Objects S) (a : PipelineId) : Objects S :=
  { o with
    pipeline := Function.update o.pipeline o.next (o.pipeline a)
    has_fork := Function.update o.has_fork o.next (o.has_fork a)
    attributes := Function.update o.attributes o.next (o.attributes a)
    next := o.next + 1 }

end Objects

def not_resolved : HookError :=
  .other ⟨"RuntimeError",
    "Pipeline not resolved. Call pipeline.resolve(runtime_params) before execution."⟩

def not_found (pipeline_name missing : String) : HookError :=
  .other ⟨"ValueError", "Pipeline '" ++ pipeline_name ++ "' not found in registry" ++ missing⟩

namespace PlanTask

-- The next attribute or object that task `i` reads or writes.
def go (i : TaskId) (o : Objects S) (task : PlanTask S) : Option (Objects S × PlanPc S) :=
  match task.pc with
  | .idle => none
  | .get =>
      match o.registry task.pipeline_name with
      | none => some (o, .failed (not_found task.pipeline_name (o.missing task.pipeline_name)))
      | some a => some (o, .fork a)
  | .fork a => if o.has_fork a then some (o.fork a, .check o.next) else some (o, .check a)
  | .check a =>
      match (o.pipeline a).checked_params py eq task.runtime_params with
      | .error e => some (o, .failed e)
      | .ok params => some (o.set_dict i params, .store a)
  | .store a => some (o.set_attributes a
      { o.attributes a with resolved_params := some i }, .define a)
  | .define a =>
      let (returned, params) := (o.pipeline a).define_jobs (o.dicts i)
      match returned with
      | .error e => some (o.set_dict i params,
          .failed (pipeline_step "define_jobs" (o.pipeline a).name e))
      | .ok source => some (o.set_dict i params, .keep a source)
  | .keep a source => some (o.set_attributes a { o.attributes a with source }, .read a)
  | .read a => some (o, .use a ((o.attributes a).resolved_params.map o.dicts))
  | .use a enriched_params =>
      match (o.attributes a).source with
      | none => some (o, .failed not_resolved)
      | some source => some (o, .done enriched_params source)
  | .done _ _ => none
  | .failed _ => none

end PlanTask

namespace PlanSystem

def step (s : PlanSystem S) : PlanEvent → Option (PlanSystem S)
  | .start i pipeline_name runtime_params =>
      match (s.procs i).pc with
      | .idle => some (s.set i s.store ⟨pipeline_name, runtime_params, .get⟩)
      | _ => none
  | .go i => ((s.procs i).go py eq i s.store).map fun r => s.set i r.1 { s.procs i with pc := r.2 }

-- The pipelines have been registered and none has been resolved.
def Initial (s : PlanSystem S) : Prop :=
  (∀ name a, s.store.registry name = some a → a < s.store.next ∧
    s.store.attributes a = ⟨none, none⟩) ∧
    ∀ i, (s.procs i).pc = .idle

end PlanSystem

-- What `resolve` comes to for a pipeline that nobody else holds.
def resolve_alone (pipeline : PipelineClass S) (runtime_params : Params) :
    Except HookError (Params × S) :=
  match pipeline.checked_params py eq runtime_params with
  | .error e => .error e
  | .ok params =>
      match pipeline.define_jobs params with
      | (.error e, _) => .error (pipeline_step "define_jobs" pipeline.name e)
      | (.ok none, _) => .error not_resolved
      | (.ok (some source), params) => .ok (params, source)

end PipelineResolution

end Reflowfy
