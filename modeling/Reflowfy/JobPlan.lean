import Reflowfy.JobRunner
import Mathlib.Logic.Function.Basic

namespace Reflowfy

-- What a generator yields before it returns, or raises.
structure Generated (α : Type) where
  items : List α
  raised : Option Raised

namespace Generated

variable {α β : Type}

def map (f : α → β) (g : Generated α) : Generated β := ⟨g.items.map f, g.raised⟩

-- `yield from g`, and what comes after it.
def followed (g rest : Generated α) : Generated α :=
  if g.raised.isSome then g else ⟨g.items ++ rest.items, rest.raised⟩

end Generated

namespace JobPlan

-- Which object a source is: its `job_params` may be set wherever it is at hand.
abbrev SourceId := ℕ

-- The attributes `job_params` of the sources, None where they have not been set.
abbrev JobParams := SourceId → Option Params

-- The class of a source with `split`, with what its `split` reads.
inductive SourceClass
  | StaticSource (records : List Value)
  | other (split : Params → Generated SourceId)

def SourceClass.split (self : SourceId) : SourceClass → Params → Generated SourceId
  | StaticSource records, _ => ⟨if records.isEmpty then [] else [self], none⟩
  | other split, runtime_params => split runtime_params

-- What an iterable plan does: its own code sets the `job_params` of a source, and it yields
-- its elements.
inductive Step
  | assign (source : SourceId) (job_params : Option Params)
  | source (source : SourceId)
  | records (records : List Value)
  | other (type_name : String)

inductive Plan
  -- a source with `split`, and one without
  | source (source : SourceId)
  | whole (source : SourceId)
  | iterable (steps : List Step) (raised : Option Raised)

-- The source of a job: one of the plan's, or the StaticSource that `plan_slices` makes of a list.
inductive JobSource
  | source (source : SourceId)
  | StaticSource (records : List Value)

def TypeError (type_name : String) : Raised :=
  .other ("define_jobs returned an iterable, so each element must be one job: " ++
    "a list of records or a BaseSource, got " ++ type_name ++
    ". Wrap records with chunk(records, size=N), or return [records] for a single job.")

section Slices

variable (objects : SourceId → SourceClass) (runtime_params : Params)

-- `if parent_job_params is not None and narrowed.job_params is None`.
def carry (parent_job_params : Option Params) (job_params : JobParams)
    (narrowed : SourceId) : JobParams :=
  if parent_job_params.isSome ∧ (job_params narrowed).isNone then
    Function.update job_params narrowed parent_job_params
  else job_params

-- The loop over what `split` yields. A job's params are read as it is yielded.
def narrow (parent_job_params : Option Params) : JobParams → List SourceId →
    JobParams × List (Planned JobSource)
  | job_params, [] => (job_params, [])
  | job_params, narrowed :: children =>
      let job_params := carry parent_job_params job_params narrowed
      let rest := narrow parent_job_params job_params children
      (rest.1, ⟨.source narrowed, job_params narrowed⟩ :: rest.2)

def children (source : SourceId) : Generated SourceId :=
  (objects source).split source runtime_params

-- `plan_slices` of a source with `split`.
def plan_source (job_params : JobParams) (source : SourceId) :
    JobParams × Generated (Planned JobSource) :=
  let split := children objects runtime_params source
  let narrowed := narrow (job_params source) job_params split.items
  (narrowed.1, ⟨narrowed.2, split.raised⟩)

def plan_step (job_params : JobParams) : Step → JobParams × Generated (Planned JobSource)
  | .assign source value => (Function.update job_params source value, ⟨[], none⟩)
  | .source source => plan_source objects runtime_params job_params source
  | .records records =>
      (job_params, ⟨if records.isEmpty then [] else [⟨.StaticSource records, none⟩], none⟩)
  | .other type_name => (job_params, ⟨[], some (TypeError type_name)⟩)

def plan_steps : JobParams → List Step → Generated (Planned JobSource)
  | _, [] => ⟨[], none⟩
  | job_params, step :: steps =>
      let planned := plan_step objects runtime_params job_params step
      planned.2.followed (plan_steps planned.1 steps)

def plan_slices (job_params : JobParams) : Plan → Generated (Planned JobSource)
  | .source source => (plan_source objects runtime_params job_params source).2
  | .whole source => ⟨[⟨.source source, job_params source⟩], none⟩
  | .iterable steps raised =>
      (plan_steps objects runtime_params job_params steps).followed ⟨[], raised⟩

end Slices

end JobPlan

end Reflowfy
