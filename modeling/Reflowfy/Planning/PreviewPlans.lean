import Reflowfy.Planning.PreviewIds

namespace Reflowfy

open IdBasedPipeline (batch_params)
open LocalExecutor (after_job flat_id_params run_slices execute execute_id_based)

-- What a pipeline and its params are, apart from its sources: with a `define_jobs` of its own,
-- or as an AbstractPipeline, for each element that it yields the params of the execution by
-- then, and those attached to the element; with the built-in plan, what `define_source` leaves
-- of a batch's params, and the transformations of theirs.
inductive Planner
  | define_jobs (id_based : Bool) (resolved_params : Params) (steps : List (Params × Option Params))
  | built_in (ids_batch_size : ℕ) (hsize : 1 ≤ ids_batch_size) (params : Params)
      (enriched : Params → Params)
      (transformed : List Value → Params → Params)

namespace Planner

-- Whatever the sources of the pipeline are, as long as they read these keys alone, when
-- they are split and when their jobs are fetched, the preview runs what the workers run.
def SameRuns (wire : Value → Value) (name : String) (splits fetches : Set String) : Planner → Prop
  | .define_jobs id_based resolved_params steps =>
      ∀ (S : Type) (kind : SourceKind S) (plan : ResolvedPlan S),
      plan.resolved_params = resolved_params →
        plan.items.map (fun item => (item.1, item.2.job_params)) = steps →
      (∀ item ∈ plan.items, item.2.Reads kind splits fetches) →
      ∀ (context : ExecutionContext) (contexts : ℕ → ExecutionContext), Fresh name context →
        (∀ i, Fresh name (contexts i)) →
        SameRun id_based (execute kind context plan)
          (WorkerExecutor.run_plan wire kind contexts id_based plan)
  | .built_in ids_batch_size _ params enriched transformed =>
      ∀ (S : Type) (kind : SourceKind S) (pipeline : IdBasedPipeline S),
      pipeline.ids_batch_size = ids_batch_size → pipeline.enriched = enriched →
      (∀ ids_batch source, pipeline.define_source (batch_params params ids_batch) =
        .ok (.source source) →
        kind.Reads splits fetches source) →
      ∀ (context : ExecutionContext) (contexts : ℕ → ExecutionContext), Fresh name context →
        (∀ i, Fresh name (contexts i)) →
        SameRun true (execute_id_based transformed kind context pipeline params)
          (WorkerExecutor.run_id_based wire kind contexts pipeline params)

def Agrees (wire : Value → Value) (name : String) (splits fetches : Set String) : Planner → Prop
  | .define_jobs id_based resolved_params steps =>
      ∀ step ∈ steps, StepAgrees wire name splits fetches id_based resolved_params step.1 step.2
  | .built_in ids_batch_size _ params enriched transformed =>
      (ids_batch_size = 1 ∨ (IdBasedPipeline.input_ids params).length ≤ 1) ∧
        ∀ current_id ∈ IdBasedPipeline.input_ids params,
          IdAgrees wire name splits fetches transformed params
            (enriched (batch_params params [current_id])) current_id

variable {wire : Value → Value} {name : String} {splits fetches : Set String} {planner : Planner}

theorem sameRuns_of_agrees (hagrees : planner.Agrees wire name splits fetches) :
    planner.SameRuns wire name splits fetches := by
  cases planner with
  | define_jobs id_based resolved_params steps =>
      rintro S kind plan rfl rfl hreads context contexts hfresh hcontexts
      exact execute_same hfresh hcontexts
        (fun item hitem => hagrees _ (List.mem_map_of_mem hitem)) hreads
  | built_in ids_batch_size hsize params enriched transformed =>
      rintro S kind pipeline rfl rfl hreads context contexts hfresh hcontexts
      obtain ⟨hsingle, hids⟩ := hagrees
      refine execute_id_based_same hfresh hcontexts ?_ hids fun current_id source hsource => ?_
      · rw [JobRunner.chunk, if_neg (Nat.not_lt.mpr hsize), Paging.slices_eq_map hsize hsingle]
      · have hresolved : pipeline.Resolves params [current_id] ⟨source, _⟩ := ⟨hsource, rfl⟩
        exact IdBasedPipeline.resolved_of
          (P := fun source => kind.with_static.Reads splits fetches source) SourceKind.reads_static
          (fun own hown => (hreads _ own hown).of) hresolved

section Probes

variable {S : Type} {kind : SourceKind S} {source : S} {children : Params → List S}
    {content : Source S → Params → List Value}
  {context context' : ExecutionContext} {k : String}

-- A context with these generated values.
def stamped (name stamp : String) (number : ℕ) : ExecutionContext :=
  ⟨stamp, stamp, name, stamp, number, number, 0, false⟩

theorem stamped_fresh (name stamp : String) (number : ℕ) :
    Fresh name (stamped name stamp number) := ⟨rfl, rfl, rfl⟩

-- What is the same in every run is not of the run's own.
theorem not_generated_of_same {params : Params} {v : Option Value}
    (h : ∀ context, Fresh name context → (context.keys k <|> params k) = v) : k ∉ generated := by
  intro hk
  have hsame := (h _ (stamped_fresh name "" 0)).trans (h _ (stamped_fresh name "again" 1)).symm
  simp only [generated, Set.mem_insert_iff, Set.mem_singleton_iff] at hk
  rcases hk with rfl | rfl | rfl | rfl | rfl <;> simp [ExecutionContext.keys, stamped] at hsame

theorem not_generated_of_workers {default_job_params : Params} {sub : Planned (Source S)}
    {v : Option Value}
    (h : ∀ context, Fresh name context → worker_params wire context default_job_params sub k = v) :
      k ∉ generated := by
  let params : Params := fun k => (sub.job_params.getD .empty k <|> default_job_params k).map wire
  have hmerged : ∀ context, Fresh name context → (context.keys k <|> params k) = v :=
    fun context hfresh => (worker_start ..).symm.trans (h context hfresh)
  exact not_generated_of_same hmerged

-- A source whose jobs, and what they fetch, are given by the params.
structure Probe (kind : SourceKind S) (source : S) (children : Params → List S)
    (content : Source S → Params → List Value) : Prop where
  split : ∀ params, kind.split source params = .ok (children params)
  fetch : ∀ planning, ∀ child ∈ children planning, ∀ params, kind.fetch child params =
    .ok (content (.of child) params)

theorem probe_listed (parts : List (List Value)) :
    Probe SourceKind.listed parts (fun _ => parts.map ([·]))
      (fun source _ => match source with
        | .StaticSource records => records
        | .of parts => parts.flatten) :=
  ⟨fun _ => rfl, fun _ _ _ _ => rfl⟩

theorem probe_keeping (k : String) :
    Probe (SourceKind.keeping k) none (fun params => [some (SourceKind.seen k params)])
      (fun source _ => match source with
        | .StaticSource records => records
        | .of source => [source.getD .None]) :=
  ⟨fun _ => rfl, fun planning child hchild params => by rw [List.mem_singleton.mp hchild]; rfl⟩

theorem probe_reading (k : String) : Probe (SourceKind.reading 1 k) false (fun _ => [false])
    (fun _ params => [SourceKind.seen k params]) :=
  ⟨fun _ => rfl, fun planning child hchild params => by rw [List.mem_singleton.mp hchild]; rfl⟩

theorem run_jobs_probe (content : Source S → Params → List Value)
    {jobs : List (Params × Planned (Source S))}
    (hfetch : ∀ job ∈ jobs, ∀ params, kind.with_static.fetch job.2.source params =
      .ok (content job.2.source params)) :
    WorkerExecutor.run_jobs wire kind (fun _ => context) jobs =
      .ok (jobs.map fun job => ⟨content job.2.source (worker_params wire context job.1 job.2),
        worker_params wire context job.1 job.2⟩) := by
  induction jobs with
  | nil => rfl
  | cons job jobs ih =>
      refine run_jobs_cons.mpr
        ⟨_, _, Paging.bind_eq_ok.mpr ⟨_, hfetch job List.mem_cons_self _, rfl⟩,
        ih fun job hjob => hfetch job (List.mem_cons_of_mem _ hjob), rfl⟩

section DefineJobs

variable {id_based : Bool} {resolved_params : Params} {steps : List (Params × Option Params)}

-- The same source for each element.
def probe_plan (resolved_params : Params) (steps : List (Params × Option Params))
    (source : S) : ResolvedPlan S :=
  ⟨resolved_params, steps.map fun step => (step.1, .source ⟨.of source, step.2⟩)⟩

def probe_preview (context : ExecutionContext) (resolved_params : Params)
    (children : Params → List S)
    (content : Source S → Params → List Value) (step : Params × Option Params) : List Ran :=
  (children (build_flat_runtime_params resolved_params context none)).map fun child =>
    let params := LocalExecutor.job_runtime_params (⟨.of child, step.2⟩ : Planned (Source S))
      (build_flat_runtime_params resolved_params context none)
    ⟨content (.of child) params, params⟩

def probe_workers (wire : Value → Value) (context : ExecutionContext) (id_based : Bool)
    (resolved_params : Params)
    (children : Params → List S) (content : Source S → Params → List Value)
    (step : Params × Option Params) : List Ran :=
  (children step.1).map fun child =>
    let params := worker_params wire context
      (WorkerExecutor.default_job_params id_based resolved_params step.1)
      (⟨.of child, step.2⟩ : Planned (Source S))
    ⟨content (.of child) params, params⟩

theorem execute_probe (hprobe : Probe kind source children content) :
    execute kind context (probe_plan resolved_params steps source) =
      .ok (steps.flatMap (probe_preview context resolved_params children content)) := by
  refine execute_eq_ok.mpr ⟨steps.map fun step =>
    (children (build_flat_runtime_params resolved_params context none)).map
      (⟨.of ·, step.2⟩), ?_, ?_⟩
  · rw [probe_plan, List.forall₂_map_left_iff, List.forall₂_map_right_iff, List.forall₂_same]
    intro step _
    refine Paging.map_eq_ok.mpr ⟨_, Paging.map_eq_ok.mpr ⟨_, hprobe.split _, rfl⟩, ?_⟩
    rw [List.map_map]
    rfl
  · refine Paging.map_eq_ok.mpr
      ⟨steps.map (probe_preview context resolved_params children content), ?_, rfl⟩
    rw [Paging.mapM_eq_ok, List.forall₂_map_left_iff, List.forall₂_map_right_iff, List.forall₂_same]
    intro step _
    rw [Paging.mapM_eq_ok, probe_preview, List.forall₂_map_left_iff, List.forall₂_map_right_iff,
      List.forall₂_same]
    intro child hchild
    exact Paging.bind_eq_ok.mpr ⟨_, hprobe.fetch _ child hchild _, rfl⟩

theorem run_plan_probe (hprobe : Probe kind source children content) :
    WorkerExecutor.run_plan wire kind (fun _ => context) id_based
      (probe_plan resolved_params steps source) =
      .ok (steps.flatMap (probe_workers wire context id_based resolved_params
        children content)) := by
  refine Paging.bind_eq_ok.mpr ⟨steps.flatMap fun step => (children step.1).map fun child =>
    (WorkerExecutor.default_job_params id_based resolved_params step.1,
      ⟨.of child, step.2⟩), ?_, ?_⟩
  · refine planned_jobs_eq_ok.mpr
      ⟨steps.map fun step => (children step.1).map (⟨.of ·, step.2⟩), ?_, ?_⟩
    · rw [probe_plan, List.forall₂_map_left_iff, List.forall₂_map_right_iff, List.forall₂_same]
      intro step _
      refine Paging.map_eq_ok.mpr ⟨_, Paging.map_eq_ok.mpr ⟨_, hprobe.split _, rfl⟩, ?_⟩
      rw [List.map_map]
      rfl
    · simp [probe_plan, planned_part, List.zipWith_map, List.zipWith_self, List.flatMap_def,
        Function.comp_def]
  · rw [run_jobs_probe content]
    · simp only [List.map_flatMap, List.map_map]
      rfl
    · intro job hjob params
      obtain ⟨step, -, hjob⟩ := List.mem_flatMap.mp hjob
      obtain ⟨child, hchild, rfl⟩ := List.mem_map.mp hjob
      exact hprobe.fetch _ child hchild _

theorem define_jobs_run
    (hsame : (define_jobs id_based resolved_params steps).SameRuns wire name splits fetches)
    (hprobe : Probe kind source children content) (hreads : kind.Reads splits fetches source)
    (hfresh : Fresh name context) (hfresh' : Fresh name context') :
    SameRun id_based (.ok (steps.flatMap (probe_preview context resolved_params children content)))
      (.ok (steps.flatMap (probe_workers wire context' id_based resolved_params
        children content))) := by
  have hrun := hsame S kind (probe_plan resolved_params steps source) rfl
    (by simp [probe_plan, PlanItem.job_params, Function.comp_def]) (by
      intro item hitem
      obtain ⟨step, -, rfl⟩ := List.mem_map.mp hitem
      exact hreads.of) context (fun _ => context') hfresh fun _ => hfresh'
  rwa [execute_probe hprobe, run_plan_probe hprobe] at hrun

-- What a probe shows of an element, whatever the generated values are.
theorem define_jobs_probe
    (hsame : (define_jobs id_based resolved_params steps).SameRuns wire name splits fetches)
    (hprobe : Probe kind source children content) (hreads : kind.Reads splits fetches source)
    (hlen : ∀ params params', (children params).length = (children params').length)
    (hfresh : Fresh name context) (hfresh' : Fresh name context') :
    ∀ step ∈ steps, List.Forall₂ Same (probe_preview context resolved_params children content step)
      (probe_workers wire context' id_based resolved_params children content step) := by
  obtain ⟨ran', hran', hran⟩ := (define_jobs_run hsame hprobe hreads hfresh hfresh').forth _ rfl
  obtain rfl := Except.ok.inj hran'
  exact Paging.forall₂_flatMap
    (fun step _ => by simp only [probe_preview, probe_workers,
    List.length_map]; exact hlen _ _) hran

-- The job of a source with one record.
def one_job (own_params : Option Params) : Planned (Source (List (List Value))) :=
  ⟨.of [[.None]], own_params⟩

theorem define_jobs_starts
    (hsame : (define_jobs id_based resolved_params steps).SameRuns wire name splits fetches) :
    ∀ step ∈ steps, Set.EqOn
      (LocalExecutor.job_runtime_params (one_job step.2)
        (build_flat_runtime_params resolved_params (stamped name "" 0) none))
      (worker_params wire (stamped name "" 0)
        (WorkerExecutor.default_job_params id_based resolved_params step.1)
        (one_job step.2)) generatedᶜ := by
  intro step hstep
  have hjob := define_jobs_probe hsame (probe_listed [[.None]])
    (SourceKind.listed_reads _) (fun _ _ => rfl)
    (stamped_fresh name "" 0) (stamped_fresh name "" 0) step hstep
  exact (List.forall₂_cons.mp hjob).1.2

theorem define_jobs_agrees
    (hsame : (define_jobs id_based resolved_params steps).SameRuns wire name splits fetches) :
    (define_jobs id_based resolved_params steps).Agrees wire name splits fetches := by
  intro step hstep
  refine ⟨?_, fun k hk => ?_, fun k hk => ?_, ?_⟩
  · refine (starts_iff (stamped_fresh name "" 0) (stamped_fresh name "" 0)).mp fun k hk => ?_
    have hstart := define_jobs_starts hsame step hstep hk
    rwa [preview_start, worker_start] at hstart
  · have hread : ∀ context, Fresh name context →
        (context.keys k <|> resolved_params k) = step.1 k := by
      intro context hfresh
      have hjob := define_jobs_probe hsame (probe_keeping k)
        ((SourceKind.keeping_reads k none).mono (Set.singleton_subset_iff.mpr hk)
          (Set.empty_subset _)) (fun _ _ => rfl)
        hfresh hfresh step hstep
      obtain ⟨⟨hrecords, -⟩, -⟩ := List.forall₂_cons.mp hjob
      rw [← flat_eq]
      exact SourceKind.seen_inj (List.cons.inj hrecords).1
    have hgenerated := not_generated_of_same hread
    refine ⟨hgenerated, ?_⟩
    rw [← hread _ (stamped_fresh name "" 0), keys_of_fresh (stamped_fresh name "" 0) hgenerated]
  · -- one preview, and workers with any contexts
    have hread : ∀ context, Fresh name context →
        worker_params wire context
          (WorkerExecutor.default_job_params id_based resolved_params step.1)
          (⟨.of false, step.2⟩ : Planned (Source Bool)) k =
        LocalExecutor.job_runtime_params (⟨.of false, step.2⟩ : Planned (Source Bool))
          (build_flat_runtime_params resolved_params (stamped name "" 0) none) k := by
      intro context hfresh
      have hjob := define_jobs_probe hsame (probe_reading k)
        ((SourceKind.reading_reads 1 k false).mono (Set.empty_subset _)
          (Set.singleton_subset_iff.mpr hk))
        (fun _ _ => rfl) (stamped_fresh name "" 0) hfresh step hstep
      obtain ⟨⟨hrecords, -⟩, -⟩ := List.forall₂_cons.mp hjob
      exact (SourceKind.seen_inj (List.cons.inj hrecords).1).symm
    exact not_generated_of_workers hread
  · rintro rfl
    have hrun := define_jobs_run hsame (probe_listed [[.None]]) (SourceKind.listed_reads _)
      (stamped_fresh name "" 0) (stamped_fresh name "" 0)
    have hpreview : LocalExecutor.job_runtime_params (one_job step.2)
        (build_flat_runtime_params resolved_params (stamped name "" 0) none) "input_ids" = none :=
      hrun.input_ids rfl _ (.inl rfl) _ (List.mem_flatMap.mpr ⟨step, hstep, List.mem_cons_self⟩)
    have hworkers : worker_params wire (stamped name "" 0) (resolved_params.without "input_ids")
        (one_job step.2) "input_ids" = none :=
      hrun.input_ids rfl _ (.inr rfl) _ (List.mem_flatMap.mpr ⟨step, hstep, List.mem_cons_self⟩)
    rw [preview_start] at hpreview
    rw [worker_start] at hworkers
    have hown : step.2.getD .empty "input_ids" = none := by
      simpa [ExecutionContext.keys, one_job] using hworkers
    exact ⟨hown, by simpa [ExecutionContext.keys, one_job, hown] using hpreview⟩

end DefineJobs

section BuiltIn

variable {ids_batch_size : ℕ} {hsize : 1 ≤ ids_batch_size} {params start : Params}
    {enriched : Params → Params}
  {transformed : List Value → Params → Params} {current_id : Value} {batches : List (List Value)}

-- The jobs of one ID in the preview, by what they fetch.
def trail (transformed : List Value → Params → Params) : Params →
    List (Params → List Value) → List Ran
  | _, [] => []
  | params, fetch :: rest => ⟨fetch params, params⟩ :: trail transformed
      (after_job transformed (fetch params) params) rest

@[simp] theorem length_trail (parts : List (Params → List Value)) :
    (trail transformed start parts).length = parts.length := by
  induction parts generalizing start with
  | nil => rfl
  | cons records parts ih => simp [trail, ih]

theorem run_slices_probe {sources : List S}
    (hfetch : ∀ child ∈ sources, ∀ params, kind.fetch child params =
      .ok (content (.of child) params)) :
    run_slices transformed kind start (sources.map (⟨.of ·, none⟩)) =
      .ok (trail transformed start (sources.map fun child => content (.of child))) := by
  induction sources generalizing start with
  | nil => rfl
  | cons child sources ih =>
      rw [List.map_cons, run_slices, Paging.bind_eq_ok]
      refine ⟨_, hfetch child List.mem_cons_self _,
        Paging.bind_eq_ok.mpr ⟨_, ih fun child hchild => ?_, rfl⟩⟩
      exact hfetch child (List.mem_cons_of_mem _ hchild)

def probe_id (transformed : List Value → Params → Params)
    (context : ExecutionContext) (params : Params)
    (enriched : Params → Params) (children : Params → List S)
    (content : Source S → Params → List Value) (current_id : Value) : List Ran :=
  let start := flat_id_params context (enriched (batch_params params [current_id])) current_id
  trail transformed start ((children start).map fun child => content (.of child))

def probe_batch (wire : Value → Value) (context : ExecutionContext) (params : Params)
    (enriched : Params → Params)
    (children : Params → List S) (content : Source S → Params → List Value)
    (ids_batch : List Value) : List Ran :=
  (children params).map fun child =>
    let started := worker_params wire context (params.without "input_ids")
      (⟨.of child, some (IdBasedPipeline.job_params enriched params ids_batch)⟩ :
        Planned (Source S))
    ⟨content (.of child) started, started⟩

theorem execute_id_based_probe (hprobe : Probe kind source children content) :
    execute_id_based transformed kind context
      (IdBasedPipeline.constant ids_batch_size enriched source) params =
      .ok ((IdBasedPipeline.input_ids params).flatMap
        (probe_id transformed context params enriched children content)) := by
  refine Paging.map_eq_ok.mpr
    ⟨(IdBasedPipeline.input_ids params).map
    (probe_id transformed context params enriched children content),
    ?_, rfl⟩
  rw [Paging.mapM_eq_ok, List.forall₂_map_right_iff, List.forall₂_same]
  intro current_id _
  refine run_id_eq_ok.mpr ⟨.of source, _, rfl, Paging.map_eq_ok.mpr ⟨_, hprobe.split _, rfl⟩, ?_⟩
  rw [List.map_map]
  exact run_slices_probe (hprobe.fetch _)

theorem run_id_based_probe (hprobe : Probe kind source children content)
    (hbatches : JobRunner.chunk (IdBasedPipeline.input_ids params) ids_batch_size = .ok batches) :
    WorkerExecutor.run_id_based wire kind (fun _ => context)
      (IdBasedPipeline.constant ids_batch_size enriched source) params =
      .ok (batches.flatMap (probe_batch wire context params enriched children content)) := by
  refine Paging.bind_eq_ok.mpr ⟨_, IdBasedPipeline.constant_plan hbatches (hprobe.split _), ?_⟩
  rw [run_jobs_probe content]
  · simp only [← List.flatMap_def, List.map_flatMap, IdBasedPipeline.constant_slice, List.map_map]
    rfl
  · intro job hjob params'
    obtain ⟨sub, hsub, rfl⟩ := List.mem_map.mp hjob
    obtain ⟨slice, hslice, hsub⟩ := List.mem_flatten.mp hsub
    obtain ⟨ids_batch, -, rfl⟩ := List.mem_map.mp hslice
    obtain ⟨child, hchild, rfl⟩ := List.mem_map.mp hsub
    exact hprobe.fetch _ child hchild _

theorem built_in_run (hsame : (built_in ids_batch_size hsize params enriched transformed).SameRuns
    wire name splits fetches)
    (hprobe : Probe kind source children content) (hreads : kind.Reads splits fetches source)
    (hfresh : Fresh name context) (hfresh' : Fresh name context')
    (hbatches : JobRunner.chunk (IdBasedPipeline.input_ids params) ids_batch_size = .ok batches) :
    List.Forall₂ Same ((IdBasedPipeline.input_ids params).flatMap
      (probe_id transformed context params enriched children content))
      (batches.flatMap (probe_batch wire context' params enriched children content)) := by
  have hrun := hsame S kind (IdBasedPipeline.constant ids_batch_size enriched source) rfl rfl
    (by
      intro ids_batch source' hsource
      obtain rfl := Returned.source.inj (Except.ok.inj hsource)
      exact hreads)
    context (fun _ => context') hfresh fun _ => hfresh'
  rw [execute_id_based_probe hprobe, run_id_based_probe hprobe hbatches] at hrun
  obtain ⟨ran', hran', hran⟩ := hrun.forth _ rfl
  rwa [← Except.ok.inj hran'] at hran

theorem built_in_single
    (hsame : (built_in ids_batch_size hsize params enriched transformed).SameRuns wire
    name splits fetches) :
    ids_batch_size = 1 ∨ (IdBasedPipeline.input_ids params).length ≤ 1 := by
  have hchunk : JobRunner.chunk (IdBasedPipeline.input_ids params) ids_batch_size =
      .ok (Paging.slices ids_batch_size (IdBasedPipeline.input_ids params)) :=
        if_neg (Nat.not_lt.mpr hsize)
  have hrun := (built_in_run hsame (probe_listed [[.None]]) (SourceKind.listed_reads _)
    (stamped_fresh name "" 0)
    (stamped_fresh name "" 0) hchunk).length_eq
  rw [← Paging.length_slices_eq_iff hsize]
  simpa [probe_id, probe_batch] using hrun.symm

-- What a probe shows of an ID, whatever the generated values are.
theorem built_in_probe (hsame : (built_in ids_batch_size hsize params enriched transformed).SameRuns
    wire name splits fetches)
    (hprobe : Probe kind source children content) (hreads : kind.Reads splits fetches source)
    (hlen : ∀ params params', (children params).length = (children params').length)
    (hfresh : Fresh name context) (hfresh' : Fresh name context') :
    ∀ current_id ∈ IdBasedPipeline.input_ids params,
      List.Forall₂ Same (probe_id transformed context params enriched children content current_id)
        (probe_batch wire context' params enriched children content [current_id]) := by
  have hchunk : JobRunner.chunk (IdBasedPipeline.input_ids params) ids_batch_size =
      .ok ((IdBasedPipeline.input_ids params).map ([·])) := by
    rw [JobRunner.chunk, if_neg (Nat.not_lt.mpr hsize),
      Paging.slices_eq_map hsize (built_in_single hsame)]
  have hrun := built_in_run hsame hprobe hreads hfresh hfresh' hchunk
  rw [List.flatMap_map] at hrun
  refine Paging.forall₂_flatMap (fun current_id _ => ?_) hrun
  simp only [probe_id, probe_batch, length_trail, List.length_map]
  exact hlen _ _

-- The params of the job after some others.
theorem trail_last {parts : List (List Value)} {last : List Value}
    {workers : List Ran} {after : Params} (hlen : workers.length = parts.length + 1)
    (hworkers : ∀ job ∈ workers, job.runtime_params = after)
    (h : List.Forall₂ Same
      (trail transformed start ((parts ++ [last]).map fun records _ => records)) workers) :
    Set.EqOn (parts.foldl (fun params records => after_job transformed records params) start)
      after generatedᶜ := by
  induction parts generalizing start workers with
  | nil =>
      obtain ⟨job, hjob⟩ := List.length_eq_one_iff.mp hlen
      subst hjob
      rw [← hworkers job List.mem_cons_self]
      exact (List.forall₂_cons.mp h).1.2
  | cons records parts ih =>
      cases h with
      | @cons _ job _ workers _ hrest =>
          exact ih (by simpa using hlen)
            (fun job hjob => hworkers job (List.mem_cons_of_mem _ hjob)) hrest

theorem built_in_agrees
    (hsame : (built_in ids_batch_size hsize params enriched transformed).SameRuns wire
    name splits fetches) :
    (built_in ids_batch_size hsize params enriched transformed).Agrees wire name
    splits fetches := by
  refine ⟨built_in_single hsame, fun current_id hcurrent => ?_⟩
  have hlast : ∀ context, Fresh name context → ∀ jobs : List (List Value), Set.EqOn
      (jobs.foldl (fun params records => after_job transformed records params)
        (flat_id_params context (enriched (batch_params params [current_id])) current_id))
      (worker_params wire (stamped name "" 0) (params.without "input_ids")
        (one_job (some (IdBasedPipeline.job_params enriched params [current_id])))) generatedᶜ := by
    intro context hfresh jobs
    have hran := built_in_probe hsame (probe_listed (jobs ++ [[.None]]))
      (SourceKind.listed_reads _) (fun _ _ => rfl) hfresh
      (stamped_fresh name "" 0) current_id hcurrent
    simp only [probe_id, List.map_map, Function.comp_def, List.flatten_singleton] at hran
    refine trail_last ?_ (fun job hjob => ?_) hran
    · simp [probe_batch]
    · obtain ⟨child, -, rfl⟩ := List.mem_map.mp hjob
      rfl
  refine ⟨?_, fun k hk => ?_, fun k hk => ?_, ?_⟩
  · exact (idStarts_iff (one_job none).source (stamped_fresh name "" 0)
      (stamped_fresh name "" 0)).mp
      (hlast _ (stamped_fresh name "" 0) [])
  · have hread : ∀ context, Fresh name context →
        flat_id_params context (enriched (batch_params params [current_id])) current_id
            k = params k := by
      intro context hfresh
      have hran := built_in_probe hsame (probe_keeping k)
        ((SourceKind.keeping_reads k none).mono (Set.singleton_subset_iff.mpr hk)
          (Set.empty_subset _)) (fun _ _ => rfl)
        hfresh hfresh current_id hcurrent
      obtain ⟨⟨hrecords, -⟩, -⟩ := List.forall₂_cons.mp hran
      exact SourceKind.seen_inj (List.cons.inj hrecords).1
    have hgenerated : k ∉ generated := by
      intro hk
      have hids : k ≠ "current_id" ∧ k ≠ "current_ids" := by
        constructor <;> rintro rfl <;> simp [generated] at hk
      have hsame : ∀ context, Fresh name context →
          (context.keys k <|> enriched (batch_params params [current_id]) k) = params k := by
        intro context hfresh
        rw [← hread context hfresh, flat_id_params_apply, if_neg hids.1, if_neg hids.2]
      exact not_generated_of_same hsame hk
    refine ⟨hgenerated, ?_⟩
    rw [← flat_id_params_eq (stamped_fresh name "" 0) hgenerated, hread _ (stamped_fresh name "" 0)]
  · have hread : ∀ context, Fresh name context →
      worker_params wire context (params.without "input_ids")
          (⟨.of false, some (IdBasedPipeline.job_params enriched params [current_id])⟩ : Planned
            (Source Bool)) k =
        flat_id_params (stamped name "" 0) (enriched (batch_params params [current_id]))
            current_id k := by
      intro context hfresh
      have hran := built_in_probe hsame (probe_reading k)
        ((SourceKind.reading_reads 1 k false).mono (Set.empty_subset _)
          (Set.singleton_subset_iff.mpr hk))
        (fun _ _ => rfl) (stamped_fresh name "" 0) hfresh current_id hcurrent
      obtain ⟨⟨hrecords, -⟩, -⟩ := List.forall₂_cons.mp hran
      exact (SourceKind.seen_inj (List.cons.inj hrecords).1).symm
    exact not_generated_of_workers hread
  · intro context hfresh jobs
    exact (hlast context hfresh jobs).trans (hlast context hfresh []).symm

end BuiltIn

end Probes

-- Two pages for any IDs, and a transformation that marks what it has seen.
def two_pages (ids_batch_size : ℕ) : IdBasedPipeline (List (List Value)) :=
  IdBasedPipeline.constant ids_batch_size id [[.str "page 1"], [.str "page 2"]]

def marked (_ : List Value) (params : Params) : Params := params.set "seen" (.bool true)

end Planner

end Reflowfy
