import Reflowfy.LocalExecutor

namespace Reflowfy

-- The keys of a run's own: generated ids, timestamps and batch numbers.
def generated : Set String :=
  {"execution_id", "batch_id", "created_at", "batch_number", "total_batches"}

-- A context of a job that runs for the first time.
def Fresh (pipeline_name : String) (context : ExecutionContext) : Prop :=
  context.pipeline_name = pipeline_name ∧ context.retry_count = 0 ∧ context.is_retry = false

-- The reserved keys that are not of the run's own.
def reserved (pipeline_name : String) : Params
  | "pipeline_name" => some (.str pipeline_name)
  | "retry_count" => some (.int 0)
  | "is_retry" => some (.bool false)
  | _ => none

-- Two jobs that are the same but for what is generated.
def Same (job job' : Ran) : Prop :=
  job.records = job'.records ∧ Set.EqOn job.runtime_params job'.runtime_params generatedᶜ

-- The preview runs the jobs that the workers run, and no job of an ID-based pipeline sees
-- the list of all IDs.
structure SameRun (id_based : Bool) (preview workers : Except Raised (List Ran)) : Prop where
  forth : ∀ jobs, preview = .ok jobs → ∃ jobs', workers = .ok jobs' ∧ List.Forall₂ Same jobs jobs'
  back : ∀ jobs', workers = .ok jobs' → ∃ jobs, preview = .ok jobs ∧ List.Forall₂ Same jobs jobs'
  input_ids : id_based = true → ∀ jobs, preview = .ok jobs ∨ workers = .ok jobs →
    ∀ job ∈ jobs, job.runtime_params "input_ids" = none

theorem SameRun.of_workers {id_based : Bool} {preview workers : Except Raised (List Ran)}
    (forth : ∀ jobs, preview = .ok jobs → ∃ jobs', workers = .ok jobs' ∧
      List.Forall₂ Same jobs jobs')
    (back : ∀ jobs', workers = .ok jobs' → ∃ jobs, preview = .ok jobs ∧
      List.Forall₂ Same jobs jobs')
    (input_ids : id_based = true → ∀ jobs', workers = .ok jobs' →
      ∀ job ∈ jobs', job.runtime_params "input_ids" = none) :
    SameRun id_based preview workers where
  forth := forth
  back := back
  input_ids := by
    intro hid jobs hjobs job hjob
    rcases hjobs with hpreview | hworkers
    · obtain ⟨jobs', hworkers, hsame⟩ := forth jobs hpreview
      obtain ⟨job', hjob', -, hparams⟩ := Paging.forall₂_mem_right hsame.flip job hjob
      rw [hparams (by simp [generated]), input_ids hid jobs' hworkers job' hjob']
    · exact input_ids hid jobs hworkers job hjob

section Params

variable {wire : Value → Value} {name k : String} {context context' : ExecutionContext} {S : Type}
    {source : Source S}

theorem keys_of_fresh (h : Fresh name context) (hk : k ∉ generated) :
    context.keys k = reserved name k := by
  obtain ⟨rfl, hretry, hfresh⟩ := h
  simp only [generated, Set.mem_insert_iff, Set.mem_singleton_iff, not_or] at hk
  obtain ⟨h1, h2, h3, h4, h5⟩ := hk
  unfold ExecutionContext.keys reserved
  split <;> simp_all

theorem not_generated_of_reserved {v : Value} (h : reserved name k = some v) : k ∉ generated := by
  unfold reserved at h
  split at h <;> simp_all [generated]

theorem flat_eq (params : Params) (k : String) :
    build_flat_runtime_params params context none k = (context.keys k <|> params k) := by
  simp only [build_flat_runtime_params, Params.merge, given]
  split <;> rfl

-- The params that a job is started with in the preview, and on a worker.
theorem preview_start (params : Params) (sub : Planned (Source S)) (k : String) :
    LocalExecutor.job_runtime_params sub (build_flat_runtime_params params context none) k =
      (sub.job_params.getD .empty k <|> (context.keys k <|> params k)) := by
  rw [← flat_eq]
  rfl

def worker_params (wire : Value → Value) (context : ExecutionContext) (default_job_params : Params)
    (sub_source : Planned (Source S)) : Params :=
  (PipelineRunner.job_payload context default_job_params 0 sub_source).runtime_params wire

theorem worker_start (default_job_params : Params) (sub : Planned (Source S)) (k : String) :
    worker_params wire context default_job_params sub k =
      (context.keys k <|> (sub.job_params.getD .empty k <|> default_job_params k).map wire) :=
  PipelineRunner.worker_params ..

-- A job's own params set no reserved key to anything else, they survive JSON, and so do the
-- params of the execution where it has none of its own.
structure Starts (wire : Value → Value) (name : String)
    (params default_job_params own : Params) : Prop where
  reserved_keys : ∀ k v, reserved name k = some v → own k = none ∨ own k = some v
  own_params : ∀ k v, k ∉ generated → reserved name k = none → own k = some v → wire v = v
  other_params : ∀ k, k ∉ generated → reserved name k = none → own k = none →
    params k = (default_job_params k).map wire

theorem starts_iff {params default_job_params own : Params} (hfresh : Fresh name context)
    (hfresh' : Fresh name context') :
    Set.EqOn (fun k => own k <|> (context.keys k <|> params k))
        (fun k => context'.keys k <|> (own k <|> default_job_params k).map wire) generatedᶜ ↔
      Starts wire name params default_job_params own := by
  have hkeys : ∀ k ∉ generated, context.keys k = reserved name k ∧
      context'.keys k = reserved name k :=
    fun k hk => ⟨keys_of_fresh hfresh hk, keys_of_fresh hfresh' hk⟩
  constructor
  · intro heq
    refine ⟨fun k v hv => ?_, fun k v hk hr hv => ?_, fun k hk hr hv => ?_⟩
    · have hk := not_generated_of_reserved hv
      have h := heq hk
      simp only [hkeys k hk, hv] at h
      cases ho : own k with
      | none => exact .inl rfl
      | some u => exact .inr (by simpa [ho] using h)
    · simpa [hkeys k hk, hr, hv, eq_comm] using heq hk
    · simpa [hkeys k hk, hr, hv] using heq hk
  · rintro ⟨hreserved, hown, hrest⟩ k hk
    simp only [hkeys k hk]
    cases hr : reserved name k with
    | some v => rcases hreserved k v hr with ho | ho <;> simp [ho]
    | none =>
        cases ho : own k with
        | some v => simp [hown k v hk hr ho]
        | none => simpa using hrest k hk hr ho

end Params

section Runs

open WorkerExecutor (run_job run_jobs)

variable {S : Type} {wire : Value → Value} {kind : SourceKind S} {name : String}
    {contexts : ℕ → ExecutionContext}
  {preview preview' : Except Raised (List Ran)} {jobs jobs' : List (Params × Planned (Source S))}
    {ran ran' : List Ran}

theorem run_jobs_nil : run_jobs wire kind contexts [] = .ok ran ↔ ran = [] := by
  simp [run_jobs, pure, Except.pure, eq_comm]

theorem run_jobs_cons {job : Params × Planned (Source S)} :
    run_jobs wire kind contexts (job :: jobs) = .ok ran ↔
    ∃ first rest, run_job wire kind (contexts 0) job.1 job.2 = .ok first ∧
      run_jobs wire kind (fun i => contexts (i + 1)) jobs = .ok rest ∧ ran = first :: rest := by
  rw [run_jobs, List.mapIdx_cons, List.mapM_cons]
  simp only [Paging.bind_eq_ok, pure, Except.pure, Except.ok.injEq]
  constructor
  · rintro ⟨first, hfirst, rest, hrest, rfl⟩
    exact ⟨first, rest, hfirst, hrest, rfl⟩
  · rintro ⟨first, rest, hfirst, hrest, rfl⟩
    exact ⟨first, hfirst, rest, hrest, rfl⟩

theorem run_jobs_append : run_jobs wire kind contexts (jobs ++ jobs') = .ok ran ↔
    ∃ front back, run_jobs wire kind contexts jobs = .ok front ∧
      run_jobs wire kind (fun i => contexts (i + jobs.length)) jobs' = .ok back ∧
        ran = front ++ back := by
  induction jobs generalizing contexts ran with
  | nil => simp [run_jobs_nil]
  | cons job jobs ih =>
      simp only [List.cons_append, run_jobs_cons, ih, List.length_cons]
      constructor
      · rintro ⟨first, _, hfirst, ⟨front, back, hfront, hback, rfl⟩, rfl⟩
        exact ⟨first :: front, back, ⟨first, front, hfirst, hfront, rfl⟩,
          by simpa [Nat.add_assoc] using hback, rfl⟩
      · rintro ⟨_, back, ⟨first, front, hfirst, hfront, rfl⟩, hback, rfl⟩
        exact ⟨first, front ++ back, hfirst,
          ⟨front, back, hfront, by simpa [Nat.add_assoc] using hback, rfl⟩, rfl⟩

theorem run_jobs_params (hran : run_jobs wire kind contexts jobs = .ok ran) :
    ∀ job ∈ ran, ∃ context, ∃ planned ∈ jobs, job.runtime_params = worker_params wire context
      planned.1 planned.2 := by
  induction jobs generalizing contexts ran with
  | nil => simp [run_jobs_nil.mp hran]
  | cons planned jobs ih =>
      obtain ⟨first, rest, hfirst, hrest, rfl⟩ := run_jobs_cons.mp hran
      intro job hjob
      rcases List.mem_cons.mp hjob with rfl | hjob
      · obtain ⟨records, -, hrecords⟩ := Paging.bind_eq_ok.mp hfirst
        exact ⟨contexts 0, planned, List.mem_cons_self, by rw [← Except.ok.inj hrecords]; rfl⟩
      · obtain ⟨context, planned', hplanned, hparams⟩ := ih hrest job hjob
        exact ⟨context, planned', List.mem_cons_of_mem _ hplanned, hparams⟩

-- Whatever their contexts are, the workers run the jobs that the preview runs.
def Both (wire : Value → Value) (kind : SourceKind S) (name : String)
    (preview : Except Raised (List Ran)) (jobs : List (Params × Planned (Source S))) : Prop :=
  ∀ contexts : ℕ → ExecutionContext, (∀ i, Fresh name (contexts i)) →
    (∀ ran, preview = .ok ran → ∃ ran', run_jobs wire kind contexts jobs = .ok ran' ∧
      List.Forall₂ Same ran ran') ∧
    ∀ ran', run_jobs wire kind contexts jobs = .ok ran' → ∃ ran, preview = .ok ran ∧
      List.Forall₂ Same ran ran'

theorem Both.nil : Both wire kind name (.ok []) [] := by
  intro contexts _
  refine ⟨fun ran hran => ⟨[], run_jobs_nil.mpr rfl, ?_⟩, fun ran' hran' => ⟨[], rfl, ?_⟩⟩
  · rw [← Except.ok.inj hran]
    exact .nil
  · rw [run_jobs_nil.mp hran']
    exact .nil

-- One job more, after which the preview may go on by what the job fetched.
theorem Both.cons {default_job_params params : Params} {sub : Planned (Source S)}
    {rest : List Value → Except Raised (List Ran)}
    (hfetch : ∀ context, Fresh name context → kind.with_static.fetch sub.source params =
      kind.with_static.fetch sub.source (worker_params wire context default_job_params sub))
    (hparams : ∀ context, Fresh name context →
      Set.EqOn params (worker_params wire context default_job_params sub) generatedᶜ)
    (hrest : ∀ records, kind.with_static.fetch sub.source params = .ok records →
      Both wire kind name (rest records) jobs) :
    Both wire kind name (do
      let records ← kind.with_static.fetch sub.source params
      let rest ← rest records
      pure (⟨records, params⟩ :: rest)) ((default_job_params, sub) :: jobs) := by
  intro contexts hcontexts
  have hjob : ∀ first, run_job wire kind (contexts 0) default_job_params sub = .ok first ↔
      ∃ records, kind.with_static.fetch sub.source params = .ok records ∧
        first = ⟨records, worker_params wire (contexts 0) default_job_params sub⟩ := by
    intro first
    rw [hfetch _ (hcontexts 0), run_job, Paging.bind_eq_ok]
    simp only [pure, Except.pure, Except.ok.injEq, eq_comm (b := first)]
    rfl
  constructor
  · intro ran hran
    simp only [Paging.bind_eq_ok, pure, Except.pure, Except.ok.injEq] at hran
    obtain ⟨records, hrecords, rest, hrun, rfl⟩ := hran
    obtain ⟨rest', hrun', hsame⟩ :=
      (hrest records hrecords _ fun i => hcontexts (i + 1)).1 rest hrun
    exact ⟨_, run_jobs_cons.mpr ⟨_, rest', (hjob _).mpr ⟨records, hrecords, rfl⟩, hrun', rfl⟩,
      .cons ⟨rfl, hparams _ (hcontexts 0)⟩ hsame⟩
  · intro ran' hran'
    obtain ⟨first, rest', hfirst, hrun', rfl⟩ := run_jobs_cons.mp hran'
    obtain ⟨records, hrecords, rfl⟩ := (hjob first).mp hfirst
    obtain ⟨others, hrun, hsame⟩ :=
      (hrest records hrecords _ fun i => hcontexts (i + 1)).2 rest' hrun'
    refine ⟨⟨records, params⟩ :: others, ?_, .cons ⟨rfl, hparams _ (hcontexts 0)⟩ hsame⟩
    rw [hrecords]
    show (do
      let rest ← rest records
      pure ((⟨records, params⟩ : Ran) :: rest)) = _
    rw [hrun]
    rfl

theorem Both.append (h : Both wire kind name preview jobs)
    (h' : Both wire kind name preview' jobs') :
    Both wire kind name (do
      let front ← preview
      let back ← preview'
      pure (front ++ back)) (jobs ++ jobs') := by
  intro contexts hcontexts
  have hback := h' _ fun i => hcontexts (i + jobs.length)
  constructor
  · intro ran hran
    simp only [Paging.bind_eq_ok, pure, Except.pure, Except.ok.injEq] at hran
    obtain ⟨front, hfront, back, hback', rfl⟩ := hran
    obtain ⟨front', hrun, hsame⟩ := (h contexts hcontexts).1 front hfront
    obtain ⟨back', hrun', hsame'⟩ := hback.1 back hback'
    exact ⟨_, run_jobs_append.mpr ⟨front', back', hrun, hrun', rfl⟩, List.rel_append hsame hsame'⟩
  · intro ran' hran'
    obtain ⟨front', back', hrun, hrun', rfl⟩ := run_jobs_append.mp hran'
    obtain ⟨front, hfront, hsame⟩ := (h contexts hcontexts).2 front' hrun
    obtain ⟨back, hback', hsame'⟩ := hback.2 back' hrun'
    refine ⟨front ++ back, ?_, List.rel_append hsame hsame'⟩
    rw [hfront, hback']
    rfl

-- Part by part.
theorem Both.parts {ι : Type} {l : List ι} {previews : ι → Except Raised (List Ran)}
    {planned : List (List (Params × Planned (Source S)))}
    (h : List.Forall₂ (fun i jobs => Both wire kind name (previews i) jobs) l planned) :
    Both wire kind name (List.flatten <$> l.mapM previews) planned.flatten := by
  induction h with
  | nil => exact Both.nil
  | @cons i jobs l planned hfirst _ ih =>
      have hboth := hfirst.append ih
      rw [List.mapM_cons, List.flatten_cons]
      cases hi : previews i with
      | error e => simpa [hi, bind, Except.bind] using hboth
      | ok front =>
          cases hl : l.mapM previews with
          | error e => simpa [hi, hl, bind, Except.bind] using hboth
          | ok back => simpa [hi, hl, bind, Except.bind, pure, Except.pure] using hboth

end Runs

section Standard

variable {S : Type} {wire : Value → Value} {kind : SourceKind S} {name : String}
    {splits fetches : Set String} {id_based : Bool}
  {context : ExecutionContext} {params params' : Params} {item : PlanItem S}
    {slices : List (Planned (Source S))}

namespace PlanItem

-- The source of an element reads these keys alone, when it is split and when its jobs are fetched.
def Reads (kind : SourceKind S) (splits fetches : Set String) : PlanItem S → Prop
  | .source planned => kind.with_static.Reads splits fetches planned.source
  | .records _ | .other _ => True

theorem plan_slices_congr (hreads : item.Reads kind splits fetches)
    (heq : Set.EqOn params params' splits) :
    item.plan_slices kind params = item.plan_slices kind params' := by
  cases item with
  | source planned =>
      show JobRunner.plan_slices _ _ _ = JobRunner.plan_slices _ _ _
      rw [JobRunner.plan_slices, hreads.split params params' heq, JobRunner.plan_slices]
  | records items => rfl
  | other type_name => rfl

-- A job of an element has what the plan attached to the element, and reads no other keys.
theorem of_mem_slices (hreads : item.Reads kind splits fetches)
    (hslices : item.plan_slices kind params = .ok slices) :
    ∀ sub ∈ slices, sub.job_params = item.job_params ∧ ∀ runtime_params runtime_params',
      Set.EqOn runtime_params runtime_params' fetches →
        kind.with_static.fetch sub.source runtime_params = kind.with_static.fetch sub.source
          runtime_params' := by
  intro sub hsub
  cases item with
  | source planned =>
      obtain ⟨children, hchildren, rfl⟩ := Paging.map_eq_ok.mp hslices
      obtain ⟨child, hchild, rfl⟩ := List.mem_map.mp hsub
      exact ⟨rfl, hreads.children params children hchildren child hchild⟩
  | records items =>
      obtain rfl := Except.ok.inj hslices
      cases items with
      | nil => cases hsub
      | cons record records =>
          obtain rfl := List.mem_singleton.mp hsub
          exact ⟨rfl, fun _ _ _ => rfl⟩
  | other type_name => cases hslices

end PlanItem

-- What must be so for an element of the plan, by its own params and the execution's at that
-- time: besides how its jobs start, the sources read, when they are split, no reserved key, or its
-- very value, and no param that has changed since `define_jobs` returned; and their jobs read, when
-- they are fetched, nothing that is of a run's own.
structure StepAgrees (wire : Value → Value) (name : String)
    (splits fetches : Set String) (id_based : Bool)
    (params : Params) (enriched_params : Params) (own : Option Params) : Prop where
  starts : Starts wire name params
    (WorkerExecutor.default_job_params id_based params enriched_params) (own.getD .empty)
  split : ∀ k ∈ splits, k ∉ generated ∧ (reserved name k <|> params k) = enriched_params k
  fetch : fetches ⊆ generatedᶜ
  input_ids : id_based = true → own.getD .empty "input_ids" = none ∧ params "input_ids" = none

theorem flat_eqOn (hfresh : Fresh name context) {enriched_params : Params} {own : Option Params}
    (hagrees : StepAgrees wire name splits fetches id_based params enriched_params own) :
    Set.EqOn (build_flat_runtime_params params context none) enriched_params splits := by
  intro k hk
  obtain ⟨hgenerated, hsame⟩ := hagrees.split k hk
  rw [← hsame, ← keys_of_fresh hfresh hgenerated, flat_eq]

-- The jobs of one element.
theorem step_both (hfresh : Fresh name context) {enriched_params : Params}
    (hagrees : StepAgrees wire name splits fetches id_based params enriched_params item.job_params)
    (hreads : item.Reads kind splits fetches)
    (hslices : item.plan_slices kind enriched_params = .ok slices) :
    Both wire kind name (slices.mapM
      (LocalExecutor.run_job kind (build_flat_runtime_params params context none)))
      (slices.map (WorkerExecutor.default_job_params id_based params enriched_params, ·)) := by
  have hsubs := PlanItem.of_mem_slices hreads hslices
  have hstart : ∀ sub ∈ slices, ∀ context', Fresh name context' → Set.EqOn
      (LocalExecutor.job_runtime_params sub (build_flat_runtime_params params context none))
      (worker_params wire context'
          (WorkerExecutor.default_job_params id_based params enriched_params) sub) generatedᶜ := by
    intro sub hsub context' hfresh' k hk
    rw [preview_start, worker_start, (hsubs sub hsub).1]
    exact (starts_iff hfresh hfresh').mpr hagrees.starts hk
  clear hslices
  induction slices with
  | nil => exact Both.nil
  | cons sub subs ih =>
      have hsub := hstart sub List.mem_cons_self
      have hfetch := (hsubs sub List.mem_cons_self).2
      have hrest := ih (fun sub hsub => hsubs sub (List.mem_cons_of_mem _ hsub))
        fun sub hsub => hstart sub (List.mem_cons_of_mem _ hsub)
      have hrun : (sub :: subs).mapM
          (LocalExecutor.run_job kind (build_flat_runtime_params params context none)) = (do
          let records ← kind.with_static.fetch sub.source
            (LocalExecutor.job_runtime_params sub (build_flat_runtime_params params context none))
          let rest ← subs.mapM
            (LocalExecutor.run_job kind (build_flat_runtime_params params context none))
          pure (⟨records, LocalExecutor.job_runtime_params sub
              (build_flat_runtime_params params context none)⟩ :: rest)) := by
        rw [List.mapM_cons]
        simp only [LocalExecutor.run_job, bind_assoc, pure_bind]
      rw [hrun]
      exact Both.cons (fun context' hfresh' =>
        hfetch _ _ ((hsub context' hfresh').mono hagrees.fetch)) hsub fun _ _ => hrest

-- The planned jobs of an element.
def planned_part (id_based : Bool) (resolved_params : Params) (item : Params × PlanItem S)
    (slice : List (Planned (Source S))) : List (Params × Planned (Source S)) :=
  slice.map (WorkerExecutor.default_job_params id_based resolved_params item.1, ·)

theorem planned_jobs_eq_ok {plan : ResolvedPlan S} {jobs : List (Params × Planned (Source S))} :
    WorkerExecutor.planned_jobs kind id_based plan = .ok jobs ↔
      ∃ slices, List.Forall₂ (fun item slice => item.2.plan_slices kind item.1 = .ok slice)
        plan.items slices ∧
        jobs = (List.zipWith (planned_part id_based plan.resolved_params) plan.items
          slices).flatten := by
  rw [WorkerExecutor.planned_jobs, Paging.map_eq_ok]
  constructor
  · rintro ⟨planned, hplanned, rfl⟩
    obtain ⟨slices, hslices, rfl⟩ := Paging.mapM_map_eq_ok.mp hplanned
    exact ⟨slices, Paging.mapM_eq_ok.mp hslices, rfl⟩
  · rintro ⟨slices, hslices, rfl⟩
    exact ⟨_, Paging.mapM_map_eq_ok.mpr ⟨slices, Paging.mapM_eq_ok.mpr hslices, rfl⟩, rfl⟩

theorem execute_eq_ok {plan : ResolvedPlan S} {ran : List Ran} :
    LocalExecutor.execute kind context plan = .ok ran ↔
      ∃ slices, List.Forall₂ (fun item slice =>
          item.2.plan_slices kind (build_flat_runtime_params plan.resolved_params context none) =
            .ok slice) plan.items slices ∧
        List.flatten <$> slices.mapM (fun subs => subs.mapM
          (LocalExecutor.run_job kind
            (build_flat_runtime_params plan.resolved_params context none))) = .ok ran := by
  rw [LocalExecutor.execute, Paging.bind_eq_ok]
  simp only [Paging.mapM_eq_ok]

-- The standard path, element by element.
theorem execute_same {contexts : ℕ → ExecutionContext} {plan : ResolvedPlan S}
    (hfresh : Fresh name context) (hcontexts : ∀ i, Fresh name (contexts i))
    (hagrees : ∀ item ∈ plan.items,
      StepAgrees wire name splits fetches id_based plan.resolved_params item.1 item.2.job_params)
    (hreads : ∀ item ∈ plan.items, item.2.Reads kind splits fetches) :
    SameRun id_based (LocalExecutor.execute kind context plan)
      (WorkerExecutor.run_plan wire kind contexts id_based plan) := by
  have hplan : ∀ item ∈ plan.items,
      item.2.plan_slices kind (build_flat_runtime_params plan.resolved_params context none) =
        item.2.plan_slices kind item.1 :=
    fun item hitem => PlanItem.plan_slices_congr (hreads item hitem)
      (flat_eqOn hfresh (hagrees item hitem))
  have hboth := fun slices
      (hslices : List.Forall₂ (fun item slice => item.2.plan_slices kind item.1 = .ok slice)
        plan.items slices) =>
    Both.parts (Paging.forall₂_zipWith hslices fun item hitem slice hslice =>
      step_both hfresh (hagrees item hitem) (hreads item hitem) hslice) contexts hcontexts
  refine SameRun.of_workers ?_ ?_ ?_
  · intro ran hran
    obtain ⟨slices, hflat, hrun⟩ := execute_eq_ok.mp hran
    have hslices := ((List.forall₂_and_left _ _).mpr ⟨hplan, hflat⟩).imp fun item slice h =>
      h.1.symm.trans h.2
    obtain ⟨ran', hran', hsame⟩ := (hboth slices hslices).1 ran hrun
    exact ⟨ran', Paging.bind_eq_ok.mpr
      ⟨_, planned_jobs_eq_ok.mpr ⟨slices, hslices, rfl⟩, hran'⟩, hsame⟩
  · intro ran' hran'
    obtain ⟨jobs, hjobs, hran'⟩ := Paging.bind_eq_ok.mp hran'
    obtain ⟨slices, hslices, rfl⟩ := planned_jobs_eq_ok.mp hjobs
    obtain ⟨ran, hran, hsame⟩ := (hboth slices hslices).2 ran' hran'
    have hflat := ((List.forall₂_and_left _ _).mpr ⟨hplan, hslices⟩).imp
      fun item slice h => h.1.trans h.2
    exact ⟨ran, execute_eq_ok.mpr ⟨slices, hflat, hran⟩, hsame⟩
  · rintro rfl ran' hran' job hjob
    obtain ⟨jobs, hjobs, hran'⟩ := Paging.bind_eq_ok.mp hran'
    obtain ⟨slices, hslices, rfl⟩ := planned_jobs_eq_ok.mp hjobs
    obtain ⟨context', planned, hplanned, hparams⟩ := run_jobs_params hran' job hjob
    obtain ⟨part, hpart, hplanned⟩ := List.mem_flatten.mp hplanned
    have hparts : List.Forall₂
      (fun _ part => ∀ planned ∈ part, worker_params wire context' planned.1 planned.2
      "input_ids" = none)
        slices (List.zipWith (planned_part true plan.resolved_params) plan.items slices) := by
      refine Paging.forall₂_zipWith hslices fun item hitem slice hslice planned hplanned => ?_
      obtain ⟨sub, hsub, rfl⟩ := List.mem_map.mp hplanned
      have hown := (PlanItem.of_mem_slices (hreads item hitem) hslice sub hsub).1
      rw [worker_start, hown, ((hagrees item hitem).input_ids rfl).1]
      simp [WorkerExecutor.default_job_params, ExecutionContext.keys]
    obtain ⟨slice, -, hnone⟩ := Paging.forall₂_mem_right hparts part hpart
    rw [hparams, hnone planned hplanned]

end Standard

end Reflowfy
