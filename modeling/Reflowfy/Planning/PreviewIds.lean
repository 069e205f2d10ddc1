import Reflowfy.Planning.Preview

namespace Reflowfy

open IdBasedPipeline (batch_params)
open LocalExecutor (after_job flat_id_params run_id run_slices execute_id_based)

section Start

variable {wire : Value → Value} {name k : String} {context context' : ExecutionContext}
    {params own : Params}
  {current_id : Value} {S : Type}

-- The params that the first job of an ID starts with in the preview, but for the generated ones.
def id_params (name : String) (own : Params) (current_id : Value) : Params := fun k =>
  if k = "current_id" then some current_id
  else if k = "current_ids" then some (.list [current_id])
  else reserved name k <|> own k

theorem flat_id_params_apply : flat_id_params context own current_id k =
    if k = "current_id" then some current_id
    else if k = "current_ids" then some (.list [current_id])
    else (context.keys k <|> own k) := by
  rw [flat_id_params]
  split
  next hid =>
      subst hid
      exact Params.set_self ..
  next hid =>
      rw [Params.set_of_ne hid]
      simp only [build_flat_runtime_params, Params.merge, given]
      split <;> rfl

theorem flat_id_params_eq (hfresh : Fresh name context) (hk : k ∉ generated) :
    flat_id_params context own current_id k = id_params name own current_id k := by
  rw [flat_id_params_apply, keys_of_fresh hfresh hk]
  rfl

-- What `define_source` leaves of the batch's params has the list of all IDs no more, it is
-- there that the workers find the current IDs, the rest survives JSON, and what it has removed
-- the execution does not have either.
structure IdStarts (wire : Value → Value) (name : String) (params own : Params)
    (current_id : Value) : Prop where
  input_ids : own "input_ids" = none
  current_ids : (own "current_ids" <|> params "current_ids").map wire = some (.list [current_id])
  current_id : (own "current_id" <|> params "current_id").map wire = some current_id
  others : ∀ k, k ∉ generated → reserved name k = none → k ≠ "input_ids" → k ≠ "current_ids" →
    k ≠ "current_id" →
    (own k <|> params k).map wire = own k

theorem idStarts_iff (source : Source S) (hfresh : Fresh name context)
    (hfresh' : Fresh name context') :
    Set.EqOn (flat_id_params context own current_id)
        (worker_params wire context' (params.without "input_ids")
          ⟨source, some (own.without "input_ids")⟩) generatedᶜ ↔
      IdStarts wire name params own current_id := by
  have hworker : ∀ k ∉ generated, worker_params wire context' (params.without "input_ids")
      ⟨source, some (own.without "input_ids")⟩ k =
        (reserved name k <|>
            (own.without "input_ids" k <|> params.without "input_ids" k).map wire) := by
    intro k hk
    rw [worker_start, keys_of_fresh hfresh' hk]
    rfl
  constructor
  · intro heq
    have hsame : ∀ k ∉ generated, id_params name own current_id k =
        (reserved name k <|>
            (own.without "input_ids" k <|> params.without "input_ids" k).map wire) :=
      fun k hk => by rw [← hworker k hk, ← heq hk, flat_id_params_eq hfresh hk]
    refine ⟨?_, ?_, ?_, ?_⟩
    · simpa [id_params, reserved] using hsame "input_ids" (by simp [generated])
    · simpa [id_params, reserved, Params.without, eq_comm] using hsame "current_ids"
        (by simp [generated])
    · simpa [id_params, reserved, Params.without, eq_comm] using hsame "current_id"
        (by simp [generated])
    · intro k hk hr hinput hids hid
      simpa [id_params, hr, hids, hid, Params.without_of_ne hinput, eq_comm] using hsame k hk
  · intro h k hk
    rw [hworker k hk, flat_id_params_eq hfresh hk]
    by_cases hid : k = "current_id"
    · subst hid
      simpa [id_params, reserved, Params.without, eq_comm] using h.current_id
    by_cases hids : k = "current_ids"
    · subst hids
      simpa [id_params, reserved, Params.without, eq_comm] using h.current_ids
    by_cases hinput : k = "input_ids"
    · subst hinput
      simp [id_params, reserved, h.input_ids]
    cases hr : reserved name k with
    | some v => simp [id_params, hid, hids, hr]
    | none => simpa [id_params, hid, hids, hr, Params.without_of_ne hinput] using (h.others k hk hr
        hinput hids hid).symm

end Start

-- What must be so for an ID: besides how its first job starts, the source reads these keys
-- alike when it is split, its jobs read nothing of a run's own when they are fetched, and
-- leave the params that they share as they are.
structure IdAgrees (wire : Value → Value) (name : String) (splits fetches : Set String)
    (transformed : List Value → Params → Params) (params own : Params)
    (current_id : Value) : Prop where
  starts : IdStarts wire name params own current_id
  split : ∀ k ∈ splits, k ∉ generated ∧ id_params name own current_id k = params k
  fetch : fetches ⊆ generatedᶜ
  writes : ∀ context, Fresh name context → ∀ jobs : List (List Value),
    Set.EqOn (jobs.foldl (fun params records => after_job transformed records params)
      (flat_id_params context own current_id))
      (flat_id_params context own current_id) generatedᶜ

theorem IdAgrees.flat_eqOn {wire : Value → Value} {name : String} {splits fetches : Set String}
    {context : ExecutionContext}
    {transformed : List Value → Params → Params} {params own : Params} {current_id : Value}
    (hfresh : Fresh name context)
    (hagrees : IdAgrees wire name splits fetches transformed params own current_id) :
    Set.EqOn (flat_id_params context own current_id) params splits := by
  intro k hk
  obtain ⟨hgenerated, hsame⟩ := hagrees.split k hk
  rw [flat_id_params_eq hfresh hgenerated, hsame]

section Ids

variable {S : Type} {wire : Value → Value} {kind : SourceKind S} {name : String}
    {splits fetches : Set String}
  {transformed : List Value → Params → Params} {context : ExecutionContext}
    {pipeline : IdBasedPipeline S} {params : Params}
  {current_id : Value} {source : Source S} {children : List (Source S)}
    {slices : List (List (Planned (Source S)))}

-- The jobs of an ID on the workers.
def id_jobs (pipeline : IdBasedPipeline S) (params : Params) (current_id : Value)
    (children : List (Source S)) :
    List (Planned (Source S)) :=
  children.map (⟨·, some (IdBasedPipeline.job_params pipeline.enriched params [current_id])⟩)

-- What an ID-based pipeline plans for an ID that is a batch of its own.
def IdPlanned (kind : SourceKind S) (pipeline : IdBasedPipeline S) (params : Params)
    (current_id : Value) (slice : List (Planned (Source S))) : Prop :=
  ∃ source children, pipeline.resolve_source (batch_params params [current_id]) = .ok source ∧
    kind.with_static.split source params = .ok children ∧
      slice = id_jobs pipeline params current_id children

theorem plan_batches_single
    (hsingle : JobRunner.chunk (IdBasedPipeline.input_ids params) pipeline.ids_batch_size =
      .ok ((IdBasedPipeline.input_ids params).map ([·]))) :
    pipeline.plan_batches kind params = .ok slices ↔
      List.Forall₂ (IdPlanned kind pipeline params) (IdBasedPipeline.input_ids params) slices := by
  rw [IdBasedPipeline.plan_batches_eq_ok]
  simp only [IdBasedPipeline.define_jobs_eq_ok, hsingle, Except.ok.injEq, exists_eq_left',
    List.forall₂_map_left_iff]
  rw [← Paging.forall₂_comp_iff]
  refine iff_of_eq (congrArg (List.Forall₂ · _ _) (funext₂ fun current_id slice => propext ?_))
  constructor
  · rintro ⟨⟨source, own⟩, ⟨hsource, rfl⟩, hslice⟩
    obtain ⟨children, hchildren, rfl⟩ := Paging.map_eq_ok.mp hslice
    exact ⟨source, children, hsource, hchildren, rfl⟩
  · rintro ⟨source, children, hsource, hchildren, rfl⟩
    exact ⟨⟨source, _⟩, ⟨hsource, rfl⟩, Paging.map_eq_ok.mpr ⟨children, hchildren, rfl⟩⟩

theorem run_id_eq_ok {ran : List Ran} :
    run_id transformed kind context pipeline params current_id = .ok ran ↔
    ∃ source children, pipeline.resolve_source (batch_params params [current_id]) = .ok source ∧
      kind.with_static.split source
        (flat_id_params context (pipeline.enriched (batch_params params [current_id]))
          current_id) = .ok children ∧
      run_slices transformed kind
        (flat_id_params context (pipeline.enriched (batch_params params [current_id])) current_id)
        (children.map (⟨·, none⟩)) = .ok ran := by
  simp only [run_id, IdBasedPipeline.resolve_for_ids, JobRunner.plan_slices, Paging.bind_eq_ok,
    Paging.map_eq_ok, pure,
    Except.pure, Except.ok.injEq]
  constructor
  · rintro ⟨_, ⟨source, hsource, rfl⟩, _, ⟨children, hchildren, rfl⟩, hran⟩
    exact ⟨source, children, hsource, hchildren, hran⟩
  · rintro ⟨source, children, hsource, hchildren, hran⟩
    exact ⟨_, ⟨source, hsource, rfl⟩, _, ⟨children, hchildren, rfl⟩, hran⟩

-- The slices of one ID, whatever the jobs before them have left in the params.
theorem run_slices_both (hfresh : Fresh name context)
    (hagrees : IdAgrees wire name splits fetches transformed params
      (pipeline.enriched (batch_params params [current_id])) current_id)
    (hreads : ∀ child ∈ children, ∀ runtime_params runtime_params',
      Set.EqOn runtime_params runtime_params' fetches →
      kind.with_static.fetch child runtime_params = kind.with_static.fetch child runtime_params')
        (jobs : List (List Value)) :
    Both wire kind name (run_slices transformed kind
      (jobs.foldl (fun params records => after_job transformed records params)
        (flat_id_params context (pipeline.enriched (batch_params params [current_id])) current_id))
          (children.map (⟨·, none⟩)))
      ((id_jobs pipeline params current_id children).map (params.without "input_ids", ·)) := by
  induction children generalizing jobs with
  | nil => exact Both.nil
  | cons child children ih =>
      have hparams := fun context' (hfresh' : Fresh name context') =>
        (hagrees.writes context hfresh jobs).trans
          ((idStarts_iff child hfresh hfresh').mpr hagrees.starts)
      refine Both.cons (fun context' hfresh' => hreads child List.mem_cons_self _ _
        ((hparams context' hfresh').mono hagrees.fetch))
        hparams fun records _ => ?_
      have hrest := ih (fun child hchild => hreads child (List.mem_cons_of_mem _ hchild))
        (jobs ++ [records])
      rwa [List.foldl_append] at hrest

-- An ID that is a batch of its own.
theorem run_id_both (hfresh : Fresh name context)
    (hagrees : IdAgrees wire name splits fetches transformed params
      (pipeline.enriched (batch_params params [current_id])) current_id)
    (hsource : pipeline.resolve_source (batch_params params [current_id]) = .ok source)
    (hreads : kind.with_static.Reads splits fetches source)
    (hchildren : kind.with_static.split source params = .ok children) :
    Both wire kind name (run_id transformed kind context pipeline params current_id)
      ((id_jobs pipeline params current_id children).map (params.without "input_ids", ·)) := by
  have hrun := run_slices_both hfresh hagrees (hreads.children params children hchildren) []
  have heq : run_id transformed kind context pipeline params current_id =
      run_slices transformed kind
        (flat_id_params context (pipeline.enriched (batch_params params [current_id])) current_id)
        (children.map (⟨·, none⟩)) := by
    rw [← hreads.split _ _ (hagrees.flat_eqOn hfresh)] at hchildren
    rw [run_id, IdBasedPipeline.resolve_for_ids, hsource]
    show JobRunner.plan_slices kind.with_static ⟨source, none⟩ _ >>=
      run_slices transformed kind _ = _
    rw [JobRunner.plan_slices, hchildren]
    rfl
  rw [heq]
  exact hrun

-- The built-in path, ID by ID.
theorem execute_id_based_same {contexts : ℕ → ExecutionContext} (hfresh : Fresh name context)
    (hcontexts : ∀ i, Fresh name (contexts i))
    (hsingle : JobRunner.chunk (IdBasedPipeline.input_ids params) pipeline.ids_batch_size =
      .ok ((IdBasedPipeline.input_ids params).map ([·])))
    (hagrees : ∀ current_id ∈ IdBasedPipeline.input_ids params, IdAgrees wire name splits fetches
      transformed params
      (pipeline.enriched (batch_params params [current_id])) current_id)
    (hreads : ∀ current_id source, pipeline.resolve_source
      (batch_params params [current_id]) = .ok source →
      kind.with_static.Reads splits fetches source) :
    SameRun true (execute_id_based transformed kind context pipeline params)
      (WorkerExecutor.run_id_based wire kind contexts pipeline params) := by
  have hboth : ∀ slices, List.Forall₂ (IdPlanned kind pipeline params)
    (IdBasedPipeline.input_ids params) slices →
      Both wire kind name (execute_id_based transformed kind context pipeline params)
        (slices.flatten.map (params.without "input_ids", ·)) := by
    intro slices hslices
    rw [List.map_flatten]
    refine Both.parts (List.forall₂_map_right_iff.mpr ?_)
    refine ((List.forall₂_and_left _ _).mpr ⟨hagrees, hslices⟩).imp ?_
    rintro current_id _ ⟨hid, source, children, hsource, hchildren, rfl⟩
    exact run_id_both hfresh hid hsource (hreads current_id source hsource) hchildren
  refine SameRun.of_workers ?_ ?_ ?_
  · intro ran hran
    have hplanned : ∀ current_id ∈ IdBasedPipeline.input_ids params, ∃ slice,
        IdPlanned kind pipeline params current_id slice := by
      obtain ⟨parts, hparts, -⟩ := Paging.map_eq_ok.mp hran
      intro current_id hcurrent
      obtain ⟨part, -, hpart⟩ :=
        Paging.forall₂_mem_right (Paging.mapM_eq_ok.mp hparts).flip current_id hcurrent
      obtain ⟨source, children, hsource, hchildren, -⟩ := run_id_eq_ok.mp hpart
      have hsplit := (hreads current_id source hsource).split _ params
        ((hagrees current_id hcurrent).flat_eqOn hfresh)
      exact ⟨_, source, children, hsource, hsplit ▸ hchildren, rfl⟩
    obtain ⟨slices, hslices⟩ := Paging.exists_forall₂ hplanned
    obtain ⟨ran', hran', hsame⟩ := (hboth slices hslices contexts hcontexts).1 ran hran
    exact ⟨ran', Paging.bind_eq_ok.mpr
      ⟨slices, (plan_batches_single hsingle).mpr hslices, hran'⟩, hsame⟩
  · intro ran' hran'
    obtain ⟨slices, hslices, hran'⟩ := Paging.bind_eq_ok.mp hran'
    exact (hboth slices ((plan_batches_single hsingle).mp hslices) contexts hcontexts).2 ran' hran'
  · intro _ ran' hran' job hjob
    obtain ⟨slices, hslices, hran'⟩ := Paging.bind_eq_ok.mp hran'
    obtain ⟨context', planned, hplanned, hparams⟩ := run_jobs_params hran' job hjob
    obtain ⟨sub, hsub, rfl⟩ := List.mem_map.mp hplanned
    obtain ⟨slice, hslice, hsub⟩ := List.mem_flatten.mp hsub
    obtain ⟨current_id, -, source, children, -, -, rfl⟩ :=
      Paging.forall₂_mem_right ((plan_batches_single hsingle).mp hslices) slice hslice
    obtain ⟨child, -, rfl⟩ := List.mem_map.mp hsub
    rw [hparams, worker_start]
    simp [ExecutionContext.keys, IdBasedPipeline.job_params]

end Ids

end Reflowfy
