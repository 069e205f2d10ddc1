import Reflowfy.IdBasedPipeline
import Reflowfy.Planning.Batches
import Reflowfy.Sources.Api
import Reflowfy.Sources.Footprint
import Mathlib.Data.List.SplitLengths

namespace Reflowfy

open Paging (Delivers)

namespace PipelineRunner

variable {S : Type} {B : ℕ} {context : ExecutionContext}

-- What the worker calls `fetch` of, and with.
def run (wire : Value → Value) (job : PlannedJob S) : S × Params :=
  (job.job_payload.source, job.job_payload.runtime_params wire)

-- The context in the message of the `i`-th of `n` jobs.
def sent_context (B : ℕ) (context : ExecutionContext) (n i : ℕ) : ExecutionContext :=
  { context with batch_number := i / B + 1, total_batches := n / B + 1 }

-- What the worker fetches of a plan.
theorem runs_eq (hB : 1 ≤ B) (wire : Value → Value) (context : ExecutionContext)
    (default_job_params : Params) (plan : List (JobId × Planned S)) :
    (plan_jobs B context default_job_params plan).jobs.map (run wire) =
      plan.mapIdx fun i sub_source => (sub_source.2.source,
        (job_payload (sent_context B context plan.length i) default_job_params sub_source.1
          sub_source.2).runtime_params wire) := by
  rw [jobs_eq hB, bulk_set_total_batches, List.map_map]
  exact map_rows _ _ (fun _ _ => rfl) plan

theorem sent_keys_of_ne {n i : ℕ} {k : String} (hnumber : k ≠ "batch_number")
    (htotal : k ≠ "total_batches") :
    (sent_context B context n i).keys k = context.keys k := by
  unfold ExecutionContext.keys
  split <;> first | rfl | contradiction

-- Cut into parts of the same lengths, two lists that match element by element match part by part.
theorem forall₂_splitLengths {α β : Type} {R : α → β → Prop} {items : List α}
    {parts : List (List β)} (h : List.Forall₂ R items parts.flatten) :
    List.Forall₂ (List.Forall₂ R) ((parts.map List.length).splitLengths items) parts := by
  induction parts generalizing items with
  | nil => exact .nil
  | cons part parts ih =>
      rw [List.map_cons, List.splitLengths_cons]
      exact .cons (List.forall₂_take_append items part parts.flatten h)
        (ih (List.forall₂_drop_append items part parts.flatten h))

end PipelineRunner

namespace IdBasedPipeline

variable {S : Type}

-- The plan, batch by batch.
def plan_batches (kind : SourceKind S) (pipeline : IdBasedPipeline S) (enriched_params : Params) :
    Except Raised (List (List (Planned (Source S)))) := do
  let sources ← pipeline.define_jobs enriched_params
  sources.mapM fun source => JobRunner.plan_slices kind.with_static source enriched_params

-- The saved jobs of each batch; the `i`-th job of the plan has the `i`-th id.
def jobs_by_batch (B : ℕ) (context : ExecutionContext) (enriched_params : Params)
    (job_id : ℕ → JobId) (slices : List (List (Planned S))) : List (List (PlannedJob S)) :=
  (slices.map List.length).splitLengths
    (PipelineRunner.plan_jobs B context (enriched_params.without "input_ids")
      (slices.flatten.mapIdx fun i sub_source => (job_id i, sub_source))).jobs

-- What a batch's source fetches with the batch's params.
def fetch_directly (kind : SourceKind S) (source : Planned (Source S)) :
    Except Raised (List Value) :=
  kind.with_static.fetch source.source (source.job_params.getD .empty)

-- What the workers fetch for these jobs.
def Fetched (wire : Value → Value) (kind : SourceKind S) (jobs : List (PlannedJob (Source S)))
    (records : List Value) :
    Prop :=
  Delivers (fun job part => kind.with_static.fetch (PipelineRunner.run wire job).1
    (PipelineRunner.run wire job).2 = .ok part)
    jobs records

-- The plan is made where every batch can be fetched; the jobs of each batch fetch what its
-- source would with the batch's params; and where that is a record for each ID of the batch,
-- the jobs of all batches fetch the record of each ID once.
structure ReadsOnce (wire : Value → Value) (B : ℕ) (context : ExecutionContext) (job_id : ℕ → JobId)
    (kind : SourceKind S) (pipeline : IdBasedPipeline S) (enriched_params : Params) : Prop where
  planned : ∀ sources, pipeline.define_jobs enriched_params = .ok sources →
    (∀ source ∈ sources, ∃ records, fetch_directly kind source = .ok records) →
      ∃ slices, pipeline.plan_batches kind enriched_params = .ok slices
  records : ∀ sources slices, pipeline.define_jobs enriched_params = .ok sources →
    pipeline.plan_batches kind enriched_params = .ok slices →
      List.Forall₂ (fun jobs source => ∀ records, Fetched wire kind jobs records ↔
        fetch_directly kind source = .ok records)
        (jobs_by_batch B context enriched_params job_id slices) sources
  each_id_once : ∀ sources slices batches, pipeline.define_jobs enriched_params = .ok sources →
    pipeline.plan_batches kind enriched_params = .ok slices →
    JobRunner.chunk (input_ids enriched_params) pipeline.ids_batch_size = .ok batches →
      ∀ record : Value → Value,
        List.Forall₂ (fun source ids_batch => fetch_directly kind source =
          .ok (ids_batch.map record)) sources batches →
          Fetched wire kind (jobs_by_batch B context enriched_params job_id slices).flatten
            ((input_ids enriched_params).map record)

section Plan

variable {kind : SourceKind S} {pipeline : IdBasedPipeline S} {enriched_params : Params}

-- What the plan has for a batch.
def Resolves (pipeline : IdBasedPipeline S) (enriched_params : Params) (ids_batch : List Value)
    (source : Planned (Source S)) : Prop :=
  pipeline.resolve_source (batch_params enriched_params ids_batch) = .ok source.source ∧
    source.job_params = some (job_params pipeline.enriched enriched_params ids_batch)

theorem define_jobs_eq_ok {sources : List (Planned (Source S))} :
    pipeline.define_jobs enriched_params = .ok sources ↔
      ∃ batches, JobRunner.chunk (input_ids enriched_params) pipeline.ids_batch_size = .ok batches ∧
        List.Forall₂ (pipeline.Resolves enriched_params) batches sources := by
  simp only [define_jobs, Paging.bind_eq_ok, Paging.mapM_eq_ok]
  refine exists_congr fun batches => and_congr_right fun _ => ?_
  have hone : ∀ ids_batch (source : Planned (Source S)),
    (∃ resolved, pipeline.resolve_for_ids enriched_params ids_batch = .ok resolved ∧
      (pure ⟨resolved.1, some (resolved.2.without "input_ids")⟩ : Except Raised _) = .ok source) ↔
        pipeline.Resolves enriched_params ids_batch source := by
    intro ids_batch source
    simp only [resolve_for_ids, Paging.bind_eq_ok, pure, Except.pure, Except.ok.injEq]
    constructor
    · rintro ⟨_, ⟨source', hsource', rfl⟩, rfl⟩
      exact ⟨hsource', rfl⟩
    · rintro ⟨hsource, hparams⟩
      refine ⟨_, ⟨source.source, hsource, rfl⟩, ?_⟩
      show (⟨source.source, some (job_params pipeline.enriched enriched_params ids_batch)⟩ : Planned
        (Source S)) = source
      rw [← hparams]
  exact ⟨fun h => h.imp fun _ _ => (hone _ _).mp, fun h => h.imp fun _ _ => (hone _ _).mpr⟩

theorem plan_batches_eq_ok {slices : List (List (Planned (Source S)))} :
    pipeline.plan_batches kind enriched_params = .ok slices ↔
      ∃ sources, pipeline.define_jobs enriched_params = .ok sources ∧
        List.Forall₂ (fun source slice => JobRunner.plan_slices kind.with_static source
          enriched_params = .ok slice)
          sources slices := by
  rw [plan_batches, Paging.bind_eq_ok]
  simp only [Paging.mapM_eq_ok]

-- A job of a batch as the worker runs it.
def Sends (wire : Value → Value) (B : ℕ) (context : ExecutionContext)
    (enriched_params : Params) (n : ℕ) (job : PlannedJob S) (sub_source : Planned S) : Prop :=
  (PipelineRunner.run wire job).1 = sub_source.source ∧
    ∃ i < n, ∀ k, (PipelineRunner.run wire job).2 k =
      ((PipelineRunner.sent_context B context n i).keys k <|>
      (PipelineRunner.job_params (enriched_params.without "input_ids") sub_source k).map wire)

theorem jobs_by_batch_sends {B : ℕ} (hB : 1 ≤ B) (wire : Value → Value) (context : ExecutionContext)
    (enriched_params : Params) (job_id : ℕ → JobId) (slices : List (List (Planned S))) :
    List.Forall₂ (List.Forall₂ (Sends wire B context enriched_params slices.flatten.length))
      (jobs_by_batch B context enriched_params job_id slices) slices := by
  refine PipelineRunner.forall₂_splitLengths ?_
  have hruns := PipelineRunner.runs_eq hB wire context (enriched_params.without "input_ids")
    (slices.flatten.mapIdx fun i sub_source => (job_id i, sub_source))
  have hlen := congrArg List.length hruns
  simp only [List.length_map, List.length_mapIdx] at hlen
  rw [List.forall₂_iff_get]
  refine ⟨hlen, fun i hi hi' => ?_⟩
  have hrun := List.getElem_of_eq hruns (i := i) (by simpa using hi)
  simp only [List.getElem_map, List.getElem_mapIdx, List.length_mapIdx] at hrun
  rw [List.get_eq_getElem, List.get_eq_getElem]
  refine ⟨congrArg Prod.fst hrun, i, hi', fun k => ?_⟩
  rw [congrFun (congrArg Prod.snd hrun) k]
  exact PipelineRunner.worker_params ..

end Plan

-- For each batch, what a source reads when it is split is in the params of the execution as
-- it is in the batch's, and what its children read when they are fetched comes to the
-- worker so.
structure Shared (wire : Value → Value) (context : ExecutionContext) (enriched : Params → Params)
    (enriched_params : Params)
    (batches : List (List Value)) (splits fetches : Set String) : Prop where
  split : ∀ ids_batch ∈ batches, ∀ k ∈ splits, job_params enriched enriched_params ids_batch
    k = enriched_params k
  fetch : ∀ ids_batch ∈ batches, ∀ k ∈ fetches, k ≠ "batch_number" ∧ k ≠ "total_batches" ∧
    (context.keys k <|> (job_params enriched enriched_params ids_batch k <|>
      enriched_params.without "input_ids" k).map wire) = job_params enriched
        enriched_params ids_batch k

section Agreement

variable {kind : SourceKind S} {pipeline : IdBasedPipeline S} {enriched_params : Params}
  {splits fetches : Set String} {wire : Value → Value} {B : ℕ} {context : ExecutionContext}
    {batches : List (List Value)} {ids_batch : List Value}
  {source : Planned (Source S)}

-- A property of the sources that `define_source` returns, which `StaticSource` has, too.
theorem resolved_of {P : Source S → Prop} (hstatic : ∀ records, P (.StaticSource records))
    (hof : ∀ source, pipeline.define_source (batch_params enriched_params ids_batch) =
      .ok (.source source) → P (.of source))
    (hsource : pipeline.Resolves enriched_params ids_batch source) : P source.source := by
  obtain ⟨hsource, -⟩ := hsource
  rw [resolve_source, Paging.bind_eq_ok] at hsource
  obtain ⟨returned, hreturned, hsource⟩ := hsource
  cases returned with
  | source own =>
      rw [← Except.ok.inj hsource]
      exact hof own hreturned
  | records items =>
      rw [← Except.ok.inj hsource]
      exact hstatic items
  | other => cases hsource

-- The jobs of one batch.
theorem batch_fetched_iff (hfaithful : kind.with_static.Faithful source.source)
    (hshared : Shared wire context pipeline.enriched enriched_params batches splits fetches)
    (hbatch : ids_batch ∈ batches) (hsource : pipeline.Resolves enriched_params ids_batch source)
    (hreads : kind.with_static.Reads splits fetches source.source)
    {slice : List (Planned (Source S))}
    (hslice : JobRunner.plan_slices kind.with_static source enriched_params = .ok slice) {n : ℕ}
    {jobs : List (PlannedJob (Source S))}
    (hjobs : List.Forall₂ (Sends wire B context enriched_params n) jobs slice)
    (records : List Value) : Fetched wire kind jobs records ↔
      fetch_directly kind source = .ok records := by
  obtain ⟨children, hchildren, rfl⟩ := Paging.map_eq_ok.mp hslice
  have hsplit : Set.EqOn enriched_params
      (job_params pipeline.enriched enriched_params ids_batch) splits :=
    fun k hk => (hshared.split ids_batch hbatch k hk).symm
  have hruns : List.Forall₂ (fun run job => run.1 = job ∧
      Set.EqOn run.2 (job_params pipeline.enriched enriched_params ids_batch) fetches)
      (jobs.map (PipelineRunner.run wire)) children := by
    rw [List.forall₂_map_left_iff]
    refine (List.forall₂_map_right_iff.mp hjobs).imp ?_
    rintro job child ⟨hchild, i, -, hparams⟩
    refine ⟨hchild, fun k hk => ?_⟩
    obtain ⟨hnumber, htotal, hsent⟩ := hshared.fetch ids_batch hbatch k hk
    rw [hparams k, hsource.2, PipelineRunner.sent_keys_of_ne hnumber htotal]
    exact hsent
  have hdirect : fetch_directly kind source =
      kind.with_static.fetch source.source
          (job_params pipeline.enriched enriched_params ids_batch) := by
    rw [fetch_directly, hsource.2, Option.getD_some]
  rw [hdirect, ← hfaithful.delivers_iff hreads hsplit hchildren hruns, Fetched,
    Paging.delivers_map_iff]

theorem readsOnce_of_shared (hB : 1 ≤ B) (job_id : ℕ → JobId)
    (hkind : ∀ ids_batch source, pipeline.define_source (batch_params enriched_params ids_batch) =
      .ok (.source source) →
      kind.Faithful source ∧ kind.Reads splits fetches source)
    (hshared : ∀ batches, JobRunner.chunk (input_ids enriched_params)
      pipeline.ids_batch_size = .ok batches →
      Shared wire context pipeline.enriched enriched_params batches splits fetches) :
    ReadsOnce wire B context job_id kind pipeline enriched_params := by
  have hkind' : ∀ ids_batch source, pipeline.Resolves enriched_params ids_batch source →
      kind.with_static.Faithful source.source ∧
          kind.with_static.Reads splits fetches source.source := by
    intro ids_batch source hsource
    exact resolved_of (P := fun source => kind.with_static.Faithful source ∧
      kind.with_static.Reads splits fetches source)
      (fun records => ⟨SourceKind.faithful_static records, SourceKind.reads_static records⟩)
      (fun own hown => ⟨(hkind ids_batch own hown).1.of, (hkind ids_batch own hown).2.of⟩) hsource
  have hall : ∀ sources slices, pipeline.define_jobs enriched_params = .ok sources →
      pipeline.plan_batches kind enriched_params = .ok slices →
        List.Forall₂ (fun jobs source => ∀ records, Fetched wire kind jobs records ↔
          fetch_directly kind source = .ok records)
          (jobs_by_batch B context enriched_params job_id slices) sources := by
    intro sources slices hsources hslices
    obtain ⟨batches, hbatches, hresolved⟩ := define_jobs_eq_ok.mp hsources
    obtain ⟨sources', hsources', hsplit⟩ := plan_batches_eq_ok.mp hslices
    obtain rfl := Except.ok.inj (hsources.symm.trans hsources')
    have hjobs := Paging.forall₂_trans
      (jobs_by_batch_sends hB wire context enriched_params job_id slices) hsplit.flip
    have hmem := (List.forall₂_and_left _ _).mpr ⟨Paging.forall₂_mem_right hresolved, hjobs.flip⟩
    refine hmem.flip.imp ?_
    rintro jobs source ⟨⟨ids_batch, hbatch, hsource⟩, slice, hsends, hslice⟩
    obtain ⟨hfaithful, hreads⟩ := hkind' ids_batch source hsource
    exact batch_fetched_iff hfaithful (hshared batches hbatches) hbatch hsource hreads hslice hsends
  refine ⟨?_, hall, ?_⟩
  · intro sources hsources hdirect
    obtain ⟨batches, hbatches, hresolved⟩ := define_jobs_eq_ok.mp hsources
    have hsplit : ∀ source ∈ sources, ∃ slice, JobRunner.plan_slices kind.with_static source
        enriched_params = .ok slice := by
      intro source hsource
      obtain ⟨records, hrecords⟩ := hdirect source hsource
      obtain ⟨ids_batch, hbatch, hsource⟩ := Paging.forall₂_mem_right hresolved source hsource
      rw [fetch_directly, hsource.2, Option.getD_some] at hrecords
      obtain ⟨hfaithful, hreads⟩ := hkind' ids_batch source hsource
      obtain ⟨children, hchildren, -⟩ := (hfaithful _ _).mpr hrecords
      have hsame : Set.EqOn enriched_params
          (job_params pipeline.enriched enriched_params ids_batch) splits :=
        fun k hk => ((hshared batches hbatches).split ids_batch hbatch k hk).symm
      rw [← hreads.split _ _ hsame] at hchildren
      exact ⟨_, Paging.map_eq_ok.mpr ⟨children, hchildren, rfl⟩⟩
    obtain ⟨slices, hslices⟩ := Paging.exists_mapM_eq_ok hsplit
    exact ⟨slices, plan_batches_eq_ok.mpr ⟨sources, hsources, Paging.mapM_eq_ok.mp hslices⟩⟩
  · intro sources slices batches hsources hslices hbatches record hdirect
    have hparts : List.Forall₂ (Fetched wire kind)
      (jobs_by_batch B context enriched_params job_id slices)
        (batches.map fun ids_batch => ids_batch.map record) := by
      rw [List.forall₂_map_right_iff]
      refine (Paging.forall₂_trans (hall sources slices hsources hslices) hdirect).imp ?_
      rintro jobs ids_batch ⟨source, hjobs, hsource⟩
      exact (hjobs _).mpr hsource
    have hflat : (batches.map fun ids_batch => ids_batch.map record).flatten =
        (input_ids enriched_params).map record := by
      rw [← List.map_flatten, JobRunner.flatten_chunk hbatches]
    rw [Fetched, ← List.flatMap_id, ← Paging.delivers_join]
    exact ⟨_, hparts, hflat.symm⟩

end Agreement

section Probes

variable {wire : Value → Value} {B size : ℕ} {context : ExecutionContext} {job_id : ℕ → JobId}
    {enriched : Params → Params}
  {enriched_params : Params} {batches : List (List Value)} {ids_batch : List Value} {k : String}

-- A pipeline with one source for all batches.
def constant (size : ℕ) (enriched : Params → Params) (source : S) : IdBasedPipeline S where
  name := "constant"
  ids_batch_size := size
  define_source := fun _ => .ok (.source source)
  enriched := enriched

-- Its jobs for a batch.
def constant_slice (enriched : Params → Params) (enriched_params : Params) (children : List S)
    (ids_batch : List Value) :
    List (Planned (Source S)) :=
  children.map fun child => ⟨.of child, some (job_params enriched enriched_params ids_batch)⟩

variable {kind : SourceKind S} {source : S} {children : List S}

theorem constant_jobs (hbatches : JobRunner.chunk (input_ids enriched_params) size = .ok batches) :
    (constant size enriched source).define_jobs enriched_params =
      .ok (batches.map fun ids_batch =>
        ⟨.of source, some (job_params enriched enriched_params ids_batch)⟩) := by
  refine define_jobs_eq_ok.mpr ⟨batches, hbatches, ?_⟩
  rw [List.forall₂_map_right_iff, List.forall₂_same]
  exact fun _ _ => ⟨rfl, rfl⟩

theorem constant_plan (hbatches : JobRunner.chunk (input_ids enriched_params) size = .ok batches)
    (hchildren : kind.split source enriched_params = .ok children) :
    (constant size enriched source).plan_batches kind enriched_params =
      .ok (batches.map (constant_slice enriched enriched_params children)) := by
  refine plan_batches_eq_ok.mpr ⟨_, constant_jobs hbatches, ?_⟩
  rw [List.forall₂_map_left_iff, List.forall₂_map_right_iff, List.forall₂_same]
  intro ids_batch _
  refine Paging.map_eq_ok.mpr
    ⟨children.map .of, Paging.map_eq_ok.mpr ⟨children, hchildren, rfl⟩, ?_⟩
  rw [constant_slice, List.map_map]
  rfl

theorem ReadsOnce.probe (hB : 1 ≤ B)
    (hread : ReadsOnce wire B context job_id kind (constant size enriched source) enriched_params)
    (hbatches : JobRunner.chunk (input_ids enriched_params) size = .ok batches)
    (hchildren : kind.split source enriched_params = .ok children) {i : ℕ}
    (hi : i < batches.length) :
    ∃ jobs, (jobs_by_batch B context enriched_params job_id
        (batches.map (constant_slice enriched enriched_params children)))[i]? = some jobs ∧
      List.Forall₂ (Sends wire B context enriched_params (batches.length * children.length)) jobs
        (constant_slice enriched enriched_params children batches[i]) ∧
      ∀ records, Fetched wire kind jobs records ↔
        kind.fetch source (job_params enriched enriched_params batches[i]) = .ok records := by
  have hrecords := hread.records _ _ (constant_jobs hbatches) (constant_plan hbatches hchildren)
  have hsends := jobs_by_batch_sends hB wire context enriched_params job_id
    (batches.map (constant_slice enriched enriched_params children))
  have hlen : (batches.map (constant_slice enriched enriched_params children)).flatten.length =
      batches.length * children.length := by
    simp [constant_slice, List.length_flatten, Function.comp_def]
  rw [List.forall₂_map_right_iff] at hrecords hsends
  rw [hlen] at hsends
  have hi' := hrecords.length_eq ▸ hi
  exact ⟨_, List.getElem?_eq_getElem hi', hsends.get hi' hi, hrecords.get hi' hi⟩

-- A source that is split by what it has read has read the batch's value.
theorem same_of_keeping (hB : 1 ≤ B) (hread : ReadsOnce wire B context job_id (SourceKind.keeping k)
      (constant size enriched none) enriched_params)
    (hbatches : JobRunner.chunk (input_ids enriched_params) size = .ok batches)
    (hbatch : ids_batch ∈ batches) :
    job_params enriched enriched_params ids_batch k = enriched_params k := by
  obtain ⟨i, hi, rfl⟩ := List.mem_iff_getElem.mp hbatch
  obtain ⟨jobs, -, hsends, hrecords⟩ := hread.probe hB hbatches rfl hi
  have hfetched := (hrecords _).mpr rfl
  obtain ⟨job, rest, hjob, hrest, rfl⟩ := List.forall₂_cons_right_iff.mp hsends
  cases hrest
  rw [Fetched, Paging.delivers_cons_iff] at hfetched
  obtain ⟨part, rest, hpart, hrest, heq⟩ := hfetched
  rw [hjob.1] at hpart
  rw [Paging.delivers_nil_iff.mp hrest, List.append_nil, ← Except.ok.inj hpart] at heq
  exact SourceKind.seen_inj (List.singleton_inj.mp heq)

-- Jobs that read the param anew have the batch's value of it, too.
theorem same_of_reading {n : ℕ} {jobs : List (PlannedJob (Source Bool))} {N : ℕ}
    (hsends : List.Forall₂ (Sends wire B context enriched_params N) jobs
      (constant_slice enriched enriched_params (List.replicate n false) ids_batch))
    (hfetched : Fetched wire (SourceKind.reading n k) jobs
      (List.replicate n (SourceKind.seen k (job_params enriched enriched_params ids_batch)))) :
    ∀ job ∈ jobs, (PipelineRunner.run wire job).2 k = job_params enriched
      enriched_params ids_batch k := by
  have hparts : ∀ job ∈ jobs, ∀ part, (SourceKind.reading n k).with_static.fetch
    (PipelineRunner.run wire job).1
      (PipelineRunner.run wire job).2 = .ok part ↔
          part = [SourceKind.seen k (PipelineRunner.run wire job).2] := by
    intro job hjob part
    obtain ⟨child, hchild, hsent⟩ := Paging.forall₂_mem_right hsends.flip job hjob
    obtain ⟨false', hfalse, rfl⟩ := List.mem_map.mp hchild
    rw [hsent.1, List.eq_of_mem_replicate hfalse]
    exact SourceKind.reading_part
  rw [Fetched, Paging.delivers_congr hparts, Paging.delivers_singletons_iff] at hfetched
  intro job hjob
  have hseen := List.eq_of_mem_replicate (hfetched ▸ List.mem_map_of_mem hjob)
  exact SourceKind.seen_inj hseen

-- A source of `n` records, each of which reads the param anew.
theorem ReadsOnce.reading {n : ℕ} (hB : 1 ≤ B)
    (hread : ReadsOnce wire B context job_id (SourceKind.reading n k)
      (constant size enriched true) enriched_params)
    (hbatches : JobRunner.chunk (input_ids enriched_params) size = .ok batches) {i : ℕ}
    (hi : i < batches.length) :
    ∃ jobs, (jobs_by_batch B context enriched_params job_id
        (batches.map (constant_slice enriched enriched_params (List.replicate n false))))[i]? =
          some jobs ∧
      List.Forall₂ (Sends wire B context enriched_params (batches.length * n)) jobs
        (constant_slice enriched enriched_params (List.replicate n false) batches[i]) ∧
      ∀ job ∈ jobs, (PipelineRunner.run wire job).2 k = job_params enriched enriched_params
        batches[i] k := by
  have hchildren : (SourceKind.reading n k).split true enriched_params =
    .ok (List.replicate n false) := rfl
  obtain ⟨jobs, hjobs, hsends, hrecords⟩ := hread.probe hB hbatches hchildren hi
  rw [List.length_replicate] at hsends
  exact ⟨jobs, hjobs, hsends, same_of_reading hsends ((hrecords _).mpr rfl)⟩

-- The number of batches depends on how many jobs there are.
theorem ne_total_batches (hB : 1 ≤ B)
    (hread : ∀ n, ReadsOnce wire B context job_id (SourceKind.reading n k)
      (constant size enriched true) enriched_params)
    (hbatches : JobRunner.chunk (input_ids enriched_params) size = .ok batches)
    (hpos : 0 < batches.length) :
    k ≠ "total_batches" := by
  rintro rfl
  have hvalue : ∀ n, 0 < n → job_params enriched enriched_params batches[0] "total_batches" =
      some (.int ((batches.length * n / B + 1 : ℕ) : ℤ)) := by
    intro n hn
    obtain ⟨jobs, -, hsends, hsame⟩ := (hread n).reading hB hbatches hpos
    obtain ⟨m, rfl⟩ := Nat.exists_eq_succ_of_ne_zero hn.ne'
    obtain ⟨job, rest, ⟨-, i, -, hsent⟩, -, rfl⟩ := List.forall₂_cons_right_iff.mp hsends
    exact (hsame job List.mem_cons_self).symm.trans (hsent "total_batches")
  have hone := hvalue B hB
  rw [hvalue (2 * B) (by omega)] at hone
  rw [Nat.mul_div_cancel _ hB, ← Nat.mul_assoc, Nat.mul_div_cancel _ hB] at hone
  simp only [Option.some.injEq, Value.int.injEq] at hone
  omega

-- The numbers of the batches grow along the jobs of one source.
theorem ne_batch_number (hB : 1 ≤ B)
    (hread : ∀ n, ReadsOnce wire B context job_id (SourceKind.reading n k)
      (constant size enriched true) enriched_params)
    (hbatches : JobRunner.chunk (input_ids enriched_params) size = .ok batches)
    (hpos : 0 < batches.length) :
    k ≠ "batch_number" := by
  rintro rfl
  obtain ⟨jobs, hjobs, -, hsame⟩ := (hread (B + 1)).reading hB hbatches hpos
  obtain ⟨ids_batch, batches, rfl⟩ := List.exists_cons_of_length_pos hpos
  have hnumbers : jobs.map (·.job_payload.metadata.context.batch_number) = (List.range (B + 1)).map
      fun i => i / B + 1 := by
    rw [jobs_by_batch, List.map_cons, List.map_cons, List.splitLengths_cons,
      List.getElem?_cons_zero] at hjobs
    rw [← Option.some.inj hjobs, List.map_take, PipelineRunner.payload_numbers hB,
      PipelineRunner.batch_numbers,
      ← List.map_take, List.take_range]
    congr 2
    simp [constant_slice, List.length_flatten, Function.comp_def]
  have hone : ∀ i ≤ B, job_params enriched enriched_params ids_batch "batch_number" =
      some (.int ((i / B + 1 : ℕ) : ℤ)) := by
    intro i hi
    have hmem : i / B + 1 ∈ (List.range (B + 1)).map fun i => i / B + 1 :=
      List.mem_map.mpr ⟨i, List.mem_range.mpr (Nat.lt_succ_of_le hi), rfl⟩
    rw [← hnumbers] at hmem
    obtain ⟨job, hjob, hnumber⟩ := List.mem_map.mp hmem
    rw [← hnumber]
    exact (hsame job hjob).symm
  have hzero := hone 0 (Nat.zero_le B)
  rw [hone B le_rfl, Nat.div_self hB, Nat.zero_div] at hzero
  simp at hzero

end Probes

-- Whatever the class of sources and the `define_source`, as long as the sources read the one set of
-- keys alone when they are split, and the other one when their children are fetched, the jobs of
-- each batch read what they should iff the params agree on the keys.
theorem ids_read_once_iff {B size : ℕ} (hB : 1 ≤ B) (wire : Value → Value)
    (context : ExecutionContext)
    (job_id : ℕ → JobId) (enriched : Params → Params) (enriched_params : Params)
    (splits fetches : Set String) :
    (∀ (S : Type) (kind : SourceKind S) (pipeline : IdBasedPipeline S),
      pipeline.ids_batch_size = size →
      pipeline.enriched = enriched →
      (∀ ids_batch source, pipeline.define_source (batch_params enriched_params ids_batch) =
        .ok (.source source) →
        kind.Faithful source ∧ kind.Reads splits fetches source) →
      ReadsOnce wire B context job_id kind pipeline enriched_params) ↔
    ∀ batches, JobRunner.chunk (input_ids enriched_params) size = .ok batches →
      Shared wire context enriched enriched_params batches splits fetches := by
  constructor
  · intro hall batches hbatches
    constructor
    · intro ids_batch hbatch k hk
      have hkeeping := hall _ (SourceKind.keeping k) (constant size enriched none) rfl rfl
        fun _ source _ => ⟨SourceKind.keeping_faithful k source,
          (SourceKind.keeping_reads k source).mono (Set.singleton_subset_iff.mpr hk)
            (Set.empty_subset _)⟩
      exact same_of_keeping hB hkeeping hbatches hbatch
    · intro ids_batch hbatch k hk
      have hpos := List.length_pos_of_mem hbatch
      have hreading : ∀ n,
          ReadsOnce wire B context job_id (SourceKind.reading n k) (constant size enriched true)
              enriched_params :=
        fun n => hall _ _ _ rfl rfl fun _ source _ => ⟨SourceKind.reading_faithful n k source,
          (SourceKind.reading_reads n k source).mono (Set.empty_subset _)
            (Set.singleton_subset_iff.mpr hk)⟩
      have hnumber := ne_batch_number hB hreading hbatches hpos
      have htotal := ne_total_batches hB hreading hbatches hpos
      refine ⟨hnumber, htotal, ?_⟩
      obtain ⟨i, hi, rfl⟩ := List.mem_iff_getElem.mp hbatch
      obtain ⟨jobs, -, hsends, hread⟩ := (hreading 1).reading hB hbatches hi
      obtain ⟨job, rest, ⟨-, _, -, hsent⟩, -, rfl⟩ := List.forall₂_cons_right_iff.mp hsends
      have hworker := hread job List.mem_cons_self
      rw [hsent k, PipelineRunner.sent_keys_of_ne hnumber htotal] at hworker
      exact hworker
  · intro hshared S kind pipeline hsize henriched hkind
    subst hsize henriched
    exact readsOnce_of_shared hB job_id hkind hshared

-- Two IDs.
def two_ids : Params := Params.empty.set "input_ids" (.list [.str "a", .str "b"])

def sync_context : ExecutionContext := ⟨"run", "batch", "user_sync", "", 0, 0, 0, false⟩

-- Two records for each ID, which read it when they are fetched.
theorem ids_read_once_plain :
    ReadsOnce id 1000 sync_context id (SourceKind.reading 2 "current_id")
      (constant 1 id true) two_ids := by
  refine (ids_read_once_iff (by decide) id sync_context id id two_ids ∅
    {"current_id"}).mpr ?_ _ _ _ rfl rfl
    fun _ source _ => ⟨SourceKind.reading_faithful _ _ source, SourceKind.reading_reads _ _ source⟩
  rintro _ hbatches
  obtain rfl := Except.ok.inj hbatches
  refine ⟨fun _ _ k hk => hk.elim, ?_⟩
  rintro ids_batch hbatch k rfl
  refine ⟨by decide, by decide, ?_⟩
  rcases List.mem_cons.mp hbatch with rfl | hbatch
  · rfl
  · rw [List.mem_singleton.mp hbatch]
    rfl

-- A source that leaves the IDs to the params.
def users : IDBasedAPISource.Config :=
  ⟨"https://api", "/users/{id}", [], "GET", [], none, none, 50, "30.0", none, .None, [], true⟩

-- A service that answers with what it is asked for.
def directory : IDBasedAPISource.Service where
  format template id_value :=
    match id_value with
    | .str text => .ok text
    | _ => .ok template
  str _ := ""
  b64encode text := text
  request r := .response 200 "" (.ok (.str r.endpoint))

-- The children of the source fetch what it would, but the jobs of either ID read both.
theorem every_batch_reads_all :
    (IDBasedAPISource.kind directory fun _ text => .ok text).Faithful users ∧
      ¬ReadsOnce id 1000 sync_context id (IDBasedAPISource.kind directory fun _ text => .ok text)
        ⟨"user_sync", 1, fun _ => .ok (.source users), id⟩ two_ids := by
  constructor
  · refine IDBasedAPISource.split_faithful (fun _ v => ⟨v, ?_⟩) (by decide)
    refine (ParameterResolver.plain_iff v).mpr fun s _ => ?_
    simp [ParameterResolver.resolve]
  · intro hread
    cases hread.records _ _ rfl rfl with
    | cons hjobs _ =>
        obtain ⟨parts, hparts, hrecords⟩ := (hjobs []).mpr rfl
        obtain ⟨part, rest, hpart, -, rfl⟩ := List.forall₂_cons_left_iff.mp hparts
        rw [← Except.ok.inj hpart] at hrecords
        cases hrecords

end IdBasedPipeline

end Reflowfy
