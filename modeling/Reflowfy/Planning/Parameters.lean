import Reflowfy.PipelineParameters
import Reflowfy.Planning.IdBatches

namespace Reflowfy

variable {py : Python} {eq : Value → Value → Bool}

namespace PipelineParameter

-- None passes where nothing is required; any other value is of the type, and among the choices.
structure Accepts (eq : Value → Value → Bool) (param : PipelineParameter)
    (value : Value) : Prop where
  required : value = .None → param.required = false
  typed : value ≠ .None → param.param_type.check value = true
  chosen : value ≠ .None → param.choices = [] ∨ ∃ choice ∈ param.choices, eq choice value = true

variable {param : PipelineParameter} {value : Value}

theorem isNone_iff : value.isNone = true ↔ value = .None := by
  cases value <;> simp [Value.isNone]

theorem excludes_eq_false_iff :
    param.excludes eq value = false ↔ param.choices = [] ∨ ∃ choice ∈ param.choices,
      eq choice value = true := by
  simp [excludes, or_iff_not_imp_left]

theorem validate_eq_none_iff : param.validate py eq value = none ↔ param.Accepts eq value := by
  unfold validate
  split
  · rename_i hnone
    rw [isNone_iff] at hnone
    subst hnone
    constructor
    · intro h
      refine ⟨fun _ => ?_, fun hne => absurd rfl hne, fun hne => absurd rfl hne⟩
      split at h
      · cases h
      · rename_i hrequired
        exact Bool.eq_false_iff.mpr hrequired
    · intro h
      rw [if_neg (by rw [h.required rfl]; exact Bool.false_ne_true)]
  · rename_i hsome
    have hne : value ≠ .None := fun heq => hsome (isNone_iff.mpr heq)
    split
    · rename_i htype
      refine ⟨fun h => (by cases h), fun h => ?_⟩
      rw [h.typed hne] at htype
      cases htype
    · rename_i htype
      split
      · rename_i hchoice
        refine ⟨fun h => (by cases h), fun h => ?_⟩
        rw [excludes_eq_false_iff.mpr (h.chosen hne)] at hchoice
        cases hchoice
      · rename_i hchoice
        refine ⟨fun _ => ⟨fun heq => absurd heq hne, fun _ => Bool.not_eq_false _ ▸ htype,
          fun _ => ?_⟩, fun _ => rfl⟩
        exact excludes_eq_false_iff.mp (Bool.eq_false_iff.mpr hchoice)

-- The first of the declarations of a name that has a default.
def default_of (parameters : List PipelineParameter) (k : String) : Option Value :=
  (parameters.find? fun param => param.name = k ∧ param.default.isNone = false).map
    PipelineParameter.default

theorem apply_default_get (runtime_params : Params) (param : PipelineParameter) (k : String) :
    apply_default runtime_params param k =
      (runtime_params k).or
      (if param.name = k ∧ param.default.isNone = false then some param.default else none) := by
  unfold apply_default
  by_cases hk : param.name = k
  · subst hk
    cases hvalue : runtime_params param.name with
    | none =>
        by_cases hdefault : param.default.isNone = false
        · simp [hdefault]
        · simp [hdefault, hvalue]
    | some value => simp [hvalue]
  · have hne : k ≠ param.name := fun heq => hk heq.symm
    split
    · rw [Params.set_of_ne hne]
      simp [hk]
    · simp [hk]

theorem apply_defaults_get (parameters : List PipelineParameter)
    (runtime_params : Params) (k : String) :
    parameters.foldl apply_default runtime_params k = (runtime_params k).or
      (default_of parameters k) := by
  induction parameters generalizing runtime_params with
  | nil => simp [default_of]
  | cons param parameters ih =>
      rw [List.foldl_cons, ih, apply_default_get, Option.or_assoc]
      refine congrArg ((runtime_params k).or) ?_
      unfold default_of
      rw [List.find?_cons]
      by_cases hparam : param.name = k ∧ param.default.isNone = false
      · simp only [hparam, and_self, decide_true, if_true, Option.map_some, Option.some_or]
      · simp only [hparam, decide_false, if_false, Option.none_or]

-- Params that the defaults have been applied to keep what they have.
theorem apply_defaults_again (parameters : List PipelineParameter) (runtime_params : Params) :
    parameters.foldl apply_default (parameters.foldl apply_default runtime_params) =
      parameters.foldl apply_default runtime_params := by
  funext k
  rw [apply_defaults_get, apply_defaults_get, Option.or_assoc, Option.or_self]

end PipelineParameter

namespace PipelineClass

variable {S : Type} {pipeline : PipelineClass S} {parameters : List PipelineParameter}
    {runtime_params params : Params}

theorem get_all_parameters_ids (h : pipeline.get_all_parameters = .ok parameters)
    (hids : pipeline.id_based = true) :
    input_ids_parameter ∈ parameters := by
  unfold get_all_parameters at h
  rw [if_pos hids] at h
  split at h
  · cases h
  · cases h
    exact List.mem_cons_self

-- Beside the check of the parameter itself, that there are IDs.
theorem input_ids_errors_eq_nil (h : input_ids_parameter.Accepts eq (params.get "input_ids")) :
    input_ids_errors params = [] ↔ ∃ id ids, params "input_ids" = some (.list (id :: ids)) := by
  have hne : params.get "input_ids" ≠ .None := fun hnone => Bool.noConfusion (h.required hnone)
  have htyped := h.typed hne
  unfold input_ids_errors
  unfold Params.get at *
  cases hvalue : params "input_ids" with
  | none =>
      rw [hvalue] at hne
      exact absurd rfl hne
  | some value =>
      rw [hvalue] at htyped
      cases value with
      | list ids => cases ids <;> simp
      | _ => cases htyped

-- What the messages of a check are of.
theorem validate_parameters_eq_nil (h : pipeline.get_all_parameters = .ok parameters) :
    pipeline.validate_parameters py eq params = .ok [] ↔
      (∀ param ∈ parameters, param.Accepts eq (params.get param.name)) ∧
        (pipeline.id_based = true → ∃ id ids, params "input_ids" = some (.list (id :: ids))) := by
  unfold validate_parameters
  rw [h]
  simp only [Except.map, Except.ok.injEq, List.append_eq_nil_iff, List.filterMap_eq_nil_iff,
    PipelineParameter.validate_eq_none_iff]
  refine and_congr_right fun haccepts => ?_
  cases hids : pipeline.id_based with
  | false => simp
  | true =>
      rw [if_pos rfl, input_ids_errors_eq_nil (haccepts _ (get_all_parameters_ids h hids))]
      exact ⟨fun hsome _ => hsome, fun hsome => hsome rfl⟩

theorem checked_params_eq (h : pipeline.get_all_parameters = .ok parameters) :
    pipeline.checked_params py eq runtime_params =
      match pipeline.validate_parameters py eq
        (parameters.foldl PipelineParameter.apply_default runtime_params) with
      | .error e => .error e
      | .ok [] => .ok (parameters.foldl PipelineParameter.apply_default runtime_params)
      | .ok errors => .error (ValueError
          ("Invalid parameters: " ++ String.intercalate "; " errors)) := by
  unfold checked_params apply_defaults
  rw [h]
  rfl

theorem checked_params_eq_ok :
    pipeline.checked_params py eq runtime_params = .ok params ↔
      ∃ parameters, pipeline.get_all_parameters = .ok parameters ∧
      params = parameters.foldl PipelineParameter.apply_default runtime_params ∧
      (∀ param ∈ parameters, param.Accepts eq (params.get param.name)) ∧
      (pipeline.id_based = true → ∃ id ids, params "input_ids" = some (.list (id :: ids))) := by
  cases hall : pipeline.get_all_parameters with
  | error e => simp [checked_params, apply_defaults, hall, Except.map]
  | ok parameters =>
      rw [checked_params_eq hall]
      constructor
      · intro h
        split at h
        · cases h
        · rename_i hnil
          cases h
          exact ⟨parameters, rfl, rfl, (validate_parameters_eq_nil hall).mp hnil⟩
        · cases h
      · rintro ⟨parameters', heq, rfl, haccepts⟩
        cases heq
        rw [(validate_parameters_eq_nil hall).mpr haccepts]

-- Why a check refuses the params of a request.
structure Refused (py : Python) (eq : Value → Value → Bool) (pipeline : PipelineClass S)
    (parameters : List PipelineParameter) (params : Params) (errors : List String) : Prop where
  some_error : errors ≠ []
  complete : ∀ param ∈ parameters, ¬ param.Accepts eq (params.get param.name) →
    ∃ error ∈ errors, param.validate py eq (params.get param.name) = some error
  sound : ∀ error ∈ errors, (∃ param ∈ parameters, ¬ param.Accepts eq (params.get param.name) ∧
      param.validate py eq (params.get param.name) = some error) ∨
    pipeline.id_based = true ∧ ∀ id ids, params "input_ids" ≠ some (.list (id :: ids))

theorem refused_of_errors (h : pipeline.get_all_parameters = .ok parameters) {errors : List String}
    (hne : errors ≠ []) (herrors : pipeline.validate_parameters py eq params = .ok errors) :
      Refused py eq pipeline parameters params errors := by
  unfold validate_parameters at herrors
  rw [h] at herrors
  cases herrors
  refine ⟨hne, fun param hparam hrefused => ?_, fun error herror => ?_⟩
  · obtain ⟨error, herror⟩ := Option.ne_none_iff_exists'.mp fun hnone =>
      hrefused (PipelineParameter.validate_eq_none_iff.mp hnone)
    exact ⟨error, List.mem_append_left _ (List.mem_filterMap.mpr ⟨param, hparam, herror⟩), herror⟩
  · rcases List.mem_append.mp herror with hmem | hmem
    · obtain ⟨param, hparam, hvalidate⟩ := List.mem_filterMap.mp hmem
      refine .inl ⟨param, hparam, fun haccepts => ?_, hvalidate⟩
      rw [PipelineParameter.validate_eq_none_iff.mpr haccepts] at hvalidate
      cases hvalidate
    · split at hmem
      · rename_i hids
        refine .inr ⟨hids, fun id ids hsome => ?_⟩
        simp [input_ids_errors, Params.get, hsome] at hmem
      · cases hmem

-- What an execution is given of a request: the caller's values, and beside them the
-- defaults, each checked. Params that have been checked are checked to themselves, so a
-- request that is accepted is not refused when it is run; an ID-based plan has jobs.
theorem params_checked (pipeline : PipelineClass S) (runtime_params : Params) :
    (∀ params, pipeline.checked_params py eq runtime_params = .ok params ↔
      ∃ parameters, pipeline.get_all_parameters = .ok parameters ∧
        (∀ k, params k = (runtime_params k).or (PipelineParameter.default_of parameters k)) ∧
        (∀ param ∈ parameters, param.Accepts eq (params.get param.name)) ∧
        (pipeline.id_based = true → ∃ id ids, params "input_ids" = some (.list (id :: ids)))) ∧
      (∀ params, pipeline.checked_params py eq runtime_params = .ok params →
        pipeline.checked_params py eq params = .ok params) ∧
      (∀ parameters e, pipeline.get_all_parameters = .ok parameters →
        pipeline.checked_params py eq runtime_params = .error e →
        ∃ params errors, (∀ k, params k = (runtime_params k).or
          (PipelineParameter.default_of parameters k)) ∧
          Refused py eq pipeline parameters params errors ∧
          e = ValueError ("Invalid parameters: " ++ String.intercalate "; " errors)) ∧
      ∀ {T : Type} (plan : IdBasedPipeline T) params sources, pipeline.id_based = true →
        pipeline.checked_params py eq runtime_params = .ok params →
          plan.define_jobs params = .ok sources →
        sources ≠ [] ∧ ∃ ids batches, params "input_ids" = some (.list ids) ∧
          batches.flatten = ids ∧
          List.Forall₂ (plan.Resolves params) batches sources := by
  have hfilled : ∀ parameters params,
    params = parameters.foldl PipelineParameter.apply_default runtime_params ↔
      ∀ k, params k = (runtime_params k).or (PipelineParameter.default_of parameters k) := by
    intro parameters params
    rw [funext_iff]
    exact forall_congr' fun k => by rw [PipelineParameter.apply_defaults_get]
  refine ⟨fun params => ?_, fun params h => ?_, fun parameters e hall h => ?_,
    fun plan params sources hids h hplan => ?_⟩
  · simp only [checked_params_eq_ok, hfilled]
  · obtain ⟨parameters, hall, heq, haccepts, hsome⟩ := checked_params_eq_ok.mp h
    refine checked_params_eq_ok.mpr ⟨parameters, hall, ?_, haccepts, hsome⟩
    rw [heq, PipelineParameter.apply_defaults_again]
  · rw [checked_params_eq hall] at h
    split at h
    · rename_i e' herror
      unfold validate_parameters at herror
      rw [hall] at herror
      cases herror
    · cases h
    · rename_i errors hne herrors
      exact ⟨_, errors, (hfilled parameters _).mp rfl, refused_of_errors hall hne herrors,
        (Except.error.inj h).symm⟩
  · obtain ⟨_, _, _, _, hsome⟩ := checked_params_eq_ok.mp h
    obtain ⟨id, ids, hvalue⟩ := hsome hids
    obtain ⟨batches, hchunk, hall⟩ := IdBasedPipeline.define_jobs_eq_ok.mp hplan
    have hflatten : batches.flatten = id :: ids := by
      rw [JobRunner.flatten_chunk hchunk]
      unfold IdBasedPipeline.input_ids
      rw [hvalue]
    refine ⟨?_, id :: ids, batches, hvalue, hflatten, hall⟩
    rintro rfl
    cases hall
    cases hflatten

-- Users by their ids, ten to a page unless the request says otherwise.
def paged_users : PipelineClass ℕ where
  name := "user_sync"
  id_based := true
  define_parameters := [⟨"page_size", false, .int, .int 10, []⟩]
  define_jobs params := (.ok none, params)

theorem params_checked_users : ∃ (py : Python) (params : Params),
    paged_users.checked_params py (fun _ _ => false) IdBasedPipeline.two_ids = .ok params ∧
      params "page_size" = some (.int 10) ∧
      paged_users.checked_params py (fun _ _ => false) params = .ok params := by
  let py : Python := ⟨fun _ => "", id, fun _ => "", fun _ => "", fun _ => false, fun _ => .ok ""⟩
  have hchecked := @params_checked py (fun _ _ => false) ℕ paged_users IdBasedPipeline.two_ids
  exact ⟨py, _, rfl, rfl, hchecked.2.1 _ rfl⟩

end PipelineClass

end Reflowfy
