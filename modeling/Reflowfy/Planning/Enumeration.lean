import Reflowfy.JobPlan

namespace Reflowfy.JobPlan

variable {objects : SourceId → SourceClass} {runtime_params : Params}

section Spec

variable (objects : SourceId → SourceClass) (runtime_params : Params)

-- The `job_params` that the plan's own code has given the sources.
def own (job_params : JobParams) : List Step → JobParams
  | [] => job_params
  | .assign source value :: steps => own (Function.update job_params source value) steps
  | _ :: steps => own job_params steps

-- The jobs of an element: each has its own params, or else those of the source that was split.
def Step.jobs (own : JobParams) : Step → Generated (Planned JobSource)
  | .assign _ _ => ⟨[], none⟩
  | .source parent => (children objects runtime_params parent).map fun child =>
      ⟨.source child, own child <|> own parent⟩
  | .records [] => ⟨[], none⟩
  | .records (record :: rest) => ⟨[⟨.StaticSource (record :: rest), none⟩], none⟩
  | .other type_name => ⟨[], some (TypeError type_name)⟩

def steps_jobs (job_params : JobParams) : List Step → Generated (Planned JobSource)
  | [] => ⟨[], none⟩
  | step :: steps => (step.jobs objects runtime_params job_params).followed
      (steps_jobs (own job_params [step]) steps)

-- What a plan is to yield.
def Plan.jobs (job_params : JobParams) : Plan → Generated (Planned JobSource)
  | .source parent => (Step.source parent).jobs objects runtime_params job_params
  | .whole parent => ⟨[⟨.source parent, job_params parent⟩], none⟩
  | .iterable steps raised =>
      (steps_jobs objects runtime_params job_params steps).followed ⟨[], raised⟩

-- The steps of a plan up to the one that raises.
def reached : List Step → List Step
  | [] => []
  | step :: steps =>
      step :: if (step.jobs objects runtime_params fun _ => none).raised.isSome then []
        else reached steps

-- An element before has given the source these params in the place of none, and the plan's
-- own code has not set them since.
def Given (job_params : JobParams) (front : List Step) (child : SourceId) (given : Params) : Prop :=
  ∃ before source after, front = before ++ .source source :: after ∧
    child ∈ (children objects runtime_params source).items ∧ own job_params before child = none ∧
    own job_params before source = some given ∧ ∀ value, .assign child value ∉ after

-- A source is split after such elements: it has not been given any params itself, and what
-- its children have been given are its own.
def Unmixed (job_params : JobParams) (front : List Step) (source : SourceId) : Prop :=
  ∀ child ∈ (children objects runtime_params source).items, own job_params front child = none →
    (∀ given, ¬Given objects runtime_params job_params front source given) ∧
      ∀ given, Given objects runtime_params job_params front child given →
        own job_params front source = some given

def Plan.steps : Plan → List Step
  | .iterable steps _ => steps
  | _ => []

-- No source without params of its own comes from two sources with different ones.
def Plan.Unshared (job_params : JobParams) (plan : Plan) : Prop :=
  ∀ front source back, reached objects runtime_params plan.steps = front ++ .source source :: back →
    Unmixed objects runtime_params job_params front source

-- The jobs of a plan, and the chunks of a list.
structure Enumerated (job_params : JobParams) (plan : Plan) : Prop where
  jobs : plan_slices objects runtime_params job_params plan =
    plan.jobs objects runtime_params job_params
  chunks : ∀ (records : List Value) size, 1 ≤ size →
    ∃ chunks, JobRunner.chunk records size = .ok chunks ∧
    chunks.flatten = records ∧ ∀ i part, chunks[i]? = some part →
      part ≠ [] ∧ part.length ≤ size ∧ (i + 1 < chunks.length → part.length = size)

end Spec

section Own

variable {job_params : JobParams} {front : List Step} {x : SourceId} {given : Params}

theorem own_append (job_params : JobParams) (front back : List Step) :
    own job_params (front ++ back) = own (own job_params front) back := by
  induction front generalizing job_params with
  | nil => rfl
  | cons step front ih => cases step <;> exact ih _

theorem own_of_unassigned {steps : List Step} (h : ∀ value, Step.assign x value ∉ steps) :
    own job_params steps x = job_params x := by
  induction steps generalizing job_params with
  | nil => rfl
  | cons step steps ih =>
      have htail : ∀ value, Step.assign x value ∉ steps :=
        fun value hmem => h value (List.mem_cons_of_mem _ hmem)
      cases step with
      | assign source value =>
          have hne : x ≠ source := by
            rintro rfl
            exact h value List.mem_cons_self
          rw [own, ih htail, Function.update_of_ne hne]
      | _ => exact ih htail

-- Whoever has been given params has none of its own.
theorem Given.own_eq_none (h : Given objects runtime_params job_params front x given) :
    own job_params front x = none := by
  obtain ⟨before, source, after, rfl, -, hnone, -, hafter⟩ := h
  rw [own_append]
  exact (own_of_unassigned hafter).trans hnone

theorem not_given_nil : ¬Given objects runtime_params job_params [] x given := by
  rintro ⟨before, source, after, heq, -⟩
  exact List.cons_ne_nil _ _ (List.append_eq_nil_iff.mp heq.symm).2

theorem given_source_iff {source : SourceId} :
    Given objects runtime_params job_params (front ++ [.source source]) x given ↔
      Given objects runtime_params job_params front x given ∨
        x ∈ (children objects runtime_params source).items ∧
        own job_params front x = none ∧ own job_params front source = some given := by
  constructor
  · rintro ⟨before, parent, after, heq, hchild, hnone, hgiven, hafter⟩
    rcases List.eq_nil_or_concat' after with rfl | ⟨after, last, rfl⟩
    · obtain ⟨rfl, hlast⟩ := List.append_inj' heq rfl
      cases hlast
      exact .inr ⟨hchild, hnone, hgiven⟩
    · rw [← List.cons_append, ← List.append_assoc] at heq
      obtain ⟨rfl, -⟩ := List.append_inj' heq rfl
      exact .inl ⟨before, parent, after, rfl, hchild, hnone, hgiven,
        fun value hmem => hafter value (List.mem_append_left _ hmem)⟩
  · rintro (⟨before, parent, after, rfl, hchild, hnone, hgiven, hafter⟩ | ⟨hchild, hnone, hgiven⟩)
    · refine ⟨before, parent, after ++ [.source source],
        by simp, hchild, hnone, hgiven, fun value hmem => ?_⟩
      rcases List.mem_append.mp hmem with hmem | hmem
      · exact hafter value hmem
      · cases List.mem_singleton.mp hmem
    · exact ⟨front, source, [], rfl, hchild, hnone, hgiven, nofun⟩

-- The other steps give nobody params; a source that the plan's own code sets has not been
-- given any.
theorem given_append_iff {step : Step} (hstep : ∀ source, step ≠ .source source) :
    Given objects runtime_params job_params (front ++ [step]) x given ↔
      Given objects runtime_params job_params front x given ∧ ∀ value, step ≠ .assign x value := by
  constructor
  · rintro ⟨before, parent, after, heq, hchild, hnone, hgiven, hafter⟩
    rcases List.eq_nil_or_concat' after with rfl | ⟨after, last, rfl⟩
    · obtain ⟨-, hlast⟩ := List.append_inj' heq rfl
      cases hlast
      exact absurd rfl (hstep parent)
    · rw [← List.cons_append, ← List.append_assoc] at heq
      obtain ⟨rfl, hlast⟩ := List.append_inj' heq rfl
      cases hlast
      exact ⟨⟨before, parent, after, rfl, hchild, hnone, hgiven,
        fun value hmem => hafter value (List.mem_append_left _ hmem)⟩,
        fun value heq => hafter value (List.mem_append_right _ (heq ▸ List.mem_cons_self))⟩
  · rintro ⟨⟨before, parent, after, rfl, hchild, hnone, hgiven, hafter⟩, hassign⟩
    refine ⟨before, parent, after ++ [step], by simp, hchild, hnone, hgiven, fun value hmem => ?_⟩
    rcases List.mem_append.mp hmem with hmem | hmem
    · exact hafter value hmem
    · exact hassign value (List.mem_singleton.mp hmem).symm

end Own

section Narrow

variable {job_params : JobParams}

theorem carry_eq (given : Option Params) (job_params : JobParams) (narrowed x : SourceId) :
    carry given job_params narrowed x = if x = narrowed then job_params x <|> given
      else job_params x := by
  unfold carry
  by_cases hx : x = narrowed
  · subst hx
    cases hown : job_params x <;> cases given <;> simp [hown]
  · rw [if_neg hx]
    split
    · exact Function.update_of_ne hx ..
    · rfl

theorem narrow_eq (given : Option Params) (job_params : JobParams) (split : List SourceId) :
    (∀ x, (narrow given job_params split).1 x = if x ∈ split then job_params x <|> given
      else job_params x) ∧
      (narrow given job_params split).2 = split.map fun child =>
      ⟨.source child, job_params child <|> given⟩ := by
  induction split generalizing job_params with
  | nil => exact ⟨fun x => by simp [narrow], rfl⟩
  | cons child split ih =>
      obtain ⟨hparams, hjobs⟩ := ih (carry given job_params child)
      have hcarry : ∀ x, (carry given job_params child x <|> given) = (job_params x <|> given) := by
        intro x
        rw [carry_eq]
        split
        · cases job_params x <;> cases given <;> rfl
        · rfl
      refine ⟨fun x => ?_, ?_⟩
      · rw [narrow, hparams, hcarry, carry_eq]
        by_cases hx : x = child
        · simp [hx]
        · simp [hx]
      · rw [narrow, hjobs, List.map_cons]
        simp only [hcarry]
        rw [carry_eq, if_pos rfl]

end Narrow

section Steps

variable {job_params attributes : JobParams} {front : List Step}

-- What the sources carry before a step: their own params, and what they have been given.
def Carried (objects : SourceId → SourceClass) (runtime_params : Params) (job_params : JobParams)
    (front : List Step) (attributes : JobParams) : Prop :=
  (∀ x value, own job_params front x = some value → attributes x = some value) ∧
    ∀ x given, own job_params front x = none →
      (attributes x = some given ↔ Given objects runtime_params job_params front x given)

theorem carried_nil : Carried objects runtime_params job_params [] job_params := by
  refine ⟨fun x value h => h, fun x given h => ?_⟩
  have hnone : job_params x = none := h
  simp [hnone, not_given_nil]

theorem Carried.assign (h : Carried objects runtime_params job_params front attributes)
    (source : SourceId) (value : Option Params) :
      Carried objects runtime_params job_params (front ++ [.assign source value])
      (Function.update attributes source value) := by
  have hown : ∀ x, own job_params (front ++ [.assign source value]) x =
      if x = source then value else own job_params front x := by
    intro x
    rw [own_append, own, own, Function.update_apply]
  refine ⟨fun x params hx => ?_, fun x given hx => ?_⟩
  · rw [hown] at hx
    rw [Function.update_apply]
    split at hx
    · rw [if_pos ‹_›, hx]
    · rw [if_neg ‹_›]
      exact h.1 x params hx
  · rw [hown] at hx
    rw [Function.update_apply, given_append_iff (by simp)]
    split at hx
    · rename_i hsame
      subst hsame
      simp [hx]
    · rename_i hne
      rw [if_neg hne, h.2 x given hx]
      simp [Ne.symm hne]

theorem Carried.other (h : Carried objects runtime_params job_params front attributes) {step : Step}
    (hsource : ∀ source, step ≠ .source source) (hassign : ∀ x value, step ≠ .assign x value) :
    Carried objects runtime_params job_params (front ++ [step]) attributes := by
  have hown : own job_params (front ++ [step]) = own job_params front := by
    rw [own_append]
    cases step with
    | assign x value => exact absurd rfl (hassign x value)
    | _ => rfl
  refine ⟨fun x value hx => h.1 x value (hown ▸ hx), fun x given hx => ?_⟩
  rw [given_append_iff hsource, h.2 x given (hown ▸ hx)]
  simp [hassign]

theorem Carried.attribute_eq (h : Carried objects runtime_params job_params front attributes)
    {source : SourceId}
    (hsource : ∀ given, ¬Given objects runtime_params job_params front source given) :
    attributes source = own job_params front source := by
  cases hown : own job_params front source with
  | some value => exact h.1 source value hown
  | none =>
      rw [Option.eq_none_iff_forall_ne_some]
      exact fun given hattr => hsource given ((h.2 source given hown).mp hattr)

-- A split source yields what it should iff nothing is mixed.
theorem Carried.jobs_iff (h : Carried objects runtime_params job_params front attributes)
    (source : SourceId) :
    (∀ child ∈ (children objects runtime_params source).items,
      (attributes child <|> attributes source) =
      (own job_params front child <|> own job_params front source)) ↔
      Unmixed objects runtime_params job_params front source := by
  constructor
  · intro hjobs child hchild hnone
    have hjob : (attributes child <|> attributes source) = own job_params front source :=
      (hjobs child hchild).trans (by rw [hnone]; rfl)
    constructor
    · intro given hgiven
      have hsource := hgiven.own_eq_none
      rw [hsource, (h.2 source given hsource).mpr hgiven] at hjob
      cases hattr : attributes child <;> simp [hattr] at hjob
    · intro given hgiven
      rw [(h.2 child given hnone).mpr hgiven] at hjob
      exact hjob.symm
  · intro hunmixed child hchild
    cases hchild' : own job_params front child with
    | some value => rw [h.1 child value hchild']; rfl
    | none =>
        obtain ⟨hsource, hgiven⟩ := hunmixed child hchild hchild'
        rw [h.attribute_eq hsource]
        cases hattr : attributes child with
        | none => rfl
        | some given => exact (hgiven given ((h.2 child given hchild').mp hattr)).symm

theorem Carried.source (h : Carried objects runtime_params job_params front attributes)
    {source : SourceId} (hunmixed : Unmixed objects runtime_params job_params front source) :
    Carried objects runtime_params job_params (front ++ [.source source])
      (plan_source objects runtime_params attributes source).1 := by
  have hattr : ∀ x, (plan_source objects runtime_params attributes source).1 x =
      if x ∈ (children objects runtime_params source).items then attributes x <|> attributes source
      else attributes x :=
    (narrow_eq _ _ _).1
  have hown : own job_params (front ++ [.source source]) = own job_params front := own_append ..
  refine ⟨fun x value hx => ?_, fun x given hx => ?_⟩
  · rw [hown] at hx
    rw [hattr, h.1 x value hx]
    split <;> rfl
  · rw [hown] at hx
    rw [hattr, given_source_iff, ← h.2 x given hx]
    by_cases hchild : x ∈ (children objects runtime_params source).items
    · obtain ⟨hsource, hgiven⟩ := hunmixed x hchild hx
      rw [if_pos hchild, h.attribute_eq hsource]
      cases hold : attributes x with
      | none => simp [hchild, hx]
      | some old =>
          have hsame := hgiven old ((h.2 x old hx).mp hold)
          simp [hchild, hx, hsame]
    · simp [hchild]

-- Two generators that yield equally many jobs first.
theorem followed_inj {α : Type} {g g' rest rest' : Generated α}
    (hlen : g.items.length = g'.items.length) (hraised : g.raised = g'.raised) :
    g.followed rest = g'.followed rest' ↔ g.items = g'.items ∧
      (g.raised = none → rest = rest') := by
  obtain ⟨items, raised⟩ := g
  obtain ⟨items', raised'⟩ := g'
  obtain rfl : raised = raised' := hraised
  cases raised with
  | some e => simp [Generated.followed]
  | none =>
      obtain ⟨rest_items, rest_raised⟩ := rest
      obtain ⟨rest_items', rest_raised'⟩ := rest'
      simp only [Generated.followed, Option.isSome_none, Bool.false_eq_true, if_false,
        Generated.mk.injEq, true_imp_iff]
      constructor
      · rintro ⟨hitems, hrest⟩
        obtain ⟨hfront, hback⟩ := List.append_inj hitems hlen
        exact ⟨hfront, hback, hrest⟩
      · rintro ⟨hfront, hback, hrest⟩
        rw [hfront, hback]
        exact ⟨rfl, hrest⟩

variable (objects runtime_params) in
theorem step_raised (step : Step) (attributes job_params : JobParams) :
    (plan_step objects runtime_params attributes step).2.raised =
    (step.jobs objects runtime_params job_params).raised := by
  cases step with
  | records records => cases records <;> rfl
  | _ => rfl

variable (objects runtime_params) in
theorem step_length (step : Step) (attributes job_params : JobParams) :
    (plan_step objects runtime_params attributes step).2.items.length =
      (step.jobs objects runtime_params job_params).items.length := by
  cases step with
  | records records => cases records <;> rfl
  | source parent =>
      show (narrow _ _ _).2.length = _
      rw [(narrow_eq _ _ _).2]
      simp [Step.jobs, Generated.map]
  | _ => rfl

variable (objects runtime_params) in
theorem steps_same (steps : List Step) (attributes job_params : JobParams) :
    (plan_steps objects runtime_params attributes steps).items.length =
        (steps_jobs objects runtime_params job_params steps).items.length ∧
      (plan_steps objects runtime_params attributes steps).raised =
        (steps_jobs objects runtime_params job_params steps).raised := by
  induction steps generalizing attributes job_params with
  | nil => exact ⟨rfl, rfl⟩
  | cons step steps ih =>
      have hlen := step_length objects runtime_params step attributes job_params
      have hraised := step_raised objects runtime_params step attributes job_params
      obtain ⟨hrest, hend⟩ := ih (plan_step objects runtime_params attributes step).1
        (own job_params [step])
      rw [plan_steps, steps_jobs, Generated.followed, Generated.followed, hraised]
      split
      · exact ⟨hlen, hraised⟩
      · exact ⟨by simp [hlen, hrest], hend⟩

-- One step, and the params that it leaves.
theorem step_jobs_iff
    (h : Carried objects runtime_params job_params front attributes) (step : Step) :
    ((plan_step objects runtime_params attributes step).2.items =
      (step.jobs objects runtime_params (own job_params front)).items) ↔
        ∀ source, step = .source source →
          Unmixed objects runtime_params job_params front source := by
  cases step with
  | source parent =>
      simp only [Step.source.injEq, forall_eq']
      rw [← h.jobs_iff parent]
      show (narrow _ _ _).2 = _ ↔ _
      rw [(narrow_eq _ _ _).2]
      show List.map _ _ = List.map _ _ ↔ _
      rw [List.map_inj_left]
      simp
  | records records =>
      refine iff_of_true ?_ nofun
      cases records <;> rfl
  | assign x value => exact iff_of_true rfl nofun
  | other type_name => exact iff_of_true rfl nofun

theorem Carried.step (h : Carried objects runtime_params job_params front attributes) {step : Step}
    (hunmixed : ∀ source, step = .source source →
      Unmixed objects runtime_params job_params front source) :
    Carried objects runtime_params job_params (front ++ [step])
      (plan_step objects runtime_params attributes step).1 := by
  cases step with
  | assign x value => exact h.assign x value
  | source parent => exact h.source (hunmixed parent rfl)
  | records records => exact h.other (by simp) (by simp)
  | other type_name => exact h.other (by simp) (by simp)

-- The steps of a plan from some point on.
theorem steps_jobs_iff (h : Carried objects runtime_params job_params front attributes)
    (steps : List Step) :
    plan_steps objects runtime_params attributes steps =
        steps_jobs objects runtime_params (own job_params front) steps ↔
      ∀ passed source back, reached objects runtime_params steps = passed ++
        .source source :: back →
        Unmixed objects runtime_params job_params (front ++ passed) source := by
  induction steps generalizing front attributes with
  | nil => exact iff_of_true rfl (by simp [reached])
  | cons step steps ih =>
      rw [plan_steps, steps_jobs, followed_inj (step_length ..) (step_raised ..), step_jobs_iff h,
        step_raised objects runtime_params step attributes fun _ => none]
      have hown : own (own job_params front) [step] = own job_params (front ++ [step]) :=
        (own_append ..).symm
      rw [hown]
      constructor
      · rintro ⟨hstep, hrest⟩ passed source back hreached
        rw [reached] at hreached
        cases passed with
        | nil =>
            rw [List.append_nil]
            exact hstep source (List.cons.inj hreached).1
        | cons first passed =>
            obtain ⟨rfl, htail⟩ := List.cons.inj hreached
            split at htail
            · exact absurd htail.symm (by simp)
            · rename_i hgoes
              have hsteps := (ih (h.step hstep)).mp (hrest (by simpa using hgoes))
                passed source back htail
              rwa [List.append_assoc] at hsteps
      · intro hall
        have hstep : ∀ source, step = .source source →
            Unmixed objects runtime_params job_params front source := by
          rintro source rfl
          have hfirst := hall [] source _ rfl
          rwa [List.append_nil] at hfirst
        refine ⟨hstep, fun hgoes => (ih (h.step hstep)).mpr fun passed source back htail => ?_⟩
        rw [List.append_assoc]
        refine hall (step :: passed) source back ?_
        rw [reached, hgoes, Option.isSome_none, if_neg Bool.false_ne_true, htail]
        rfl

end Steps

section Chunks

variable {α : Type}

-- All slices but the last are full.
theorem slices_full {size : ℕ} (hsize : 0 < size) (items : List α) {i : ℕ} {part : List α}
    (hpart : (Paging.slices size items)[i]? = some part) :
    part ≠ [] ∧ part.length ≤ size ∧
      (i + 1 < (Paging.slices size items).length → part.length = size) := by
  refine ⟨Paging.mem_slices_ne_nil hsize part (List.mem_of_getElem? hpart), ?_⟩
  rw [Paging.slices, List.getElem?_map, Option.map_eq_some_iff] at hpart
  obtain ⟨j, hj, rfl⟩ := hpart
  obtain ⟨hi, rfl⟩ := List.getElem?_eq_some_iff.mp hj
  rw [List.getElem_range, Paging.length_slices]
  refine ⟨List.length_take_le .., fun hnext => ?_⟩
  have hle : (i + 1 + 1) * size ≤ items.length + size - 1 := (Nat.le_div_iff_mul_le hsize).mp hnext
  rw [List.length_take, List.length_drop, Nat.min_eq_left]
  rw [Nat.succ_mul, Nat.succ_mul] at hle
  omega

theorem chunks_of {size : ℕ} (hsize : 1 ≤ size) (records : List α) :
    ∃ chunks, JobRunner.chunk records size = .ok chunks ∧
    chunks.flatten = records ∧ ∀ i part, chunks[i]? = some part →
      part ≠ [] ∧ part.length ≤ size ∧ (i + 1 < chunks.length → part.length = size) :=
  ⟨Paging.slices size records, if_neg (Nat.not_lt.mpr hsize), Paging.slices_flatten hsize records,
    fun _ _ hpart => slices_full hsize records hpart⟩

end Chunks

variable {job_params : JobParams}

theorem plan_jobs_iff (plan : Plan) :
    plan_slices objects runtime_params job_params plan =
      plan.jobs objects runtime_params job_params ↔
      plan.Unshared objects runtime_params job_params := by
  cases plan with
  | whole parent => exact iff_of_true rfl (by simp [Plan.Unshared, Plan.steps, reached])
  | source parent =>
      refine iff_of_true ?_ (by simp [Plan.Unshared, Plan.steps, reached])
      have hstart : Carried objects runtime_params job_params [] job_params := carried_nil
      have hjobs := (step_jobs_iff hstart (.source parent)).mpr fun source _ child _ _ =>
        ⟨fun _ => not_given_nil, fun _ hgiven => absurd hgiven not_given_nil⟩
      exact congrArg (Generated.mk · _) hjobs
  | iterable steps raised =>
      have hstart : Carried objects runtime_params job_params [] job_params := carried_nil
      have hsame := steps_same objects runtime_params steps job_params job_params
      have hsteps := steps_jobs_iff hstart steps
      show Generated.followed _ _ = Generated.followed _ _ ↔ _
      rw [followed_inj hsame.1 hsame.2]
      constructor
      · rintro ⟨hitems, -⟩
        exact hsteps.mp (by rw [Generated.mk.injEq]; exact ⟨hitems, hsame.2⟩)
      · intro hunshared
        exact ⟨congrArg Generated.items (hsteps.mpr hunshared), fun _ => rfl⟩

-- A plan is enumerated exactly iff no source that comes without params is planned under two
-- sources that have different ones.
theorem plan_enumerated_iff (objects : SourceId → SourceClass) (runtime_params : Params)
    (job_params : JobParams) (plan : Plan) : Enumerated objects runtime_params job_params plan ↔
      plan.Unshared objects runtime_params job_params :=
  ⟨fun h => plan_jobs_iff plan |>.mp h.jobs,
    fun hunshared => ⟨plan_jobs_iff plan |>.mpr hunshared, fun records _ hsize =>
      chunks_of hsize records⟩⟩

-- Two sources that both split into the source 0.
def wrappers : SourceId → SourceClass
  | 0 => .StaticSource [.int 7]
  | _ => .other fun _ => ⟨[0], none⟩

def current_id (n : ℤ) : Params := Params.empty.set "current_id" (.int n)

-- The job of the second has the params of the first.
theorem shared_source : ¬Enumerated wrappers .empty
    (fun source => if source = 0 then none else some (current_id source))
    (.iterable [.source 1, .source 2] none) := by
  intro h
  have hsecond := congrArg (fun jobs => (jobs.items[1]?.bind Planned.job_params).bind fun own =>
    own "current_id") h.jobs
  have hone : some (Value.int 1) = some (Value.int 2) := hsecond
  cases hone

end Reflowfy.JobPlan
