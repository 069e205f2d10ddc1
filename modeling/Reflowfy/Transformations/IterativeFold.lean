import Reflowfy.Paging.Loop
import Reflowfy.TransformationRunner

namespace Reflowfy.TransformationRunner

open Paging

variable {σ : Type} {p : Pipeline σ} {original_records : List Value} {max_steps : ℕ}
    {duration : ℕ → Int}
  {s s' : State σ} {out : Outcome σ}

-- The steps of a list, each given what the one before it left.
def apply_step (validate_steps : Bool) (at_hand : List Value × σ) (t : Transformation σ) :
    Except Failure (List Value × σ) :=
  match t.step validate_steps at_hand.1 at_hand.2 with
  | (.ok result, params) => .ok (result.records, params)
  | (.error failure, _) => .error failure

def apply_steps (validate_steps : Bool) (steps : List (Transformation σ))
    (at_hand : List Value × σ) :
    Except Failure (List Value × σ) :=
  steps.foldlM (apply_step validate_steps) at_hand

-- The steps that a fold over the list runs, each once, with what it is given; the last one
-- may fail.
def fold_calls (validate_steps : Bool) : List (Transformation σ) → List Value × σ → List (Call σ)
  | [], _ => []
  | t :: steps, at_hand => ⟨t, at_hand.1, at_hand.2⟩ ::
      match apply_step validate_steps at_hand t with
      | .ok next => fold_calls validate_steps steps next
      | .error _ => []

-- These steps have been applied, each once and in order.
structure State.HasApplied (p : Pipeline σ) (original_records : List Value) (runtime_params : σ)
    (steps : List (Transformation σ)) (s : State σ) : Prop where
  fold : apply_steps p.validate_steps steps (original_records, runtime_params) =
    .ok (s.transformed, s.runtime_params)
  calls : s.calls = fold_calls p.validate_steps steps (original_records, runtime_params)
  names : s.applied.map (·.name) = steps.map (·.name)
  chain : s.applied.map (·.records_in) ++ [s.transformed.length] =
    original_records.length :: s.applied.map (·.records_out)

-- What the run comes to.
def Comes (p : Pipeline σ) (original_records : List Value) (max_steps : ℕ) (duration : ℕ → Int)
    (runtime_params : σ) (s : State σ) : Prop :=
  Reaches (round p original_records max_steps duration)
    (State.start original_records runtime_params) s

-- The list resolves throughout the run, and a step only lets it grow.
structure AppendOnly (p : Pipeline σ) (original_records : List Value) (max_steps : ℕ)
    (duration : ℕ → Int) (runtime_params : σ) : Prop where
  resolves : ∀ s, Comes p original_records max_steps duration runtime_params s →
    ∃ current, p.define_transformations original_records s.runtime_params = .ok current
  grows : ∀ s s' current current', Comes p original_records max_steps duration runtime_params s →
    round p original_records max_steps duration s = .inl s' →
    p.define_transformations original_records s.runtime_params = .ok current →
    p.define_transformations original_records s'.runtime_params = .ok current' →
      current <+: current'

-- The step that is next where the run stands, with the list it stands in.
def State.Next (p : Pipeline σ) (original_records : List Value) (s : State σ)
    (current : List (Transformation σ)) (t : Transformation σ) : Prop :=
  p.define_transformations original_records s.runtime_params = .ok current ∧
    current[s.applied.length]? = some t

section Round

theorem round_eq_inl (h : round p original_records max_steps duration s = .inl s') :
    ∃ current t result, s.Next p original_records current t ∧ s.applied.length < max_steps ∧
      t.step p.validate_steps s.transformed s.runtime_params = (.ok result, s'.runtime_params) ∧
      s' = ⟨result.records, s'.runtime_params,
        s.applied ++ [applied_step t (duration s.applied.length) s.transformed.length result],
        s.calls ++ [⟨t, s.transformed, s.runtime_params⟩]⟩ := by
  unfold round at h
  split at h
  · cases h
  · rename_i current hcurrent
    split at h
    · cases h
    · rename_i t ht
      split at h
      · cases h
      · rename_i hlt
        split at h
        · cases h
        · rename_i result params hstep
          cases h
          exact ⟨current, t, result, ⟨hcurrent, ht⟩, by omega, hstep, rfl⟩

theorem round_eq_inr (h : round p original_records max_steps duration s = .inr out) :
    (∃ e, p.define_transformations original_records s.runtime_params = .error e ∧
      out = ⟨.error e, s.runtime_params, s.calls⟩) ∨
    ∃ current, p.define_transformations original_records s.runtime_params = .ok current ∧
      (current.length ≤ s.applied.length ∧
        out = ⟨.ok (s.transformed, s.applied), s.runtime_params, s.calls⟩ ∨
        s.applied.length < current.length ∧ max_steps ≤ s.applied.length ∧
          out = ⟨.error (exceeded p max_steps), s.runtime_params, s.calls⟩ ∨
        ∃ t failure, current[s.applied.length]? = some t ∧ s.applied.length < max_steps ∧
          t.step p.validate_steps s.transformed s.runtime_params =
            (.error failure, out.runtime_params) ∧
          out = ⟨.error (failed t s.applied s.transformed.length failure), out.runtime_params,
            s.calls ++ [⟨t, s.transformed, s.runtime_params⟩]⟩) := by
  unfold round at h
  split at h
  · rename_i e he
    cases h
    exact .inl ⟨e, he, rfl⟩
  · rename_i current hcurrent
    refine .inr ⟨current, hcurrent, ?_⟩
    split at h
    · rename_i hnone
      cases h
      exact .inl ⟨List.getElem?_eq_none_iff.mp hnone, rfl⟩
    · rename_i t ht
      have hlt : s.applied.length < current.length := (List.getElem?_eq_some_iff.mp ht).1
      split at h
      · rename_i hmax
        cases h
        exact .inr (.inl ⟨hlt, hmax, rfl⟩)
      · rename_i hmax
        split at h
        · rename_i failure params hstep
          cases h
          exact .inr (.inr ⟨t, failure, ht, by omega, hstep, rfl⟩)
        · cases h

end Round

section Run

variable {runtime_params : σ} {steps : List (Transformation σ)} {t : Transformation σ}

theorem length_calls_of_comes (h : Comes p original_records max_steps duration runtime_params s) :
    s.calls.length = s.applied.length ∧ s.applied.length ≤ max_steps := by
  induction h with
  | refl => exact ⟨rfl, Nat.zero_le _⟩
  | tail _ hnext ih =>
      obtain ⟨_, _, _, _, hlt, _, hs'⟩ := round_eq_inl hnext
      rw [hs']
      simp only [List.length_append, List.length_singleton]
      omega

-- The loop returns, whatever the pipeline.
theorem exists_outcome (p : Pipeline σ) (original_records : List Value) (max_steps : ℕ)
    (duration : ℕ → Int) (runtime_params : σ) :
    ∃ out, Returns (round p original_records max_steps duration)
      (State.start original_records runtime_params) out ∧
      out.calls.length ≤ max_steps := by
  refine returns_of_variant (I := Comes p original_records max_steps duration runtime_params)
    (Q := fun out : Outcome σ => out.calls.length ≤ max_steps)
      (fun s => max_steps - s.applied.length) ?_ .refl
  intro s hs
  obtain ⟨hcalls, hle⟩ := length_calls_of_comes hs
  cases hround : round p original_records max_steps duration s with
  | inl s' =>
      refine .inl ⟨s', rfl, hs.tail hround, ?_⟩
      obtain ⟨_, _, _, _, hlt, _, hs'⟩ := round_eq_inl hround
      rw [hs']
      simp only [List.length_append, List.length_singleton]
      omega
  | inr out =>
      refine .inr ⟨out, rfl, ?_⟩
      rcases round_eq_inr hround with
        ⟨_, _, hout⟩ | ⟨_, _, ⟨_, hout⟩ | ⟨_, _, hout⟩ | ⟨_, _, _, hlt, _, hout⟩⟩
      · rw [hout]
        exact Nat.le_trans (Nat.le_of_eq hcalls) hle
      · rw [hout]
        exact Nat.le_trans (Nat.le_of_eq hcalls) hle
      · rw [hout]
        exact Nat.le_trans (Nat.le_of_eq hcalls) hle
      · rw [hout]
        simp only [List.length_append, List.length_singleton]
        omega

theorem apply_steps_append (validate_steps : Bool) (steps rest : List (Transformation σ))
    (at_hand : List Value × σ) :
    apply_steps validate_steps (steps ++ rest) at_hand =
      apply_steps validate_steps steps at_hand >>= apply_steps validate_steps rest :=
  List.foldlM_append

theorem fold_calls_append {validate_steps : Bool} {at_hand next : List Value × σ}
    (h : apply_steps validate_steps steps at_hand = .ok next) (rest : List (Transformation σ)) :
    fold_calls validate_steps (steps ++ rest) at_hand =
      fold_calls validate_steps steps at_hand ++ fold_calls validate_steps rest next := by
  induction steps generalizing at_hand with
  | nil =>
      cases h
      rfl
  | cons t steps ih =>
      simp only [apply_steps, List.foldlM_cons] at h
      cases hstep : apply_step validate_steps at_hand t with
      | error failure =>
          rw [hstep] at h
          cases h
      | ok mid =>
          rw [hstep] at h
          simp only [List.cons_append, fold_calls, hstep, ih h]

theorem hasApplied_start (p : Pipeline σ) (original_records : List Value) (runtime_params : σ) :
    (State.start original_records runtime_params).HasApplied p original_records runtime_params [] :=
  ⟨rfl, rfl, rfl, rfl⟩

-- The step lemma: a round applies one more step.
theorem hasApplied_snoc {result : RecordResults} {time : Int} {params : σ}
    (h : s.HasApplied p original_records runtime_params steps)
    (hstep : t.step p.validate_steps s.transformed s.runtime_params = (.ok result, params)) :
    (State.mk result.records params (s.applied ++ [applied_step t time s.transformed.length result])
      (s.calls ++ [⟨t, s.transformed, s.runtime_params⟩])).HasApplied p original_records
        runtime_params (steps ++ [t]) where
  fold := by
    rw [apply_steps_append, h.fold]
    simp only [apply_steps, bind, Except.bind, List.foldlM_cons, List.foldlM_nil, apply_step, hstep]
    rfl
  calls := by
    rw [fold_calls_append h.fold, ← h.calls]
    simp [fold_calls, apply_step, hstep]
  names := by
    rw [List.map_append, List.map_append, h.names]
    rfl
  chain := by
    have hchain := h.chain
    simp only [List.map_append, List.map_cons, List.map_nil, applied_step] at hchain ⊢
    rw [hchain]
    rfl

theorem length_applied (h : s.HasApplied p original_records runtime_params steps) :
    s.applied.length = steps.length := by
  have hnames := congrArg List.length h.names
  simpa using hnames

-- The steps applied so far with the next one are a prefix of the list that is resolved there.
theorem snoc_extends (hs : s.HasApplied p original_records runtime_params steps)
    {current : List (Transformation σ)}
    (hextends : steps <+: current) (hnext : current[s.applied.length]? = some t) :
      steps ++ [t] <+: current := by
  obtain ⟨rest, rfl⟩ := hextends
  rw [length_applied hs, List.getElem?_append_right (Nat.le_refl _), Nat.sub_self] at hnext
  obtain ⟨tail, rfl⟩ : ∃ tail, rest = t :: tail := by
    cases rest with
    | nil => cases hnext
    | cons u tail => exact ⟨tail, by rw [← Option.some.inj hnext]⟩
  exact ⟨tail, by rw [List.append_assoc, List.singleton_append]⟩

-- The run lemma: what has been applied is a prefix of the list, folded over the records.
theorem exists_hasApplied
    (happend : AppendOnly p original_records max_steps duration runtime_params)
    (h : Comes p original_records max_steps duration runtime_params s) :
    ∃ steps, s.HasApplied p original_records runtime_params steps ∧
      ∀ current, p.define_transformations original_records s.runtime_params = .ok current →
        steps <+: current := by
  induction h with
  | refl => exact ⟨[], hasApplied_start p original_records runtime_params,
      fun current _ => List.nil_prefix⟩
  | @tail s s' hcomes hround ih =>
      obtain ⟨steps, hs, hextends⟩ := ih
      obtain ⟨current, t, result, ⟨hcurrent, ht⟩, _, hstep, hs'⟩ := round_eq_inl hround
      refine ⟨steps ++ [t], ?_, ?_⟩
      · rw [hs']
        exact hasApplied_snoc hs hstep
      · intro current' hcurrent'
        have hgrows := happend.grows s s' current current' hcomes hround hcurrent hcurrent'
        exact (snoc_extends hs (hextends current hcurrent) ht).trans hgrows

end Run

section Outcomes

variable {runtime_params : σ}

-- Failures that leave the loop without the applied steps: what the `except` clauses hand on
-- as it is, and a KeyError of what cannot be hashed, when it is looked for in a dict.
def Failure.passes : Failure → Bool
  | .raised _ _ (.TransformationError _) => true
  | .raised _ _ (.SkipJob _) => true
  | .raised _ records (.KeyError (.error _) _) => (records.take scan_limit).any is_dict
  | _ => false

theorem find_missing_key (key : Key) (records : List (Value × ℕ)) :
    ∃ culprit, find_missing (.ok key) records = .ok culprit := by
  induction records with
  | nil => exact ⟨none, rfl⟩
  | cons record records ih =>
      obtain ⟨value, i⟩ := record
      cases value with
      | dict entries =>
          simp only [find_missing, bind, Except.bind]
          split
          · exact ih
          · exact ⟨_, rfl⟩
      | _ => exact ih

theorem find_missing_unhashable (e : Thrown) {records : List (Value × ℕ)}
    (h : ∀ record ∈ records, is_dict record.1 = false) :
      find_missing (.error e) records = .ok none := by
  induction records with
  | nil => rfl
  | cons record records ih =>
      obtain ⟨value, i⟩ := record
      have hrest := ih fun record hrecord => h record (List.mem_cons_of_mem _ hrecord)
      cases value with
      | dict entries => cases h _ List.mem_cons_self
      | _ => exact hrest

theorem find_culprit_record_key (error : StepException) {mode : Mode} {records : List Value}
    (h : (Failure.raised mode records error).passes = false) :
    ∃ culprit, find_culprit_record error records = .ok culprit := by
  cases error with
  | KeyError missing thrown =>
      cases missing with
      | ok key => exact find_missing_key key _
      | error e =>
          refine ⟨none, find_missing_unhashable e fun record hrecord => ?_⟩
          have hmem : record.1 ∈ records.take scan_limit := by
            rw [← List.zipIdx_map_fst 0 (records.take scan_limit)]
            exact List.mem_map_of_mem hrecord
          simpa using List.any_eq_false.mp h record.1 hmem
  | _ => exact ⟨none, rfl⟩

theorem exists_failed {failure : Failure} (h : failure.passes = false) (t : Transformation σ)
    (applied : List AppliedStep) (records_in : ℕ) :
    ∃ error, failed t applied records_in failure = .TransformationError error ∧
      error.applied_steps = applied ∧ error.step_index = some applied.length := by
  cases failure with
  | invalid index record message => exact ⟨_, rfl, rfl, rfl⟩
  | raised mode records e =>
      obtain ⟨culprit, hculprit⟩ := find_culprit_record_key e h
      cases e with
      | TransformationError error => cases h
      | SkipJob reason => cases h
      | SkipRecord reason shown => exact ⟨_, rfl, rfl, rfl⟩
      | RecordFailure index record error => exact ⟨_, rfl, rfl, rfl⟩
      | KeyError missing error =>
          simp only [failed, hculprit]
          exact ⟨_, rfl, rfl, rfl⟩
      | other error => exact ⟨_, rfl, rfl, rfl⟩

-- No step of the run fails.
def NoRaise (p : Pipeline σ) (original_records : List Value) (max_steps : ℕ) (duration : ℕ → Int)
    (runtime_params : σ) : Prop :=
  ∀ s current t, Comes p original_records max_steps duration runtime_params s →
    s.Next p original_records current t →
    ∃ result, (t.step p.validate_steps s.transformed s.runtime_params).1 = .ok result

-- The run resolves no list of more than `max_steps` steps.
def Within (p : Pipeline σ) (original_records : List Value) (max_steps : ℕ) (duration : ℕ → Int)
    (runtime_params : σ) : Prop :=
  ∀ s current, Comes p original_records max_steps duration runtime_params s →
    p.define_transformations original_records s.runtime_params = .ok current →
      current.length ≤ max_steps

-- The run ended with this list, all of it applied.
def Outcome.Applied (p : Pipeline σ) (original_records : List Value) (runtime_params : σ)
    (final : List (Transformation σ)) (out : Outcome σ) : Prop :=
  p.define_transformations original_records out.runtime_params = .ok final ∧
    ∃ records applied, out.result = .ok (records, applied) ∧
      (State.mk records out.runtime_params applied out.calls).HasApplied p original_records
        runtime_params final

theorem applied_of_ended (happend : AppendOnly p original_records max_steps duration runtime_params)
    (hs : Comes p original_records max_steps duration runtime_params s)
    {current : List (Transformation σ)}
    (hcurrent : p.define_transformations original_records s.runtime_params = .ok current)
    (hend : current.length ≤ s.applied.length) :
    (Outcome.mk (.ok (s.transformed, s.applied)) s.runtime_params s.calls).Applied p
    original_records runtime_params current := by
  obtain ⟨steps, happlied, hextends⟩ := exists_hasApplied happend hs
  have hsteps : steps = current := by
    apply (hextends current hcurrent).eq_of_length_le
    rw [← length_applied happlied]
    exact hend
  subst hsteps
  exact ⟨hcurrent, s.transformed, s.applied, rfl, happlied⟩

theorem applied_of_noRaise
    (happend : AppendOnly p original_records max_steps duration runtime_params)
    (hnoraise : NoRaise p original_records max_steps duration runtime_params)
    (hwithin : Within p original_records max_steps duration runtime_params)
    (hout : Returns (round p original_records max_steps duration)
      (State.start original_records runtime_params) out) :
    ∃ final, out.Applied p original_records runtime_params final := by
  obtain ⟨s, hs, hround⟩ := hout.exists_last
  rcases round_eq_inr hround with
    ⟨e, he, _⟩ | ⟨current, hcurrent, ⟨hend, rfl⟩ | ⟨hlt, hmax, _⟩ | ⟨t, failure, ht, _, hstep, _⟩⟩
  · obtain ⟨current, hcurrent⟩ := happend.resolves s hs
    rw [hcurrent] at he
    cases he
  · exact ⟨current, applied_of_ended happend hs hcurrent hend⟩
  · have hle := hwithin s current hs hcurrent
    omega
  · obtain ⟨result, hresult⟩ := hnoraise s current t hs ⟨hcurrent, ht⟩
    rw [hstep] at hresult
    cases hresult

-- A step that fails is the last one of the run.
theorem returns_of_failure {current : List (Transformation σ)} {t : Transformation σ}
    {failure : Failure} {params : σ}
    (hs : Comes p original_records max_steps duration runtime_params s)
    (hnext : s.Next p original_records current t) (hlt : s.applied.length < max_steps)
    (hstep : t.step p.validate_steps s.transformed s.runtime_params = (.error failure, params)) :
    Returns (round p original_records max_steps duration)
      (State.start original_records runtime_params)
      ⟨.error (failed t s.applied s.transformed.length failure), params,
        s.calls ++ [⟨t, s.transformed, s.runtime_params⟩]⟩ := by
  apply returns_of_reaches hs
  apply returns_of_inr
  have hmax : ¬max_steps ≤ s.applied.length := by omega
  simp only [round, hnext.1, hnext.2, if_neg hmax, hstep]

theorem fold_calls_failed {steps : List (Transformation σ)} {t : Transformation σ}
    {failure : Failure} (h : s.HasApplied p original_records runtime_params steps)
    (hstep : (t.step p.validate_steps s.transformed s.runtime_params).1 = .error failure)
    (rest : List (Transformation σ)) :
    apply_steps p.validate_steps (steps ++ t :: rest)
      (original_records, runtime_params) = .error failure ∧
      fold_calls p.validate_steps (steps ++ t :: rest) (original_records, runtime_params) =
        s.calls ++ [⟨t, s.transformed, s.runtime_params⟩] := by
  have hnext : apply_step p.validate_steps (s.transformed, s.runtime_params) t =
      .error failure := by
    cases hresult : t.step p.validate_steps s.transformed s.runtime_params with
    | mk result params =>
        rw [hresult] at hstep
        simp only at hstep
        subst hstep
        simp only [apply_step, hresult]
  constructor
  · rw [apply_steps_append, h.fold]
    simp only [apply_steps, bind, Except.bind, List.foldlM_cons, hnext]
  · rw [fold_calls_append h.fold, ← h.calls]
    simp only [fold_calls, hnext]

theorem appendOnly_of_static {final : List (Transformation σ)}
    (hstatic : ∀ params, p.define_transformations original_records params = .ok final) :
    AppendOnly p original_records max_steps duration runtime_params where
  resolves s _ := ⟨final, hstatic s.runtime_params⟩
  grows s s' current current' _ _ hcurrent hcurrent' := by
    rw [hstatic] at hcurrent hcurrent'
    cases hcurrent
    cases hcurrent'
    exact List.prefix_refl final

-- A list that does not depend on the params is folded, up to its first failure.
theorem static_outcome {final : List (Transformation σ)}
    (hstatic : ∀ params, p.define_transformations original_records params = .ok final)
    (hmax : final.length ≤ max_steps) (hout : Returns (round p original_records max_steps duration)
      (State.start original_records runtime_params) out) :
    out.calls = fold_calls p.validate_steps final (original_records, runtime_params) ∧
      ∀ records params, apply_steps p.validate_steps final (original_records, runtime_params) =
        .ok (records, params) ↔
        (∃ applied, out.result = .ok (records, applied)) ∧ out.runtime_params = params := by
  have happend : AppendOnly p original_records max_steps duration runtime_params :=
    appendOnly_of_static hstatic
  obtain ⟨s, hs, hround⟩ := hout.exists_last
  rcases round_eq_inr hround with ⟨e, he, _⟩ | ⟨current, hcurrent,
    ⟨hend, rfl⟩ | ⟨hlt, hle, _⟩ | ⟨t, failure, ht, _, hstep, hfailed⟩⟩
  · rw [hstatic] at he
    cases he
  · obtain ⟨hfinal, records, applied, hresult, happlied⟩ :=
      applied_of_ended happend hs hcurrent hend
    rw [hstatic] at hfinal
    cases hfinal
    refine ⟨happlied.calls, fun records' params' => ?_⟩
    rw [happlied.fold, hresult]
    simp only [Except.ok.injEq, Prod.mk.injEq]
    constructor
    · rintro ⟨rfl, rfl⟩
      exact ⟨⟨applied, rfl, rfl⟩, rfl⟩
    · rintro ⟨⟨_, rfl, _⟩, rfl⟩
      exact ⟨rfl, rfl⟩
  · rw [hstatic] at hcurrent
    cases hcurrent
    omega
  · obtain ⟨steps, happlied, hextends⟩ := exists_hasApplied happend hs
    obtain ⟨rest, hrest⟩ := snoc_extends happlied (hextends current hcurrent) ht
    rw [hstatic] at hcurrent
    cases hcurrent
    rw [List.append_assoc, List.singleton_append] at hrest
    obtain ⟨hfold, hcalls⟩ := fold_calls_failed happlied (by rw [hstep]) rest
    rw [hrest] at hfold hcalls
    rw [hfold, hfailed]
    refine ⟨hcalls.symm, fun records' params' => ?_⟩
    constructor
    · intro h
      cases h
    · rintro ⟨⟨_, h⟩, _⟩
      cases h

end Outcomes

-- Iterative resolution is a fold of the last list, up to the first step that fails; `SkipJob`
-- leaves the loop as the step raised it.
theorem apply_transformations_iteratively_fold (p : Pipeline σ)
    (original_records : List Value) (max_steps : ℕ) (duration : ℕ → Int) (runtime_params : σ) :
    ∃ out, Returns (round p original_records max_steps duration)
      (State.start original_records runtime_params) out ∧
      out.calls.length ≤ max_steps ∧
      (AppendOnly p original_records max_steps duration runtime_params →
        NoRaise p original_records max_steps duration runtime_params →
        Within p original_records max_steps duration runtime_params →
          ∃ final, out.Applied p original_records runtime_params final) ∧
      (∀ final, (∀ params, p.define_transformations original_records params = .ok final) →
        final.length ≤ max_steps →
        out.calls = fold_calls p.validate_steps final (original_records, runtime_params) ∧
          ∀ records params, apply_steps p.validate_steps final (original_records, runtime_params) =
            .ok (records, params) ↔
            (∃ applied, out.result = .ok (records, applied)) ∧ out.runtime_params = params) ∧
      ∀ s current t failure, AppendOnly p original_records max_steps duration runtime_params →
        Comes p original_records max_steps duration runtime_params s →
          s.Next p original_records current t →
        s.applied.length < max_steps →
          (t.step p.validate_steps s.transformed s.runtime_params).1 = .error failure →
          (∃ steps, steps ++ [t] <+: current ∧
            s.HasApplied p original_records runtime_params steps ∧
            out.calls = fold_calls p.validate_steps (steps ++ [t])
              (original_records, runtime_params)) ∧
          (failure.passes = false → ∃ error, out.result = .error (.TransformationError error) ∧
            error.applied_steps = s.applied ∧ error.step_index = some s.applied.length) ∧
          ∀ mode records reason, failure = .raised mode records (.SkipJob reason) →
            out.result = .error (.SkipJob reason) := by
  obtain ⟨out, hout, hcalls⟩ := exists_outcome p original_records max_steps duration runtime_params
  refine ⟨out, hout, hcalls, ?_, ?_, ?_⟩
  · intro happend hnoraise hwithin
    exact applied_of_noRaise happend hnoraise hwithin hout
  · intro final hstatic hmax
    exact static_outcome hstatic hmax hout
  · intro s current t failure happend hs hnext hlt hstep
    have hraised : t.step p.validate_steps s.transformed s.runtime_params =
        (.error failure, (t.step p.validate_steps s.transformed s.runtime_params).2) :=
          Prod.ext hstep rfl
    have hfailed := hout.unique (returns_of_failure hs hnext hlt hraised)
    obtain ⟨steps, happlied, hextends⟩ := exists_hasApplied happend hs
    refine ⟨⟨steps, snoc_extends happlied (hextends current hnext.1) hnext.2, happlied, ?_⟩, ?_, ?_⟩
    · rw [hfailed]
      exact (fold_calls_failed happlied hstep []).2.symm
    · intro hpasses
      obtain ⟨error, herror, hsteps, hindex⟩ :=
        exists_failed hpasses t s.applied s.transformed.length
      exact ⟨error, by rw [hfailed, herror], hsteps, hindex⟩
    · intro mode records reason hskip
      rw [hfailed, hskip]
      rfl

section Example

-- A step that hands its records on, and one that drops the job.
def keep_step : Transformation Unit where
  name := "keep"
  kind := .sync
  validate_input _ := .ok ()
  apply records params := (.ok ⟨records, []⟩, params)
  validate_output _ := .ok ()
  find_invalid_records _ := .ok none

def skip_step : Transformation Unit := { keep_step with
  name := "skip"
  apply := fun _ params => (.error (.SkipJob "nothing to do"), params) }

def skipping : Pipeline Unit where
  name := "skipping"
  define_transformations _ _ := .ok [keep_step, skip_step]
  validate_steps := false

-- The job's second step raises, and what leaves the loop does not say that the first was applied.
theorem skip_job_carries_no_steps :
    AppendOnly skipping [.int 1] 1000 (fun _ => 0) () ∧
      ∃ s, Comes skipping [.int 1] 1000 (fun _ => 0) () s ∧ s.applied.length = 1 ∧
        s.Next skipping [.int 1] [keep_step, skip_step] skip_step ∧
        Returns (round skipping [.int 1] 1000 fun _ => 0) (State.start [.int 1] ())
          ⟨.error (.SkipJob "nothing to do"), (),
            [⟨keep_step, [.int 1], ()⟩, ⟨skip_step, [.int 1], ()⟩]⟩ := by
  refine ⟨appendOnly_of_static fun _ => rfl, _, Relation.ReflTransGen.single rfl, rfl,
    ⟨rfl, rfl⟩, 2, rfl⟩

end Example

end Reflowfy.TransformationRunner
