import Reflowfy.AsyncUtils.Failures

namespace Reflowfy.AsyncUtils

open Interleaving

variable {α ρ ε κ : Type} {s s' : Pool α ρ ε κ} {action : Action ρ ε κ}
    {items : List α} {concurrency : ℕ}
  {Ok : Pool α ρ ε κ → Action ρ ε κ → Prop}

-- A turn of the event loop that no call takes part in.
def Action.own : Action ρ ε κ → Bool
  | resume _ => true
  | cancel _ => true
  | join => true
  | complete => true
  | _ => false

namespace Pool

-- What a pool with so many workers does with its items, wherever a run of it stands.
structure Exact (concurrency : ℕ) (s : Pool α ρ ε κ) : Prop where
  in_order : starts s.log = s.items.zipIdx.take s.next_index
  ends_once : (ends s.log).Nodup ∧ ∀ index ∈ ends s.log, index < s.next_index
  in_flight : (starts s.log).length ≤ (ends s.log).length + min concurrency s.items.length
  returned : s.caller = .returned → starts s.log = s.items.zipIdx ∧
    (∀ event ∈ s.log, event.breaks = false) ∧
    ∃ results : List ρ, s.results = results.map some ∧ results.length = s.items.length ∧
      ∀ i r, .finish i r ∈ s.log ↔ results[i]? = some r
  raised : ∀ error, s.caller = .raised error → (∃ index, .fail index error ∈ s.log) ∧
    ∀ action, s.step action = none
  cancelled : ∀ before after, s.log = before ++ .cancel :: after →
    (∀ event ∈ after, event.is_swallow = false) →
    ∀ event ∈ after, event.is_start = false
  progress : s.caller = .returned ∨ (∃ error, s.caller = .raised error) ∨ s.calling ≠ [] ∨
    ∃ action s', action.own ∧ s.step action = some s'

theorem frame (hstep : Steps s action s') : s'.items = s.items ∧
    s'.workers.length = s.workers.length := by
  have hnext : ∀ (s : Pool α ρ ε κ) w, (s.next_item w).items = s.items ∧
      (s.next_item w).workers.length = s.workers.length := by
    intro s w
    unfold next_item
    split
    · exact ⟨rfl, List.length_set⟩
    · exact ⟨rfl, List.length_set⟩
  cases hstep with
  | resume hw => exact hnext s _
  | finish result hw => exact ⟨(hnext _ _).1, (hnext _ _).2.trans List.length_set⟩
  | unstarted hw => exact ⟨rfl, List.length_set⟩
  | act what hw => exact ⟨rfl, List.length_set⟩
  | fail error hw => exact ⟨rfl, List.length_set⟩
  | give_up hw => exact ⟨rfl, List.length_set⟩
  | swallow hw => exact ⟨rfl, List.length_set⟩
  | cancel hw hcaller => exact ⟨rfl, List.length_map _⟩
  | join hcaller hended => exact ⟨rfl, rfl⟩
  | complete hcaller hdone => exact ⟨rfl, rfl⟩

theorem length_starts (h : s.Calls) : (starts s.log).length = s.next_index := by
  rw [h.in_order, List.length_take, List.length_zipIdx, Nat.min_eq_left h.next_le]

theorem length_ends (h : s.Calls) : s.calling.length + (ends s.log).length = s.next_index := by
  have hlen := h.once.length_eq
  rwa [List.length_append, List.length_range] at hlen

-- Nothing happens any more once all workers have ended and the caller is back.
theorem step_eq_none (hended : ∀ worker ∈ s.workers, worker.ended) {error : ε}
    (hcaller : s.caller = .raised error) (action : Action ρ ε κ) : s.step action = none := by
  cases hstep : s.step action with
  | none => rfl
  | some s' =>
      exfalso
      cases steps_of_step hstep with
      | resume hw => cases hended _ (List.mem_of_getElem? hw)
      | unstarted hw => cases hended _ (List.mem_of_getElem? hw)
      | act what hw => cases hended _ (List.mem_of_getElem? hw)
      | finish result hw => cases hended _ (List.mem_of_getElem? hw)
      | fail error hw => cases hended _ (List.mem_of_getElem? hw)
      | give_up hw => cases hended _ (List.mem_of_getElem? hw)
      | swallow hw => cases hended _ (List.mem_of_getElem? hw)
      | cancel hw hgathering =>
          rw [hcaller] at hgathering
          cases hgathering
      | join hjoining _ =>
          rw [hcaller] at hjoining
          cases hjoining
      | complete hwaiting _ =>
          rw [hcaller] at hwaiting
          rcases hwaiting with hwaiting | hwaiting <;> cases hwaiting

theorem exists_eq_map_some {β : Type} {l : List (Option β)} (h : ∀ x ∈ l, x.isSome) :
    ∃ l' : List β, l = l'.map some := by
  induction l with
  | nil => exact ⟨[], rfl⟩
  | cons x l ih =>
      obtain ⟨y, rfl⟩ := Option.isSome_iff_exists.mp (h x List.mem_cons_self)
      obtain ⟨l', rfl⟩ := ih fun x hx => h x (List.mem_cons_of_mem _ hx)
      exact ⟨y :: l', rfl⟩

-- Every item has been called, and every call has left its result.
theorem exact_returned (hcalls : s.Calls) (hfailures : s.Failures)
    (hworkers : s.items ≠ [] → s.workers ≠ []) (hback : s.caller = .returned) :
    starts s.log = s.items.zipIdx ∧ (∀ event ∈ s.log, event.breaks = false) ∧
      ∃ results : List ρ, s.results = results.map some ∧ results.length = s.items.length ∧
        ∀ i r, .finish i r ∈ s.log ↔ results[i]? = some r := by
  have hdone := hfailures.returned hback
  have hbreaks : ∀ event ∈ s.log, event.breaks = false := by
    intro event hevent
    by_contra hnot
    obtain ⟨worker, hmem, hbroken⟩ := hfailures.broken event hevent (by simpa using hnot)
    have hdone' := hdone worker hmem
    cases worker with
    | failed _ => cases hdone'
    | cancelled => cases hdone'
    | created _ => cases hbroken
    | calling _ _ => cases hbroken
    | done => cases hbroken
  have hall : s.next_index = s.items.length := by
    by_cases hempty : s.items = []
    · have hle := hcalls.next_le
      rw [hempty] at hle ⊢
      exact Nat.le_zero.mp hle
    · obtain ⟨worker, hmem⟩ := List.exists_mem_of_ne_nil _ (hworkers hempty)
      exact hcalls.exhausted worker hmem (hdone worker hmem)
  have hcalling : s.calling = [] := by
    apply List.filterMap_eq_nil_iff.mpr
    intro worker hmem
    have hdone' := hdone worker hmem
    cases worker with
    | done => rfl
    | created _ => rfl
    | calling _ _ => cases hdone'
    | failed _ => rfl
    | cancelled => rfl
  have hfinished : ∀ i < s.items.length, ∃ r, s.results[i]? = some (some r) := by
    intro i hi
    have hmem : i ∈ s.calling ++ ends s.log :=
      hcalls.once.mem_iff.mpr (List.mem_range.mpr (by omega))
    rw [hcalling, List.nil_append] at hmem
    obtain ⟨event, hevent, hend⟩ := List.mem_filterMap.mp hmem
    have hunbroken := hbreaks event hevent
    cases event with
    | finish index r =>
        cases hend
        exact ⟨r, (hcalls.finished _ r).mp hevent⟩
    | fail _ _ => cases hunbroken
    | give_up _ => cases hunbroken
    | start _ _ => cases hend
    | act _ _ => cases hend
    | swallow _ => cases hend
    | cancel => cases hend
  have hsome : ∀ x ∈ s.results, x.isSome := by
    intro x hx
    obtain ⟨i, hi⟩ := List.mem_iff_getElem?.mp hx
    have hlt : i < s.items.length := by
      rw [← hcalls.length_results]
      exact (List.getElem?_eq_some_iff.mp hi).1
    obtain ⟨r, hr⟩ := hfinished i hlt
    rw [hi] at hr
    rw [Option.some.inj hr]
    rfl
  obtain ⟨results, hresults⟩ := exists_eq_map_some hsome
  refine ⟨?_, hbreaks, results, hresults, ?_, ?_⟩
  · rw [hcalls.in_order, hall, List.take_of_length_le (by rw [List.length_zipIdx])]
  · rw [← hcalls.length_results, hresults, List.length_map]
  · intro i r
    rw [hcalls.finished, hresults, List.getElem?_map]
    simp

-- While nobody is back and no call is running, the event loop has something to run.
theorem exists_step (h : s.Failures) (hcalling : s.calling = []) (hreturned : s.caller ≠ .returned)
    (hraised : ∀ error, s.caller ≠ .raised error) : ∃ action s', action.own ∧
      s.step action = some s' := by
  by_cases hended : ∀ worker ∈ s.workers, worker.ended
  · have hdone_or : (s.caller = .looping ∨ s.caller = .gathering) →
      (∀ worker ∈ s.workers, worker.is_done) ∨
        s.caller = .gathering ∧ ∃ (w : ℕ) (error : ε), s.workers[w]? = some (.failed error) := by
      intro hwaiting
      by_cases hdone : ∀ worker ∈ s.workers, worker.is_done
      · exact .inl hdone
      · push Not at hdone
        obtain ⟨worker, hmem, hnot⟩ := hdone
        have hundisturbed := h.undisturbed (hwaiting.symm) worker hmem
        have hended' := hended worker hmem
        cases worker with
        | done => exact absurd rfl hnot
        | failed error =>
            rcases hwaiting with hlooping | hgathering
            · exact absurd hmem ((h.looping hlooping).2 error)
            · obtain ⟨w, hw⟩ := List.mem_iff_getElem?.mp hmem
              exact .inr ⟨hgathering, w, error, hw⟩
        | cancelled => cases hundisturbed
        | created _ => cases hended'
        | calling _ _ => cases hended'
    cases hcaller : s.caller with
    | looping =>
        rcases hdone_or (.inl hcaller) with hdone | ⟨hgathering, _⟩
        · refine ⟨.complete, { s with caller := .returned }, rfl, ?_⟩
          simp only [step, hcaller, List.all_eq_true.mpr hdone, if_true]
        · rw [hcaller] at hgathering
          cases hgathering
    | gathering =>
        rcases hdone_or (.inr hcaller) with hdone | ⟨_, w, error, hw⟩
        · refine ⟨.complete, { s with caller := .returned }, rfl, ?_⟩
          simp only [step, hcaller, List.all_eq_true.mpr hdone, if_true]
        · refine ⟨.cancel w, ?_⟩
          simp only [step, hcaller, hw]
          exact ⟨_, rfl, rfl⟩
    | joining error =>
        refine ⟨.join, { s with caller := .raised error }, rfl, ?_⟩
        simp only [step, hcaller, List.all_eq_true.mpr hended, if_true]
    | returned => exact absurd hcaller hreturned
    | raised error => exact absurd hcaller (hraised error)
  · push Not at hended
    obtain ⟨worker, hmem, hlive⟩ := hended
    obtain ⟨w, hw⟩ := List.mem_iff_getElem?.mp hmem
    cases worker with
    | created cancelling =>
        cases cancelling with
        | false => exact ⟨.resume w, s.next_item w, rfl, by simp only [step, hw]⟩
        | true => exact ⟨.resume w, s.put w .cancelled [], rfl, by simp only [step, hw]⟩
    | calling index _ =>
        have hindex : index ∈ s.calling := List.mem_filterMap.mpr ⟨_, hmem, rfl⟩
        rw [hcalling] at hindex
        cases hindex
    | done => exact absurd rfl hlive
    | failed _ => exact absurd rfl hlive
    | cancelled => exact absurd rfl hlive

-- The run lemma for both invariants.
theorem invariant_of_reach {caller : Caller ε} {workers : ℕ}
    (h : caller = .gathering ∨ caller = .looping ∧ workers = 1)
    (hr : Reach step (· = (start caller workers items : Pool α ρ ε κ)) Ok s) :
    s.items = items ∧ s.workers.length = workers ∧ s.Calls ∧ s.Failures := by
  refine hr.invariant (I := fun s => s.items = items ∧ s.workers.length = workers ∧
    s.Calls ∧ s.Failures) ?_ ?_
  · rintro _ rfl
    exact ⟨rfl, List.length_replicate, calls_start caller workers items, failures_start items h⟩
  · rintro s action s' _ ⟨hitems, hlen, hcalls, hfailures⟩ _ hstep
    have hsteps := steps_of_step hstep
    obtain ⟨hitems', hlen'⟩ := frame hsteps
    exact ⟨hitems'.trans hitems, hlen'.trans hlen, hcalls.step hsteps, hfailures.step hsteps⟩

theorem exact_of_reach (caller : Caller ε) (workers : ℕ)
    (h : caller = .gathering ∨ caller = .looping ∧ workers = 1)
    (hworkers : items ≠ [] → 0 < workers)
    (hlimit : items ≠ [] → workers ≤ min concurrency items.length)
    (hr : Reach step (· = (start caller workers items : Pool α ρ ε κ)) Ok s) :
    s.items = items ∧ s.Exact concurrency := by
  obtain ⟨hitems, hlen, hcalls, hfailures⟩ := invariant_of_reach h hr
  have hpos : s.items ≠ [] → s.workers ≠ [] := by
    intro hne hnil
    rw [hitems] at hne
    have hlt := hworkers hne
    rw [hnil] at hlen
    simp only [List.length_nil] at hlen
    omega
  refine ⟨hitems, hcalls.in_order, ⟨?_, ?_⟩, ?_, exact_returned hcalls hfailures hpos, ?_, ?_, ?_⟩
  · exact (List.nodup_append.mp (hcalls.once.nodup_iff.mpr List.nodup_range)).2.1
  · intro index hindex
    exact List.mem_range.mp (hcalls.once.mem_iff.mp (List.mem_append_right _ hindex))
  · have hstarts := length_starts hcalls
    have hends := length_ends hcalls
    have hle : s.calling.length ≤ s.workers.length := List.length_filterMap_le ..
    by_cases hempty : items = []
    · have hnext := hcalls.next_le
      rw [hitems, hempty, List.length_nil] at hnext
      omega
    · have hbound := hlimit hempty
      rw [hitems]
      omega
  · intro error hback
    exact ⟨hfailures.raising error (.inr hback), step_eq_none (hfailures.raised error hback) hback⟩
  · intro before after hlog hswallow
    exact (hfailures.quiet before after hlog hswallow).2
  · by_cases hreturned : s.caller = .returned
    · exact .inl hreturned
    · by_cases hraised : ∃ error, s.caller = .raised error
      · exact .inr (.inl hraised)
      · by_cases hcalling : s.calling = []
        · exact .inr (.inr (.inr (exists_step hfailures hcalling hreturned fun error h =>
            hraised ⟨error, h⟩)))
        · exact .inr (.inr (.inl hcalling))

end Pool

theorem for_each_concurrently_exact (hconcurrency : 1 ≤ concurrency)
    (hr : Reach Pool.step (· = (for_each_concurrently items concurrency : Pool α ρ ε κ)) Ok s) :
    s.items = items ∧ s.Exact concurrency := by
  have hlen : items ≠ [] → 0 < items.length := List.length_pos_iff.mpr
  unfold for_each_concurrently at hr
  split at hr
  · apply Pool.exact_of_reach .looping 1 (.inr ⟨rfl, rfl⟩) (fun _ => Nat.one_pos) ?_ hr
    intro hne
    have := hlen hne
    omega
  · apply Pool.exact_of_reach .gathering _ (.inl rfl) ?_ (fun _ => Nat.le_refl _) hr
    intro hne
    have := hlen hne
    omega

end Reflowfy.AsyncUtils
