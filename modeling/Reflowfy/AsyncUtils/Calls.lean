import Reflowfy.AsyncUtils
import Mathlib.Data.List.Range
import Mathlib.Data.List.Perm.Basic

namespace Reflowfy.AsyncUtils

variable {α ρ ε κ : Type}

namespace Event

def started : Event α ρ ε κ → Option (α × ℕ)
  | start index item => some (item, index)
  | _ => none

-- The call that ends here.
def ended : Event α ρ ε κ → Option ℕ
  | finish index _ => some index
  | fail index _ => some index
  | give_up index => some index
  | _ => none

end Event

-- The calls in the order in which they start, each with its item.
def starts (log : List (Event α ρ ε κ)) : List (α × ℕ) := log.filterMap Event.started

def ends (log : List (Event α ρ ε κ)) : List ℕ := log.filterMap Event.ended

theorem starts_append (log log' : List (Event α ρ ε κ)) :
    starts (log ++ log') = starts log ++ starts log' :=
  List.filterMap_append ..

theorem ends_append (log log' : List (Event α ρ ε κ)) :
    ends (log ++ log') = ends log ++ ends log' :=
  List.filterMap_append ..

def Pool.calling (s : Pool α ρ ε κ) : List ℕ := s.workers.filterMap Worker.index

theorem filterMap_cons_toList {β γ : Type} (f : β → Option γ) (x : β) (l : List β) :
    (x :: l).filterMap f = (f x).toList ++ l.filterMap f := by
  cases h : f x with
  | none => simp [h]
  | some y => simp [h]

-- To replace an entry replaces what it contributes.
theorem perm_filterMap_set {β γ : Type} (f : β → Option γ) {l : List β} {i : ℕ} {a : β} (b : β)
    (h : l[i]? = some a) :
    ((f a).toList ++ (l.set i b).filterMap f).Perm ((f b).toList ++ l.filterMap f) := by
  obtain ⟨hi, rfl⟩ := List.getElem?_eq_some_iff.mp h
  have hset := (List.set_perm_cons_eraseIdx hi b).filterMap f
  have hself := (List.getElem_cons_eraseIdx_perm hi).filterMap f
  rw [filterMap_cons_toList] at hset hself
  refine (hset.append_left _).trans ((List.perm_append_comm_assoc ..).trans ?_)
  exact hself.append_left _

theorem mem_set_or_eq {β : Type} {l : List β} {i : ℕ} {a x : β} (b : β)
    (h : l[i]? = some a) (hx : x ∈ l) :
    x ∈ l.set i b ∨ x = a := by
  obtain ⟨j, hj⟩ := List.mem_iff_getElem?.mp hx
  by_cases hij : i = j
  · subst hij
    rw [h] at hj
    exact .inr (Option.some.inj hj).symm
  · refine .inl (List.mem_iff_getElem?.mpr ⟨j, ?_⟩)
    rw [List.getElem?_set_ne hij]
    exact hj

-- What an action of worker `w` makes of its call, in the log.
def Action.logs (w index : ℕ) (event : Event α ρ ε κ) : Action ρ ε κ → Prop
  | act w' what => w' = w ∧ event = .act index what
  | finish w' result => w' = w ∧ event = .finish index result
  | fail w' error => w' = w ∧ event = .fail index error
  | give_up w' => w' = w ∧ event = .give_up index
  | swallow w' => w' = w ∧ event = .swallow index
  | _ => False

theorem Action.finish_of_logs {w index index' : ℕ} {result : ρ} {action : Action ρ ε κ}
    (h : action.logs w index (.finish index' result : Event α ρ ε κ)) : action = .finish w result ∧
      index = index' := by
  cases action with
  | finish w' result' =>
      obtain ⟨rfl, heq⟩ := h
      cases heq
      exact ⟨rfl, rfl⟩
  | act _ _ => cases h.2
  | fail _ _ => cases h.2
  | give_up _ => cases h.2
  | swallow _ => cases h.2
  | resume _ => cases h
  | cancel _ => cases h
  | join => cases h
  | complete => cases h

theorem Action.fail_of_logs {w index index' : ℕ} {error : ε} {action : Action ρ ε κ}
    (h : action.logs w index (.fail index' error : Event α ρ ε κ)) : action = .fail w error ∧
      index = index' := by
  cases action with
  | fail w' error' =>
      obtain ⟨rfl, heq⟩ := h
      cases heq
      exact ⟨rfl, rfl⟩
  | act _ _ => cases h.2
  | finish _ _ => cases h.2
  | give_up _ => cases h.2
  | swallow _ => cases h.2
  | resume _ => cases h
  | cancel _ => cases h
  | join => cases h
  | complete => cases h

namespace Pool

section Counting

variable {s : Pool α ρ ε κ} {w : ℕ} {worker worker' : Worker ε} {events : List (Event α ρ ε κ)}

-- The calls that have started are those of the first `next_index` items, in order; each of
-- them is running in one worker or has ended, once.
structure Calls (s : Pool α ρ ε κ) : Prop where
  next_le : s.next_index ≤ s.items.length
  in_order : starts s.log = s.items.zipIdx.take s.next_index
  once : (s.calling ++ ends s.log).Perm (List.range s.next_index)
  length_results : s.results.length = s.items.length
  finished : ∀ i r, .finish i r ∈ s.log ↔ s.results[i]? = some (some r)
  exhausted : ∀ worker ∈ s.workers, worker.is_done → s.next_index = s.items.length

theorem calls_start (caller : Caller ε) (workers : ℕ) (items : List α) :
    (start caller workers items : Pool α ρ ε κ).Calls where
  next_le := Nat.zero_le _
  in_order := rfl
  once := by
    have hcalling : (start caller workers items : Pool α ρ ε κ).calling = [] := by
      apply List.filterMap_eq_nil_iff.mpr
      intro worker hworker
      rw [List.eq_of_mem_replicate hworker]
      rfl
    rw [hcalling]
    exact List.Perm.refl _
  length_results := List.length_replicate
  finished i r := by
    simp only [start, List.not_mem_nil, false_iff]
    intro hr
    cases List.eq_of_mem_replicate (List.mem_of_getElem? hr)
  exhausted worker hworker hdone := by
    rw [List.eq_of_mem_replicate hworker] at hdone
    cases hdone

-- A worker whose call ends, if its events say so, and otherwise goes on.
theorem Calls.put (h : s.Calls) (hworker : s.workers[w]? = some worker)
    (hindex : worker.index.toList = worker'.index.toList ++ ends events)
    (hdone : worker'.is_done = false)
    (hstarts : starts events = []) (caller : Caller ε) {results : List (Option ρ)}
    (hlen : results.length = s.items.length)
    (hfinished : ∀ i r, .finish i r ∈ s.log ++ events ↔ results[i]? = some (some r)) :
    ({ s.put w worker' events with results := results, caller := caller } : Pool α
      ρ ε κ).Calls where
  next_le := h.next_le
  in_order := by
    simp only [Pool.put, starts_append, hstarts, List.append_nil]
    exact h.in_order
  once := by
    have hset := perm_filterMap_set Worker.index worker' hworker
    rw [hindex, List.append_assoc, List.perm_append_left_iff] at hset
    have hcalling : (ends events ++ (s.put w worker' events).calling).Perm s.calling := hset
    have hmove : ((s.put w worker' events).calling ++ (ends s.log ++ ends events)).Perm
        ((ends events ++ (s.put w worker' events).calling) ++ ends s.log) := by
      rw [← List.append_assoc, List.append_assoc (ends events)]
      exact List.perm_append_comm
    simp only [Pool.put, ends_append]
    exact hmove.trans ((hcalling.append_right _).trans h.once)
  length_results := hlen
  finished := hfinished
  exhausted x hx hxdone := by
    rcases List.mem_or_eq_of_mem_set hx with hmem | rfl
    · exact h.exhausted x hmem hxdone
    · rw [hdone] at hxdone
      cases hxdone

-- The iterator gives an item out once, and its call starts.
theorem Calls.next_item (h : s.Calls) (hworker : s.workers[w]? = some worker)
    (hindex : worker.index = none) :
    (s.next_item w).Calls := by
  cases hitem : s.items[s.next_index]? with
  | none =>
      have hend : s.items.length ≤ s.next_index := List.getElem?_eq_none_iff.mp hitem
      simp only [Pool.next_item, hitem]
      constructor
      · exact h.next_le
      · simp only [Pool.put, List.append_nil]
        exact h.in_order
      · have hset := perm_filterMap_set Worker.index .done hworker
        rw [hindex] at hset
        simp only [Pool.put, List.append_nil]
        exact (hset.append_right _).trans h.once
      · exact h.length_results
      · simp only [Pool.put, List.append_nil]
        exact h.finished
      · intro _ _ _
        exact Nat.le_antisymm h.next_le hend
  | some item =>
      obtain ⟨hlt, hget⟩ := List.getElem?_eq_some_iff.mp hitem
      simp only [Pool.next_item, hitem]
      constructor
      · exact hlt
      · simp only [Pool.put, starts_append, h.in_order]
        rw [List.take_add_one, List.getElem?_zipIdx, hitem]
        simp [starts, Event.started]
      · have hset := perm_filterMap_set Worker.index (.calling s.next_index false) hworker
        rw [hindex] at hset
        have hcalling : (s.put w (.calling s.next_index false)
          [.start s.next_index item]).calling.Perm
            (s.next_index :: s.calling) := hset
        simp only [Pool.put, ends_append]
        rw [List.range_succ]
        refine ((hcalling.append_right _).trans ?_)
        refine List.Perm.trans ?_ (h.once.append_right _)
        simp only [ends, List.filterMap_cons, Event.ended, List.filterMap_nil,
          List.append_nil, List.cons_append]
        exact (List.perm_append_singleton _ _).symm
      · exact h.length_results
      · intro i r
        simp only [Pool.put, List.mem_append, List.mem_singleton, reduceCtorEq, or_false]
        exact h.finished i r
      · intro x hx hxdone
        rcases List.mem_or_eq_of_mem_set hx with hmem | rfl
        · have hend := h.exhausted x hmem hxdone
          omega
        · cases hxdone

-- A call that started and has not ended has left no result.
theorem Calls.not_finished (h : s.Calls) {index : ℕ} {cancelling : Bool}
    (hworker : s.workers[w]? = some (.calling index cancelling)) :
    index < s.items.length ∧ ∀ r, .finish index r ∉ s.log := by
  have hcalling : index ∈ s.calling := List.mem_filterMap.mpr ⟨_, List.mem_of_getElem? hworker, rfl⟩
  constructor
  · have hmem : index ∈ List.range s.next_index :=
      h.once.mem_iff.mp (List.mem_append_left _ hcalling)
    have hlt := List.mem_range.mp hmem
    have hle := h.next_le
    omega
  · intro r hr
    have hended : index ∈ ends s.log := List.mem_filterMap.mpr ⟨_, hr, rfl⟩
    have hnodup : (s.calling ++ ends s.log).Nodup := h.once.nodup_iff.mpr List.nodup_range
    exact (List.nodup_append.mp hnodup).2.2 index hcalling index hended rfl

-- The same with no result added.
theorem Calls.put_same (h : s.Calls) (hworker : s.workers[w]? = some worker)
    (hindex : worker.index.toList = worker'.index.toList ++ ends events)
    (hdone : worker'.is_done = false)
    (hstarts : starts events = []) (caller : Caller ε) (hfinish : ∀ i r, .finish i r ∉ events) :
    ({ s.put w worker' events with caller := caller } : Pool α ρ ε κ).Calls := by
  refine h.put hworker hindex hdone hstarts caller h.length_results fun i r => ?_
  rw [List.mem_append, h.finished i r]
  exact or_iff_left (hfinish i r)

theorem Calls.finish (h : s.Calls) {index : ℕ} {cancelling : Bool}
    (hworker : s.workers[w]? = some (.calling index cancelling)) (result : ρ) :
    ({ s.put w (.created false) [.finish index result] with
      results := s.results.set index (some result) } : Pool α ρ ε κ).Calls := by
  obtain ⟨hlt, hnone⟩ := h.not_finished hworker
  refine h.put hworker rfl rfl rfl s.caller
    (by rw [List.length_set, h.length_results]) fun i r => ?_
  rw [List.mem_append, h.finished i r, List.mem_singleton]
  by_cases hi : i = index
  · subst hi
    have hold : ¬s.results[i]? = some (some r) := fun hr => hnone r ((h.finished i r).mpr hr)
    rw [List.getElem?_set_self (by rw [h.length_results]; exact hlt)]
    simp [hold, eq_comm]
  · rw [List.getElem?_set_ne (Ne.symm hi)]
    simp [hi]

theorem Calls.cancel (h : s.Calls) (caller : Caller ε) :
    ({ s with
      workers := s.workers.map Worker.cancel
      caller := caller
      log := s.log ++ [.cancel] } : Pool α ρ ε κ).Calls where
  next_le := h.next_le
  in_order := by
    simp only [starts_append]
    rw [h.in_order]
    exact List.append_nil _
  once := by
    have hindex : ∀ worker : Worker ε, worker.cancel.index = worker.index := by
      intro worker
      cases worker <;> rfl
    simp only [calling, List.filterMap_map, Function.comp_def, hindex, ends_append]
    have hnone : ends [(.cancel : Event α ρ ε κ)] = [] := rfl
    rw [hnone, List.append_nil]
    exact h.once
  length_results := h.length_results
  finished i r := by
    simp only [List.mem_append, List.mem_singleton, reduceCtorEq, or_false]
    exact h.finished i r
  exhausted worker hworker hdone := by
    obtain ⟨worker, hmem, rfl⟩ := List.mem_map.mp hworker
    cases worker with
    | done => exact h.exhausted _ hmem rfl
    | created _ => cases hdone
    | calling _ _ => cases hdone
    | failed _ => cases hdone
    | cancelled => cases hdone

theorem Calls.caller (h : s.Calls) (caller : Caller ε) :
    ({ s with caller := caller } : Pool α ρ ε κ).Calls :=
  ⟨h.next_le, h.in_order, h.once, h.length_results, h.finished, h.exhausted⟩

end Counting

section Steps

variable {s s' : Pool α ρ ε κ} {action : Action ρ ε κ}

-- What a step does, an action at a time.
inductive Steps (s : Pool α ρ ε κ) : Action ρ ε κ → Pool α ρ ε κ → Prop
  | resume {w : ℕ} (hw : s.workers[w]? = some (.created false)) :
      Steps s (.resume w) (s.next_item w)
  | unstarted {w : ℕ} (hw : s.workers[w]? = some (.created true)) :
      Steps s (.resume w) (s.put w .cancelled [])
  | act {w index : ℕ} {cancelling : Bool} (what : κ)
      (hw : s.workers[w]? = some (.calling index cancelling)) :
      Steps s (.act w what) (s.put w (.calling index cancelling) [.act index what])
  | finish {w index : ℕ} (result : ρ) (hw : s.workers[w]? = some (.calling index false)) :
      Steps s (.finish w result) (({ s.put w (.created false) [.finish index result] with
        results := s.results.set index (some result) } : Pool α ρ ε κ).next_item w)
  | fail {w index : ℕ} {cancelling : Bool} (error : ε)
      (hw : s.workers[w]? = some (.calling index cancelling)) :
      Steps s (.fail w error)
        { s.put w (.failed error) [.fail index error] with caller := s.caller.fail error }
  | give_up {w index : ℕ} (hw : s.workers[w]? = some (.calling index true)) :
      Steps s (.give_up w) (s.put w .cancelled [.give_up index])
  | swallow {w index : ℕ} (hw : s.workers[w]? = some (.calling index true)) :
      Steps s (.swallow w) (s.put w (.calling index false) [.swallow index])
  | cancel {w : ℕ} {error : ε} (hw : s.workers[w]? = some (.failed error))
      (hcaller : s.caller = .gathering) :
      Steps s (.cancel w)
        { s with
          workers := s.workers.map Worker.cancel
          caller := .joining error
          log := s.log ++ [.cancel] }
  | join {error : ε} (hcaller : s.caller = .joining error)
      (hended : ∀ worker ∈ s.workers, worker.ended) :
      Steps s .join { s with caller := .raised error }
  | complete (hcaller : s.caller = .looping ∨ s.caller = .gathering)
      (hdone : ∀ worker ∈ s.workers, worker.is_done) :
      Steps s .complete { s with caller := .returned }

theorem steps_of_step (hstep : s.step action = some s') : Steps s action s' := by
  cases action with
  | resume w =>
      simp only [step] at hstep
      split at hstep
      · rename_i hw
        cases hstep
        exact .resume hw
      · rename_i hw
        cases hstep
        exact .unstarted hw
      · cases hstep
  | act w what =>
      simp only [step] at hstep
      split at hstep
      · rename_i hw
        cases hstep
        exact .act what hw
      · cases hstep
  | finish w result =>
      simp only [step] at hstep
      split at hstep
      · rename_i hw
        cases hstep
        exact .finish result hw
      · cases hstep
  | fail w error =>
      simp only [step] at hstep
      split at hstep
      · rename_i hw
        cases hstep
        exact .fail error hw
      · cases hstep
  | give_up w =>
      simp only [step] at hstep
      split at hstep
      · rename_i hw
        cases hstep
        exact .give_up hw
      · cases hstep
  | swallow w =>
      simp only [step] at hstep
      split at hstep
      · rename_i hw
        cases hstep
        exact .swallow hw
      · cases hstep
  | cancel w =>
      simp only [step] at hstep
      split at hstep
      · rename_i hcaller hw
        cases hstep
        exact .cancel hw hcaller
      · cases hstep
  | join =>
      simp only [step] at hstep
      split at hstep
      · rename_i hcaller
        split at hstep
        · rename_i hended
          cases hstep
          exact .join hcaller (List.all_eq_true.mp hended)
        · cases hstep
      · cases hstep
  | complete =>
      simp only [step] at hstep
      split at hstep
      · rename_i hcaller
        split at hstep
        · rename_i hdone
          cases hstep
          exact .complete (.inl hcaller) (List.all_eq_true.mp hdone)
        · cases hstep
      · rename_i hcaller
        split at hstep
        · rename_i hdone
          cases hstep
          exact .complete (.inr hcaller) (List.all_eq_true.mp hdone)
        · cases hstep
      · cases hstep

theorem Calls.step (h : s.Calls) (hstep : Steps s action s') : s'.Calls := by
  cases hstep with
  | resume hw => exact h.next_item hw rfl
  | unstarted hw => exact h.put_same hw rfl rfl rfl s.caller (by simp)
  | act what hw => exact h.put_same hw rfl rfl rfl s.caller (by simp)
  | finish result hw =>
      obtain ⟨hlt, _⟩ := List.getElem?_eq_some_iff.mp hw
      exact (h.finish hw result).next_item (List.getElem?_set_self hlt) rfl
  | fail error hw => exact h.put_same hw rfl rfl rfl _ (by simp)
  | give_up hw => exact h.put_same hw rfl rfl rfl s.caller (by simp)
  | swallow hw => exact h.put_same hw rfl rfl rfl s.caller (by simp)
  | cancel hw hcaller => exact h.cancel _
  | join hcaller hended => exact h.caller _
  | complete hcaller hdone => exact h.caller _

theorem next_item_log (s : Pool α ρ ε κ) (w : ℕ) :
    (s.next_item w).log = s.log ∨ ∃ item, (s.next_item w).log = s.log ++
    [.start s.next_index item] := by
  unfold next_item
  split
  · rename_i item _
    exact .inr ⟨item, rfl⟩
  · exact .inl (List.append_nil _)

-- What comes into the log with a step: a start, the `cancel`, or what a worker's action makes of
-- its call.
theorem log_of_steps (hstep : Steps s action s') :
    ∃ events, s'.log = s.log ++ events ∧
      ∀ event ∈ events, (∃ index item, event = .start index item) ∨ event = .cancel ∨
      ∃ w index cancelling, s.workers[w]? = some (.calling index cancelling) ∧
        action.logs w index event := by
  have hone : ∀ {event : Event α ρ ε κ} {w index : ℕ} {cancelling : Bool}, s.workers[w]? =
    some (.calling index cancelling) →
      action.logs w index event →
        ∀ other ∈ [event], (∃ index item, other = .start index item) ∨ other = .cancel ∨
        ∃ w index cancelling, s.workers[w]? = some (.calling index cancelling) ∧
            action.logs w index other := by
    intro event w index cancelling hw hlogs other hother
    rw [List.mem_singleton.mp hother]
    exact .inr (.inr ⟨w, index, cancelling, hw, hlogs⟩)
  have hnext : ∀ (s : Pool α ρ ε κ) w, ∃ events, (s.next_item w).log = s.log ++ events ∧
      ∀ event ∈ events, ∃ index item, event = .start index item := by
    intro s w
    rcases next_item_log s w with heq | ⟨item, heq⟩
    · exact ⟨[], by rw [heq, List.append_nil], by simp⟩
    · exact ⟨_, heq, by simp⟩
  cases hstep with
  | @resume w hw =>
      obtain ⟨events, hlog, hstarts⟩ := hnext s w
      exact ⟨events, hlog, fun event hevent => .inl (hstarts event hevent)⟩
  | @finish w index result hw =>
      obtain ⟨events, hlog, hstarts⟩ := hnext { s.put w (.created false) [.finish index result] with
        results := s.results.set index (some result) } w
      refine ⟨.finish index result :: events, ?_, ?_⟩
      · rw [hlog]
        simp only [put, List.append_assoc, List.cons_append, List.nil_append]
      · intro event hevent
        rcases List.mem_cons.mp hevent with rfl | hevent
        · exact hone hw ⟨rfl, rfl⟩ _ (List.mem_singleton_self _)
        · exact .inl (hstarts event hevent)
  | unstarted hw => exact ⟨[], rfl, by simp⟩
  | act what hw => exact ⟨_, rfl, hone hw ⟨rfl, rfl⟩⟩
  | fail error hw => exact ⟨_, rfl, hone hw ⟨rfl, rfl⟩⟩
  | give_up hw => exact ⟨_, rfl, hone hw ⟨rfl, rfl⟩⟩
  | swallow hw => exact ⟨_, rfl, hone hw ⟨rfl, rfl⟩⟩
  | cancel hw hcaller =>
      exact ⟨[.cancel], rfl, fun event hevent => .inr (.inl (List.mem_singleton.mp hevent))⟩
  | join hcaller hended => exact ⟨[], (List.append_nil _).symm, by simp⟩
  | complete hcaller hdone => exact ⟨[], (List.append_nil _).symm, by simp⟩

theorem finish_of_steps (hstep : Steps s action s') {index : ℕ} {r : ρ}
    (h : .finish index r ∈ s'.log) :
    .finish index r ∈ s.log ∨ ∃ w cancelling, action = .finish w r ∧
      s.workers[w]? = some (.calling index cancelling) := by
  obtain ⟨events, hlog, hevents⟩ := log_of_steps hstep
  rw [hlog] at h
  rcases List.mem_append.mp h with hold | hnew
  · exact .inl hold
  · rcases hevents _ hnew with ⟨_, _, heq⟩ | heq | ⟨w, index', cancelling, hw, hlogs⟩
    · cases heq
    · cases heq
    · obtain ⟨rfl, rfl⟩ := Action.finish_of_logs hlogs
      exact .inr ⟨w, cancelling, rfl, hw⟩

theorem fail_of_steps (hstep : Steps s action s') {index : ℕ} {error : ε}
    (h : .fail index error ∈ s'.log) :
    .fail index error ∈ s.log ∨
      ∃ w cancelling, action = .fail w error ∧
        s.workers[w]? = some (.calling index cancelling) := by
  obtain ⟨events, hlog, hevents⟩ := log_of_steps hstep
  rw [hlog] at h
  rcases List.mem_append.mp h with hold | hnew
  · exact .inl hold
  · rcases hevents _ hnew with ⟨_, _, heq⟩ | heq | ⟨w, index', cancelling, hw, hlogs⟩
    · cases heq
    · cases heq
    · obtain ⟨rfl, rfl⟩ := Action.fail_of_logs hlogs
      exact .inr ⟨w, cancelling, rfl, hw⟩

end Steps

end Pool

end Reflowfy.AsyncUtils
