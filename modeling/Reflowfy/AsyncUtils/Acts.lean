import Reflowfy.AsyncUtils.Progress

namespace Reflowfy.AsyncUtils

open Interleaving

variable {α ρ ε κ : Type}

def acted (index : ℕ) : Event α ρ ε κ → Bool
  | .act i _ => i = index
  | _ => false

def Event.made : Event α ρ ε κ → Option (ℕ × κ)
  | .act index what => some (index, what)
  | _ => none

-- What the calls have done, in the order in which they did it.
def acts (log : List (Event α ρ ε κ)) : List (ℕ × κ) := log.filterMap Event.made

-- What a call is to do.
def planned (make : ℕ → α → Except ε κ) (item : α × ℕ) : Option (ℕ × κ) :=
  match make item.2 item.1 with
  | .ok what => some (item.2, what)
  | .error _ => none

-- Calls that make something of their item before they wait for anything, or raise; they do what
-- they made, and later end. `refused` says with which errors.
def ActsAtOnce (make : ℕ → α → Except ε κ) (refused : ℕ → ε → Prop) (s : Pool α ρ ε κ)
    (action : Action ρ ε κ) : Prop :=
  (∀ w index cancelling item, s.workers[w]? = some (.calling index cancelling) →
    s.items[index]? = some item →
    ¬s.log.any (acted index) → action = match make index item with
      | .ok what => .act w what
      | .error error => .fail w error) ∧
  match action with
  | .act w _ => ∃ index, s.workers[w]? = some (.calling index false) ∧ ¬s.log.any (acted index)
  | .fail w error => ∃ index cancelling item, s.workers[w]? = some (.calling index cancelling) ∧
      s.items[index]? = some item ∧
        (make index item = .error error ∨ s.log.any (acted index) ∧ refused index error)
  | .swallow _ => False
  | _ => True

section Log

theorem acts_append (log log' : List (Event α ρ ε κ)) :
    acts (log ++ log') = acts log ++ acts log' :=
  List.filterMap_append ..

theorem any_acted_iff {log : List (Event α ρ ε κ)} {index : ℕ} :
    log.any (acted index) = true ↔ ∃ what, (index, what) ∈ acts log := by
  simp only [List.any_eq_true, acts, List.mem_filterMap]
  constructor
  · rintro ⟨event, hevent, hacted⟩
    cases event with
    | act i what =>
        obtain rfl : i = index := by simpa [acted] using hacted
        exact ⟨what, _, hevent, rfl⟩
    | start _ _ => cases hacted
    | finish _ _ => cases hacted
    | fail _ _ => cases hacted
    | give_up _ => cases hacted
    | swallow _ => cases hacted
    | cancel => cases hacted
  · rintro ⟨what, event, hevent, hmade⟩
    cases event with
    | act i what' =>
        cases hmade
        exact ⟨_, hevent, by simp [acted]⟩
    | start _ _ => cases hmade
    | finish _ _ => cases hmade
    | fail _ _ => cases hmade
    | give_up _ => cases hmade
    | swallow _ => cases hmade
    | cancel => cases hmade

variable {s s' : Pool α ρ ε κ} {action : Action ρ ε κ}

theorem acts_next_item (s : Pool α ρ ε κ) (w : ℕ) : acts (s.next_item w).log = acts s.log := by
  rcases Pool.next_item_log s w with heq | ⟨item, heq⟩
  · rw [heq]
  · rw [heq, acts_append]
    exact List.append_nil _

theorem acts_of_steps (hstep : Pool.Steps s action s') :
    (∃ w index cancelling what, action = .act w what ∧
      s.workers[w]? = some (.calling index cancelling) ∧
      s' = s.put w (.calling index cancelling) [.act index what]) ∨
    (∀ w what, action ≠ .act w what) ∧ acts s'.log = acts s.log := by
  have hput : ∀ (s : Pool α ρ ε κ) w worker events, acts events = [] →
      acts (s.put w worker events).log = acts s.log := by
    intro s w worker events hnone
    simp only [Pool.put, acts_append, hnone, List.append_nil]
  cases hstep with
  | @act w index cancelling what hw => exact .inl ⟨w, index, cancelling, what, rfl, hw, rfl⟩
  | resume hw => exact .inr ⟨fun _ _ h => (by cases h), acts_next_item s _⟩
  | @finish w index result hw =>
      refine .inr ⟨fun _ _ h => (by cases h), ?_⟩
      rw [acts_next_item]
      exact hput s w (.created false) [.finish index result] rfl
  | unstarted hw => exact .inr ⟨fun _ _ h => (by cases h), hput s _ _ _ rfl⟩
  | @fail w index cancelling error hw =>
      exact .inr ⟨fun _ _ h => (by cases h), hput s w (.failed error) [.fail index error] rfl⟩
  | give_up hw => exact .inr ⟨fun _ _ h => (by cases h), hput s _ _ _ rfl⟩
  | swallow hw => exact .inr ⟨fun _ _ h => (by cases h), hput s _ _ _ rfl⟩
  | cancel hw hcaller =>
      refine .inr ⟨fun _ _ h => (by cases h), ?_⟩
      rw [acts_append]
      exact List.append_nil _
  | join hcaller hended => exact .inr ⟨fun _ _ h => (by cases h), rfl⟩
  | complete hcaller hdone => exact .inr ⟨fun _ _ h => (by cases h), rfl⟩

theorem any_acted_of_steps (hstep : Pool.Steps s action s') {index : ℕ}
    (h : s.log.any (acted index)) :
    s'.log.any (acted index) := by
  obtain ⟨events, hlog, _⟩ := Pool.log_of_steps hstep
  rw [hlog, List.any_append, h]
  rfl

theorem mem_calling_of_set {w : ℕ} {worker : Worker ε} {index : ℕ}
    (h : index ∈ (s.workers.set w worker).filterMap Worker.index) : index ∈ s.calling ∨
      worker.index = some index := by
  obtain ⟨other, hmem, hindex⟩ := List.mem_filterMap.mp h
  rcases List.mem_or_eq_of_mem_set hmem with hold | rfl
  · exact .inl (List.mem_filterMap.mpr ⟨other, hold, hindex⟩)
  · exact .inr hindex

-- At most one call starts, and it is the next one.
theorem next_of_next_item {w : ℕ} (hw : w < s.workers.length) :
    (s.next_item w).next_index = s.next_index ∧
    (∀ index ∈ (s.next_item w).calling, index ∈ s.calling) ∨
    (s.next_item w).next_index = s.next_index + 1 ∧
      (∃ w' : ℕ, (s.next_item w).workers[w']? = some (.calling s.next_index false)) ∧
      ∀ index ∈ (s.next_item w).calling, index ∈ s.calling ∨ index = s.next_index := by
  unfold Pool.next_item
  split
  · refine .inr ⟨rfl, ⟨w, List.getElem?_set_self hw⟩, fun index hindex => ?_⟩
    exact (mem_calling_of_set hindex).imp_right fun h => (Option.some.inj h).symm
  · refine .inl ⟨rfl, fun index hindex => ?_⟩
    rcases mem_calling_of_set hindex with hold | hnew
    · exact hold
    · cases hnew

theorem next_of_steps (hstep : Pool.Steps s action s') :
    s'.next_index = s.next_index ∧ (∀ index ∈ s'.calling, index ∈ s.calling) ∨
    s'.next_index = s.next_index + 1 ∧
      (∃ w : ℕ, s'.workers[w]? = some (.calling s.next_index false)) ∧
      ∀ index ∈ s'.calling, index ∈ s.calling ∨ index = s.next_index := by
  have hput : ∀ {w : ℕ} {worker worker' : Worker ε}, s.workers[w]? = some worker →
      (∀ index, worker'.index = some index → worker.index = some index) →
      ∀ index ∈ (s.workers.set w worker').filterMap Worker.index, index ∈ s.calling := by
    intro w worker worker' hw hsame index hindex
    rcases mem_calling_of_set hindex with hold | hnew
    · exact hold
    · exact List.mem_filterMap.mpr ⟨worker, List.mem_of_getElem? hw, hsame index hnew⟩
  cases hstep with
  | resume hw => exact next_of_next_item (List.getElem?_eq_some_iff.mp hw).1
  | @finish w index result hw =>
      have hlt := (List.getElem?_eq_some_iff.mp hw).1
      have hnone : ∀ i ∈ (s.put w (.created false) [.finish index result]).calling, i ∈ s.calling :=
        hput hw fun _ h => by cases h
      rcases @next_of_next_item _ _ _ _ { s.put w (.created false) [.finish index result] with
          results := s.results.set index (some result) } w (by simpa [Pool.put] using hlt) with
            ⟨hnext, hold⟩ | ⟨hnext, hworker, hold⟩
      · exact .inl ⟨hnext, fun i hi => hnone i (hold i hi)⟩
      · exact .inr ⟨hnext, hworker, fun i hi => (hold i hi).imp_left (hnone i)⟩
  | unstarted hw => exact .inl ⟨rfl, hput hw fun _ h => by cases h⟩
  | act what hw => exact .inl ⟨rfl, hput hw fun _ h => h⟩
  | fail error hw => exact .inl ⟨rfl, hput hw fun _ h => by cases h⟩
  | give_up hw => exact .inl ⟨rfl, hput hw fun _ h => by cases h⟩
  | swallow hw => exact .inl ⟨rfl, hput hw fun _ h => h⟩
  | cancel hw hcaller =>
      refine .inl ⟨rfl, fun index hindex => ?_⟩
      obtain ⟨_, hcancelled, hindex⟩ := List.mem_filterMap.mp hindex
      obtain ⟨worker, hmem, rfl⟩ := List.mem_map.mp hcancelled
      cases worker with
      | calling i cancelling => exact List.mem_filterMap.mpr ⟨_, hmem, hindex⟩
      | created _ => cases hindex
      | done => cases hindex
      | failed _ => cases hindex
      | cancelled => cases hindex
  | join hcaller hended => exact .inl ⟨rfl, fun _ h => h⟩
  | complete hcaller hdone => exact .inl ⟨rfl, fun _ h => h⟩

end Log

section Runs

variable {make : ℕ → α → Except ε κ} {refused : ℕ → ε → Prop} {items : List α} {concurrency k : ℕ}
    {s s' : Pool α ρ ε κ}
  {action : Action ρ ε κ}

-- The first `k` items have had their turn: what could be made of them was done, in order. A call
-- that started later has not done anything yet, and is the next to go on.
structure Acting (make : ℕ → α → Except ε κ) (refused : ℕ → ε → Prop) (k : ℕ)
    (s : Pool α ρ ε κ) : Prop where
  next : k = s.next_index ∨ k + 1 = s.next_index ∧ ∃ w : ℕ, s.workers[w]? = some (.calling k false)
  in_order : acts s.log = (s.items.zipIdx.take k).filterMap (planned make)
  calling : ∀ index ∈ s.calling, index < k → s.log.any (acted index)
  finished : ∀ index result, .finish index result ∈ s.log → s.log.any (acted index)
  failed : ∀ index error, .fail index error ∈ s.log → ∃ item, s.items[index]? = some item ∧
    (make index item = .error error ∨ s.log.any (acted index) ∧ refused index error)

theorem mem_planned {make : ℕ → α → Except ε κ} {l : List α} {index : ℕ} {what : κ}
    (h : (index, what) ∈ (l.zipIdx.take k).filterMap (planned make)) :
    index < k ∧ ∃ item, l[index]? = some item ∧ make index item = .ok what := by
  obtain ⟨⟨item, i⟩, hmem, hplanned⟩ := List.mem_filterMap.mp h
  obtain ⟨j, hj⟩ := List.mem_iff_getElem?.mp hmem
  unfold planned at hplanned
  split at hplanned
  · rename_i what' hmake
    cases hplanned
    rw [List.getElem?_take] at hj
    split at hj
    · rename_i hlt
      rw [List.getElem?_zipIdx] at hj
      obtain ⟨item', hitem, heq⟩ := Option.map_eq_some_iff.mp hj
      cases heq
      rw [Nat.zero_add]
      rw [Nat.zero_add] at hmake
      exact ⟨hlt, _, hitem, hmake⟩
    · cases hj
  · cases hplanned

theorem Acting.acted_iff (h : Acting make refused k s) {index : ℕ}
    (hacted : s.log.any (acted index)) :
    index < k ∧ ∃ item what, s.items[index]? = some item ∧ make index item = .ok what := by
  obtain ⟨what, hmem⟩ := any_acted_iff.mp hacted
  rw [h.in_order] at hmem
  obtain ⟨hlt, item, hitem, hmake⟩ := mem_planned hmem
  exact ⟨hlt, item, what, hitem, hmake⟩

-- After the turn of the call that started last, one more item has had its turn.
theorem Acting.next_turn (h : Acting make refused k s) (hstep : Pool.Steps s action s') {item : α}
    (hitem : s.items[k]? = some item) (hnext : s'.next_index = k + 1)
    (hcalling : ∀ index ∈ s'.calling, index ∈ s.calling)
    (hself : k ∈ s'.calling → s'.log.any (acted k))
    (hacts : acts s'.log = acts s.log ++ (planned make (item, k)).toList)
    (hfinish : ∀ w result, action ≠ .finish w result)
    (hfail : ∀ index error, .fail index error ∈ s'.log → .fail index error ∈ s.log ∨ index = k ∧
      make k item = .error error) :
    Acting make refused (k + 1) s' where
  next := .inl hnext.symm
  in_order := by
    rw [hacts, h.in_order, (Pool.frame hstep).1, List.take_add_one, List.getElem?_zipIdx, hitem,
      List.filterMap_append]
    cases hplanned : planned make (item, k) <;> simp [hplanned]
  calling index hindex hle := by
    by_cases hk : index = k
    · subst hk
      exact hself hindex
    · exact any_acted_of_steps hstep (h.calling index (hcalling index hindex) (by omega))
  finished index result hmem := by
    rcases Pool.finish_of_steps hstep hmem with hold | ⟨w, cancelling, rfl, _⟩
    · exact any_acted_of_steps hstep (h.finished index result hold)
    · exact absurd rfl (hfinish w result)
  failed index error hmem := by
    rw [(Pool.frame hstep).1]
    rcases hfail index error hmem with hold | ⟨rfl, hmake⟩
    · obtain ⟨item, hitem, herror⟩ := h.failed index error hold
      exact ⟨item, hitem, herror.imp_right fun hacted =>
        ⟨any_acted_of_steps hstep hacted.1, hacted.2⟩⟩
    · exact ⟨item, hitem, .inl hmake⟩

theorem Acting.turn (h : Acting make refused k s) (hcalls : s.Calls)
    (hok : ActsAtOnce make refused s action)
    (hstep : Pool.Steps s action s') (hnext : k + 1 = s.next_index) {w : ℕ}
    (hw : s.workers[w]? = some (.calling k false)) : Acting make refused (k + 1) s' := by
  obtain ⟨hlt, _⟩ := hcalls.not_finished hw
  have hitem : s.items[k]? = some s.items[k] := List.getElem?_eq_getElem hlt
  have hnew : ¬s.log.any (acted k) := fun hacted => Nat.lt_irrefl k (h.acted_iff hacted).1
  have haction := hok.1 w k false _ hw hitem hnew
  have hmem : k ∈ s.calling := List.mem_filterMap.mpr ⟨_, List.mem_of_getElem? hw, rfl⟩
  cases hmake : make k s.items[k] with
  | ok what =>
      rw [hmake] at haction
      subst haction
      have hstep' := hstep
      cases hstep with
      | act _ hw' =>
          rw [hw] at hw'
          cases hw'
          refine h.next_turn hstep' hitem hnext.symm (fun index hindex => ?_) (fun _ => ?_) ?_
            (by simp) fun index error hfail => ?_
          · rcases mem_calling_of_set hindex with hold | hself
            · exact hold
            · cases hself
              exact hmem
          · simp [Pool.put, acted]
          · simp only [planned, hmake]
            exact acts_append ..
          · exact .inl (by simpa [Pool.put] using hfail)
  | error error =>
      rw [hmake] at haction
      subst haction
      have hstep' := hstep
      cases hstep with
      | fail _ hw' =>
          rw [hw] at hw'
          cases hw'
          refine h.next_turn hstep' hitem hnext.symm (fun index hindex => ?_) (fun hself => ?_) ?_
            (by simp) fun index e hfail => ?_
          · rcases mem_calling_of_set hindex with hold | hself
            · exact hold
            · cases hself
          · -- it has ended
            have hended : k ∈ ends (s.log ++ [.fail k error]) := by simp [ends, Event.ended]
            exact absurd rfl ((List.nodup_append.mp
              ((hcalls.step hstep').once.nodup_iff.mpr List.nodup_range)).2.2 k hself k hended)
          · simp only [planned, hmake]
            exact acts_append ..
          · have hcases : .fail index e ∈ s.log ∨ index = k ∧ e = error := by
              simpa [Pool.put] using hfail
            exact hcases.imp_right fun hsame => ⟨hsame.1, by rw [hmake, hsame.2]⟩

-- While every call that runs has had its turn, the others do not do anything more.
theorem Acting.settled (h : Acting make refused k s) (hcalls : s.Calls)
    (hok : ActsAtOnce make refused s action)
    (hstep : Pool.Steps s action s') (hnext : k = s.next_index) : Acting make refused k s' := by
  have hacted : ∀ {w index : ℕ} {cancelling : Bool}, s.workers[w]? =
    some (.calling index cancelling) →
      s.log.any (acted index) := by
    intro w index cancelling hw
    have hmem : index ∈ s.calling := List.mem_filterMap.mpr ⟨_, List.mem_of_getElem? hw, rfl⟩
    have hlt := List.mem_range.mp (hcalls.once.mem_iff.mp (List.mem_append_left _ hmem))
    exact h.calling index hmem (by omega)
  have hacts : acts s'.log = acts s.log := by
    rcases acts_of_steps hstep with ⟨w, index, cancelling, what, rfl, hw, _⟩ | ⟨_, hacts⟩
    · obtain ⟨index', hw', hnot⟩ := hok.2
      exact absurd (hacted hw') hnot
    · exact hacts
  have hitems := (Pool.frame hstep).1
  refine ⟨?_, ?_, ?_, ?_, ?_⟩
  · rcases next_of_steps hstep with ⟨hsame, _⟩ | ⟨hmore, hw, _⟩
    · exact .inl (hnext.trans hsame.symm)
    · rw [← hnext] at hmore hw
      exact .inr ⟨hmore.symm, hw⟩
  · rw [hacts, hitems]
    exact h.in_order
  · intro index hindex hlt
    rcases next_of_steps hstep with ⟨_, hold⟩ | ⟨_, _, hold⟩
    · exact any_acted_of_steps hstep (h.calling index (hold index hindex) hlt)
    · rcases hold index hindex with hold | rfl
      · exact any_acted_of_steps hstep (h.calling index hold hlt)
      · omega
  · intro index result hmem
    rcases Pool.finish_of_steps hstep hmem with hold | ⟨w, cancelling, rfl, hw⟩
    · exact any_acted_of_steps hstep (h.finished index result hold)
    · exact any_acted_of_steps hstep (hacted hw)
  · intro index error hmem
    rw [hitems]
    rcases Pool.fail_of_steps hstep hmem with hold | ⟨w, cancelling, rfl, hw⟩
    · obtain ⟨item, hitem, herror⟩ := h.failed index error hold
      exact ⟨item, hitem, herror.imp_right fun hacted =>
        ⟨any_acted_of_steps hstep hacted.1, hacted.2⟩⟩
    · obtain ⟨index', cancelling', item, hw', hitem, herror⟩ := hok.2
      rw [hw] at hw'
      cases hw'
      exact ⟨item, hitem, herror.imp_right fun hacted =>
        ⟨any_acted_of_steps hstep hacted.1, hacted.2⟩⟩

theorem acting_of_reach {caller : Caller ε} {workers : ℕ}
    (h : caller = .gathering ∨ caller = .looping ∧ workers = 1)
    (hr : Reach Pool.step (· = (Pool.start caller workers items : Pool α ρ ε κ))
      (ActsAtOnce make refused) s) :
    ∃ k, Acting make refused k s := by
  induction hr with
  | init hi =>
      subst hi
      refine ⟨0, .inl rfl, rfl, fun index hindex hlt => ?_, ?_, ?_⟩
      · cases hlt
      · simp [Pool.start]
      · simp [Pool.start]
  | step hr hok hstep ih =>
      obtain ⟨k, hacting⟩ := ih
      obtain ⟨_, _, hcalls, _⟩ := Pool.invariant_of_reach h hr
      have hsteps := Pool.steps_of_step hstep
      rcases hacting.next with hnext | ⟨hnext, w, hw⟩
      · exact ⟨k, hacting.settled hcalls hok hsteps hnext⟩
      · exact ⟨k + 1, hacting.turn hcalls hok hsteps hnext hw⟩

theorem acting_of_for_each
    (hr : Reach Pool.step (· = (for_each_concurrently items concurrency : Pool α ρ ε κ))
    (ActsAtOnce make refused) s) :
    s.items = items ∧ s.Calls ∧ s.Failures ∧ ∃ k, Acting make refused k s := by
  unfold for_each_concurrently at hr
  split at hr
  · obtain ⟨hitems, _, hcalls, hfailures⟩ := Pool.invariant_of_reach (.inr ⟨rfl, rfl⟩) hr
    exact ⟨hitems, hcalls, hfailures, acting_of_reach (.inr ⟨rfl, rfl⟩) hr⟩
  · obtain ⟨hitems, _, hcalls, hfailures⟩ := Pool.invariant_of_reach (.inl rfl) hr
    exact ⟨hitems, hcalls, hfailures, acting_of_reach (.inl rfl) hr⟩

-- When the caller is back, something has been made of every item, and done.
theorem Acting.returned (h : Acting make refused k s) (hexact : s.Exact concurrency)
    (hback : s.caller = .returned) :
    acts s.log = s.items.zipIdx.filterMap (planned make) ∧
      ∀ index item, s.items[index]? = some item → ∃ what, make index item = .ok what := by
  obtain ⟨_, _, results, _, hlen, hfinish⟩ := hexact.returned hback
  have hacted : ∀ index < s.items.length, s.log.any (acted index) := by
    intro index hindex
    have hlt : index < results.length := by rw [hlen]; exact hindex
    exact h.finished index results[index] ((hfinish _ _).mpr (List.getElem?_eq_getElem hlt))
  constructor
  · have hle : s.items.length ≤ k := by
      by_contra hlt
      exact Nat.lt_irrefl k (h.acted_iff (hacted k (by omega))).1
    rw [h.in_order, List.take_of_length_le]
    rwa [List.length_zipIdx]
  · intro index item hitem
    obtain ⟨_, item', what, hitem', hmake⟩ :=
      h.acted_iff (hacted index (List.getElem?_eq_some_iff.mp hitem).1)
    rw [hitem] at hitem'
    cases hitem'
    exact ⟨what, hmake⟩

theorem map_planned {l : List α} (h : ∀ index item, l[index]? = some item →
    ∃ what, make index item = .ok what) :
    (l.zipIdx.filterMap (planned make)).map (·.1) = List.range l.length := by
  have hall : ∀ p ∈ l.zipIdx, ∃ what, planned make p = some (p.2, what) := by
    intro p hp
    obtain ⟨what, hmake⟩ := h p.2 p.1 (List.mem_zipIdx_iff_getElem?.mp hp)
    exact ⟨what, by simp only [planned, hmake]⟩
  have hsnd : ∀ m : List (α × ℕ), (∀ p ∈ m, ∃ what, planned make p = some (p.2, what)) →
      (m.filterMap (planned make)).map (·.1) = m.map (·.2) := by
    intro m hm
    induction m with
    | nil => rfl
    | cons p m ih =>
        obtain ⟨what, hp⟩ := hm p List.mem_cons_self
        rw [List.filterMap_cons_some hp, List.map_cons, List.map_cons, ih fun q hq =>
          hm q (List.mem_cons_of_mem _ hq)]
  rw [hsnd _ hall, List.zipIdx_map_snd, List.range_eq_range']

-- Where an error comes from.
theorem Acting.raised (h : Acting make refused k s) (hfailures : s.Failures) {error : ε}
    (hback : s.caller = .raised error) :
    ∃ index item, s.items[index]? = some item ∧
      (make index item = .error error ∨ (∃ what, (index, what) ∈ acts s.log) ∧
        refused index error) := by
  obtain ⟨index, hfail⟩ := hfailures.raising error (.inr hback)
  obtain ⟨item, hitem, herror⟩ := h.failed index error hfail
  exact ⟨index, item, hitem, herror.imp_right fun hacted => ⟨any_acted_iff.mp hacted.1, hacted.2⟩⟩

theorem eq_of_nodup_filterMap {β γ : Type} {f : β → Option γ} {l : List β}
    (hnodup : (l.filterMap f).Nodup) {i j : ℕ} {a b : β}
    {x : γ} (hi : l[i]? = some a) (hj : l[j]? = some b) (ha : f a = some x)
    (hb : f b = some x) : i = j := by
  induction l generalizing i j with
  | nil => cases hi
  | cons c l ih =>
      have hnodup' : (l.filterMap f).Nodup := by
        rw [filterMap_cons_toList] at hnodup
        exact (List.nodup_append.mp hnodup).2.1
      have hhead : f c = some x → ∀ {m : ℕ} {d : β}, l[m]? = some d → f d = some x → False := by
        intro hc m d hd hfd
        rw [List.filterMap_cons_some hc] at hnodup
        exact (List.nodup_cons.mp hnodup).1
          (List.mem_filterMap.mpr ⟨d, List.mem_of_getElem? hd, hfd⟩)
      cases i with
      | zero =>
          cases j with
          | zero => rfl
          | succ j =>
              cases hi
              exact (hhead ha hj hb).elim
      | succ i =>
          cases j with
          | zero =>
              cases hj
              exact (hhead hb hi ha).elim
          | succ j => exact congrArg (· + 1) (ih hnodup' hi hj)

-- As long as the caller is not back, something can go on.
theorem Acting.exists_allowed [Inhabited ρ] (h : Acting make refused k s) (hcalls : s.Calls)
    (hfailures : s.Failures)
    (hreturned : s.caller ≠ .returned) (hraised : ∀ error, s.caller ≠ .raised error) :
    ∃ action s', ActsAtOnce make refused s action ∧ s.step action = some s' := by
  have hnodup : s.calling.Nodup :=
    (List.nodup_append.mp (hcalls.once.nodup_iff.mpr List.nodup_range)).1
  have hmem : ∀ {w index : ℕ} {cancelling : Bool}, s.workers[w]? =
      some (.calling index cancelling) → index ∈ s.calling :=
    fun hw => List.mem_filterMap.mpr ⟨_, List.mem_of_getElem? hw, rfl⟩
  have hlt : ∀ index ∈ s.calling, index < s.next_index := fun index hindex =>
    List.mem_range.mp (hcalls.once.mem_iff.mp (List.mem_append_left _ hindex))
  rcases h.next with hnext | ⟨hnext, w, hw⟩
  · have hidle : ∀ (action : Action ρ ε κ) (w index : ℕ) (cancelling : Bool) (item : α),
        s.workers[w]? = some (.calling index cancelling) → s.items[index]? = some item →
          ¬s.log.any (acted index) →
        action = match make index item with
          | .ok what => .act w what
          | .error error => .fail w error := by
      intro _ w index _ _ hw _ hnot
      exact absurd (h.calling index (hmem hw) (hnext ▸ hlt index (hmem hw))) hnot
    by_cases hcalling : s.calling = []
    · obtain ⟨action, s', hown, hstep⟩ := Pool.exists_step hfailures hcalling hreturned hraised
      refine ⟨action, s', ⟨hidle action, ?_⟩, hstep⟩
      cases action <;> trivial
    · obtain ⟨index, hindex⟩ := List.exists_mem_of_ne_nil _ hcalling
      obtain ⟨worker, hworker, heq⟩ := List.mem_filterMap.mp hindex
      obtain ⟨w, hw⟩ := List.mem_iff_getElem?.mp hworker
      cases worker with
      | calling i cancelling =>
          cases heq
          cases cancelling with
          | true =>
              refine ⟨.give_up w, ?_⟩
              simp only [Pool.step, hw]
              exact ⟨_, ⟨hidle _, trivial⟩, rfl⟩
          | false =>
              refine ⟨.finish w default, ?_⟩
              simp only [Pool.step, hw]
              exact ⟨_, ⟨hidle _, trivial⟩, rfl⟩
      | created _ => cases heq
      | done => cases heq
      | failed _ => cases heq
      | cancelled => cases heq
  · have hnew : ¬s.log.any (acted k) := fun hacted => Nat.lt_irrefl k (h.acted_iff hacted).1
    obtain ⟨hbound, _⟩ := hcalls.not_finished hw
    have hitem : s.items[k]? = some s.items[k] := List.getElem?_eq_getElem hbound
    have honly : ∀ {w' index : ℕ} {cancelling : Bool}, s.workers[w']? =
      some (.calling index cancelling) →
        ¬s.log.any (acted index) → w' = w ∧ index = k := by
      intro w' index cancelling hw' hnot
      have hk : index = k := by
        by_contra hne
        have hle := hlt index (hmem hw')
        exact hnot (h.calling index (hmem hw') (by omega))
      subst hk
      exact ⟨eq_of_nodup_filterMap hnodup hw' hw rfl rfl, rfl⟩
    cases hmake : make k s.items[k] with
    | ok what =>
        refine ⟨.act w what, ?_⟩
        simp only [Pool.step, hw]
        refine ⟨_, ⟨fun w' index cancelling item hw' hitem' hnot => ?_, k, hw, hnew⟩, rfl⟩
        obtain ⟨rfl, rfl⟩ := honly hw' hnot
        rw [hitem] at hitem'
        cases hitem'
        rw [hmake]
    | error error =>
        refine ⟨.fail w error, ?_⟩
        simp only [Pool.step, hw]
        refine ⟨_, ⟨fun w' index cancelling item hw' hitem' hnot => ?_, k, false, _, hw,
          hitem, .inl hmake⟩, rfl⟩
        obtain ⟨rfl, rfl⟩ := honly hw' hnot
        rw [hitem] at hitem'
        cases hitem'
        rw [hmake]

theorem length_acts_le (h : Acting make refused k s) : (acts s.log).length ≤ s.items.length := by
  rw [h.in_order]
  refine (List.length_filterMap_le ..).trans ?_
  rw [List.length_take, List.length_zipIdx]
  exact Nat.min_le_right ..

-- Every run of the pool can be brought to its end.
theorem exists_end [Inhabited ρ]
    (hr : Reach Pool.step (· = (for_each_concurrently items concurrency : Pool α ρ ε κ))
    (ActsAtOnce make refused) s) :
    ∃ s', Reach Pool.step (· = (for_each_concurrently items concurrency : Pool α ρ ε κ))
      (ActsAtOnce make refused) s' ∧
      (s'.caller = .returned ∨ ∃ error, s'.caller = .raised error) ∧
      acts s.log <+: acts s'.log := by
  induction hturns : s.turns + (s.items.length - (acts s.log).length) using
      Nat.strongRecOn generalizing s with
  | _ turns ih =>
      by_cases hback : s.caller = .returned ∨ ∃ error, s.caller = .raised error
      · exact ⟨s, hr, hback, List.prefix_refl _⟩
      · obtain ⟨hitems, hcalls, hfailures, k, hacting⟩ := acting_of_for_each hr
        obtain ⟨action, s', hok, hstep⟩ := hacting.exists_allowed hcalls hfailures
          (fun h => hback (.inl h))
          fun error h => hback (.inr ⟨error, h⟩)
        have hsteps := Pool.steps_of_step hstep
        obtain ⟨_, _, _, k', hacting'⟩ := acting_of_for_each (hr.step hok hstep)
        have hle := length_acts_le hacting'
        rw [(Pool.frame hsteps).1] at hle
        have hgrows : acts s.log <+: acts s'.log ∧ (acts s'.log).length ≤ (acts s.log).length + 1 ∧
            ((∃ w what, action = .act w what) →
                (acts s'.log).length = (acts s.log).length + 1) := by
          rcases acts_of_steps hsteps with
            ⟨w, index, cancelling, what, rfl, hw, rfl⟩ | ⟨hnot, hacts⟩
          · simp [Pool.put, acts, Event.made]
          · rw [hacts]
            refine ⟨List.prefix_refl _, Nat.le_succ _, ?_⟩
            rintro ⟨w, what, h⟩
            exact absurd h (hnot w what)
        obtain ⟨last, hlast, hends, hextends⟩ := ih
            (s'.turns + (s'.items.length - (acts s'.log).length)) (by
          have hlength := hgrows.1.length_le
          rw [(Pool.frame hsteps).1]
          rcases Pool.turns_of_steps hsteps with ⟨w, what, rfl, heq⟩ | ⟨w, rfl⟩ | hlt
          · have := hgrows.2.2 ⟨w, what, rfl⟩
            omega
          · exact hok.2.elim
          · omega) (hr.step hok hstep) rfl
        exact ⟨last, hlast, hends, hgrows.1.trans hextends⟩

end Runs

end Reflowfy.AsyncUtils
