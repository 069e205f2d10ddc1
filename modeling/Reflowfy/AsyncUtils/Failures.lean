import Reflowfy.AsyncUtils.Calls

namespace Reflowfy.AsyncUtils

variable {α ρ ε κ : Type}

namespace Event

-- Ends a worker before the items do.
def breaks : Event α ρ ε κ → Bool
  | fail _ _ => true
  | give_up _ => true
  | _ => false

def is_start : Event α ρ ε κ → Bool
  | start _ _ => true
  | _ => false

def is_swallow : Event α ρ ε κ → Bool
  | swallow _ => true
  | _ => false

def is_cancel : Event α ρ ε κ → Bool
  | cancel => true
  | _ => false

end Event

namespace Worker

def broken : Worker ε → Bool
  | failed _ => true
  | cancelled => true
  | _ => false

-- Ended, or about to have a CancelledError raised.
def stopping : Worker ε → Bool
  | created cancelling => cancelling
  | calling _ cancelling => cancelling
  | _ => true

-- No `task.cancel()` has come to it.
def undisturbed : Worker ε → Bool
  | created cancelling => !cancelling
  | calling _ cancelling => !cancelling
  | cancelled => false
  | _ => true

theorem stopping_cancel (worker : Worker ε) : worker.cancel.stopping = true := by
  cases worker <;> rfl

theorem broken_cancel (worker : Worker ε) : worker.cancel.broken = worker.broken := by
  cases worker <;> rfl

theorem ended_of_is_done {worker : Worker ε} (h : worker.is_done) : worker.ended := by
  cases worker with
  | done => rfl
  | created _ => cases h
  | calling _ _ => cases h
  | failed _ => cases h
  | cancelled => cases h

theorem ended_of_broken {worker : Worker ε} (h : worker.broken) : worker.ended := by
  cases worker with
  | failed _ => rfl
  | cancelled => rfl
  | created _ => cases h
  | calling _ _ => cases h
  | done => cases h

end Worker

namespace Pool

variable {s s' : Pool α ρ ε κ} {action : Action ρ ε κ}

-- Where the errors are, and that the cancelled workers start nothing as long as no call goes
-- on after its CancelledError.
structure Failures (s : Pool α ρ ε κ) : Prop where
  failed : ∀ error, .failed error ∈ s.workers → ∃ index, .fail index error ∈ s.log
  broken : ∀ event ∈ s.log, event.breaks → ∃ worker ∈ s.workers, worker.broken
  raising : ∀ error, s.caller = .joining error ∨ s.caller = .raised error →
    ∃ index, .fail index error ∈ s.log
  returned : s.caller = .returned → ∀ worker ∈ s.workers, worker.is_done
  raised : ∀ error, s.caller = .raised error → ∀ worker ∈ s.workers, worker.ended
  looping : s.caller = .looping → s.workers.length = 1 ∧ ∀ error, .failed error ∉ s.workers
  undisturbed : s.caller = .gathering ∨ s.caller = .looping →
    ∀ worker ∈ s.workers, worker.undisturbed
  not_cancelled : s.caller = .gathering ∨ s.caller = .looping →
    ∀ event ∈ s.log, event.is_cancel = false
  quiet : ∀ before after, s.log = before ++ .cancel :: after →
    (∀ event ∈ after, event.is_swallow = false) →
    (∀ worker ∈ s.workers, worker.stopping) ∧ ∀ event ∈ after, event.is_start = false

theorem failures_start {caller : Caller ε} {workers : ℕ} (items : List α)
    (h : caller = .gathering ∨ caller = .looping ∧ workers = 1) :
    (start caller workers items : Pool α ρ ε κ).Failures where
  failed error herror := by cases List.eq_of_mem_replicate herror
  broken event hevent := by cases hevent
  raising error herror := by
    rcases h with rfl | ⟨rfl, _⟩ <;> rcases herror with herror | herror <;> cases herror
  returned hcaller := by
    rcases h with rfl | ⟨rfl, _⟩ <;> cases hcaller
  raised error hcaller := by
    rcases h with rfl | ⟨rfl, _⟩ <;> cases hcaller
  looping hcaller := by
    rcases h with rfl | ⟨rfl, rfl⟩
    · cases hcaller
    · exact ⟨List.length_replicate, fun error herror => by cases List.eq_of_mem_replicate herror⟩
  undisturbed _ worker hworker := by
    rw [List.eq_of_mem_replicate hworker]
    rfl
  not_cancelled _ event hevent := by cases hevent
  quiet before after hlog := by
    have hlen := congrArg List.length hlog
    simp [start] at hlen

-- Only the workers, the caller and the log matter.
theorem Failures.same (h : s.Failures) (next_index : ℕ) (results : List (Option ρ)) :
    ({ s with next_index := next_index, results := results } : Pool α ρ ε κ).Failures :=
  ⟨h.failed, h.broken, h.raising, h.returned, h.raised, h.looping, h.undisturbed,
    h.not_cancelled, h.quiet⟩

-- As long as a worker has not ended the caller has not come back.
theorem Failures.waiting (h : s.Failures) {w : ℕ} {worker : Worker ε}
    (hw : s.workers[w]? = some worker)
    (hlive : worker.ended = false) : s.caller ≠ .returned ∧ ∀ error, s.caller ≠ .raised error := by
  have hmem := List.mem_of_getElem? hw
  constructor
  · intro hcaller
    have hended := Worker.ended_of_is_done (h.returned hcaller worker hmem)
    rw [hlive] at hended
    cases hended
  · intro error hcaller
    have hended := h.raised error hcaller worker hmem
    rw [hlive] at hended
    cases hended

-- What a list has after an entry that comes before another list is there with it.
theorem append_eq_append_cons {β : Type} {l l' before after : List β} {x : β} (hx : x ∉ l')
    (h : l ++ l' = before ++ x :: after) : ∃ rest, after = rest ++ l' ∧
      l = before ++ x :: rest := by
  rcases List.append_eq_append_iff.mp h with ⟨rest, hbefore, hl'⟩ | ⟨rest, hl, hafter⟩
  · exact absurd (by rw [hl']; simp) hx
  · cases rest with
    | nil =>
        rw [List.nil_append] at hafter
        exact absurd (by rw [← hafter]; simp) hx
    | cons y rest =>
        rw [List.cons_append, List.cons.injEq] at hafter
        exact ⟨rest, hafter.2, by rw [hl, hafter.1]⟩

-- A worker that has not ended goes on.
theorem Failures.put (h : s.Failures) {w : ℕ} {worker worker' : Worker ε}
    {events : List (Event α ρ ε κ)}
    (hw : s.workers[w]? = some worker) (hlive : worker.ended = false) {caller : Caller ε}
    (hcaller : caller = s.caller ∨ s.caller = .looping ∧ ∃ error, caller = .raised error ∧
      worker' = .failed error)
    (hfailed : ∀ error, worker' = .failed error → ∃ index, .fail index error ∈ events)
    (hbroken : ∀ event ∈ events, event.breaks → worker'.broken)
    (hlooping : caller = .looping → ∀ error, worker' ≠ .failed error)
    (hundisturbed : worker.undisturbed → worker'.undisturbed)
    (hcancel : ∀ event ∈ events, event.is_cancel = false)
    (hquiet : worker.stopping → (∀ event ∈ events, event.is_swallow = false) →
      worker'.stopping ∧ ∀ event ∈ events, event.is_start = false) :
    ({ s.put w worker' events with caller := caller } : Pool α ρ ε κ).Failures := by
  obtain ⟨hreturned, hraised⟩ := h.waiting hw hlive
  have hfailed' : ∀ error, .failed error ∈ s.workers.set w worker' →
      ∃ index, .fail index error ∈ s.log ++ events := by
    intro error herror
    rcases List.mem_or_eq_of_mem_set herror with hmem | heq
    · obtain ⟨index, hindex⟩ := h.failed error hmem
      exact ⟨index, List.mem_append_left _ hindex⟩
    · obtain ⟨index, hindex⟩ := hfailed error heq.symm
      exact ⟨index, List.mem_append_right _ hindex⟩
  have hself : worker' ∈ s.workers.set w worker' :=
    List.mem_of_getElem? (List.getElem?_set_self (List.getElem?_eq_some_iff.mp hw).1)
  constructor
  · exact hfailed'
  · intro event hevent hbreaks
    rcases List.mem_append.mp hevent with hold | hnew
    · obtain ⟨other, hmem, hother⟩ := h.broken event hold hbreaks
      rcases mem_set_or_eq worker' hw hmem with hstays | rfl
      · exact ⟨other, hstays, hother⟩
      · have hended := Worker.ended_of_broken hother
        rw [hlive] at hended
        cases hended
    · exact ⟨worker', hself, hbroken event hnew hbreaks⟩
  · intro error herror
    rcases hcaller with rfl | ⟨_, e, rfl, rfl⟩
    · obtain ⟨index, hindex⟩ := h.raising error herror
      exact ⟨index, List.mem_append_left _ hindex⟩
    · obtain rfl : e = error := by
        rcases herror with herror | herror
        · cases herror
        · exact Caller.raised.inj herror
      exact hfailed' e hself
  · intro hback
    rcases hcaller with rfl | ⟨_, e, rfl, _⟩
    · exact absurd hback hreturned
    · cases hback
  · intro error hback
    rcases hcaller with rfl | ⟨halone, e, rfl, rfl⟩
    · exact absurd hback (hraised error)
    · intro x hx
      have hone : (s.workers.set w (.failed e)).length = 1 := by
        rw [List.length_set, (h.looping halone).1]
      obtain ⟨y, hy⟩ := List.length_eq_one_iff.mp hone
      simp only [Pool.put] at hx
      rw [hy, List.mem_singleton] at hx hself
      rw [hx, ← hself]
      rfl
  · intro hback
    rcases hcaller with rfl | ⟨_, e, rfl, _⟩
    · obtain ⟨hone, hnone⟩ := h.looping hback
      constructor
      · simp only [Pool.put, List.length_set]
        exact hone
      · intro error herror
        rcases List.mem_or_eq_of_mem_set herror with hmem | heq
        · exact hnone error hmem
        · exact hlooping hback error heq.symm
    · cases hback
  · intro hback x hx
    rcases hcaller with rfl | ⟨_, e, rfl, _⟩
    · have hold := h.undisturbed hback
      rcases List.mem_or_eq_of_mem_set hx with hmem | rfl
      · exact hold x hmem
      · exact hundisturbed (hold worker (List.mem_of_getElem? hw))
    · rcases hback with hback | hback <;> cases hback
  · intro hgathering event hevent
    rcases List.mem_append.mp hevent with hold | hnew
    · rcases hcaller with rfl | ⟨halone, _⟩
      · exact h.not_cancelled hgathering event hold
      · exact h.not_cancelled (.inr halone) event hold
    · exact hcancel event hnew
  · intro before after hlog hswallow
    have hnot : .cancel ∉ events := fun hmem => by
      have := hcancel _ hmem
      cases this
    obtain ⟨rest, rfl, hold⟩ := append_eq_append_cons hnot hlog
    obtain ⟨hstopping, hstart⟩ := h.quiet before rest hold fun event hevent =>
      hswallow event (List.mem_append_left _ hevent)
    obtain ⟨hstopping', hstart'⟩ := hquiet (hstopping worker (List.mem_of_getElem? hw))
        fun event hevent =>
      hswallow event (List.mem_append_right _ hevent)
    constructor
    · intro x hx
      rcases List.mem_or_eq_of_mem_set hx with hmem | rfl
      · exact hstopping x hmem
      · exact hstopping'
    · intro event hevent
      rcases List.mem_append.mp hevent with hmem | hmem
      · exact hstart event hmem
      · exact hstart' event hmem

theorem Failures.next_item (h : s.Failures) {w : ℕ} (hw : s.workers[w]? = some (.created false)) :
    (s.next_item w).Failures := by
  cases hitem : s.items[s.next_index]? with
  | none =>
      simp only [Pool.next_item, hitem]
      exact h.put hw rfl (.inl rfl) (by simp) (by simp) (by simp) (fun _ => rfl) (by simp)
        (by simp [Worker.stopping])
  | some item =>
      simp only [Pool.next_item, hitem]
      exact (h.put hw rfl (.inl rfl) (by simp) (by simp [Event.breaks]) (by simp) (fun _ => rfl)
        (by simp [Event.is_cancel]) (by simp [Worker.stopping])).same _ _

theorem Failures.cancel (h : s.Failures) {w : ℕ} {error : ε}
    (hw : s.workers[w]? = some (.failed error)) (hcaller : s.caller = .gathering) :
    ({ s with
      workers := s.workers.map Worker.cancel
      caller := .joining error
      log := s.log ++ [.cancel] } : Pool α ρ ε κ).Failures where
  failed e he := by
    obtain ⟨worker, hmem, heq⟩ := List.mem_map.mp he
    cases worker with
    | failed e' =>
        cases heq
        obtain ⟨index, hindex⟩ := h.failed e hmem
        exact ⟨index, List.mem_append_left _ hindex⟩
    | created _ => cases heq
    | calling _ _ => cases heq
    | done => cases heq
    | cancelled => cases heq
  broken event hevent hbreaks := by
    rcases List.mem_append.mp hevent with hold | hnew
    · obtain ⟨worker, hmem, hbroken⟩ := h.broken event hold hbreaks
      exact ⟨worker.cancel, List.mem_map.mpr ⟨worker, hmem, rfl⟩,
        by rw [Worker.broken_cancel, hbroken]⟩
    · rw [List.mem_singleton.mp hnew] at hbreaks
      cases hbreaks
  raising e he := by
    obtain ⟨index, hindex⟩ := h.failed error (List.mem_of_getElem? hw)
    rcases he with he | he
    · cases he
      exact ⟨index, List.mem_append_left _ hindex⟩
    · cases he
  returned hback := by cases hback
  raised e hback := by cases hback
  looping hback := by cases hback
  undisturbed hback := by rcases hback with hback | hback <;> cases hback
  not_cancelled hback := by rcases hback with hback | hback <;> cases hback
  quiet before after hlog _ := by
    have hafter : after = [] := by
      rcases List.eq_nil_or_concat after with rfl | ⟨rest, last, rfl⟩
      · rfl
      · rw [List.concat_eq_append, ← List.cons_append, ← List.append_assoc] at hlog
        obtain ⟨hlog, _⟩ := List.append_inj' hlog rfl
        have hmem : (.cancel : Event α ρ ε κ) ∈ s.log := by
          rw [hlog]
          simp
        have hnone := h.not_cancelled (.inl hcaller) _ hmem
        cases hnone
    constructor
    · intro worker hworker
      obtain ⟨old, _, rfl⟩ := List.mem_map.mp hworker
      exact old.stopping_cancel
    · rw [hafter]
      simp

theorem Failures.join (h : s.Failures) {error : ε} (hcaller : s.caller = .joining error)
    (hended : ∀ worker ∈ s.workers, worker.ended) :
      ({ s with caller := .raised error } : Pool α ρ ε κ).Failures where
  failed := h.failed
  broken := h.broken
  raising e he := by
    rcases he with he | he
    · cases he
    · cases he
      exact h.raising error (.inl hcaller)
  returned hback := by cases hback
  raised _ _ := hended
  looping hback := by cases hback
  undisturbed hback := by rcases hback with hback | hback <;> cases hback
  not_cancelled hback := by rcases hback with hback | hback <;> cases hback
  quiet := h.quiet

theorem Failures.complete (h : s.Failures) (hdone : ∀ worker ∈ s.workers, worker.is_done) :
    ({ s with caller := .returned } : Pool α ρ ε κ).Failures where
  failed := h.failed
  broken := h.broken
  raising e he := by rcases he with he | he <;> cases he
  returned _ := hdone
  raised e hback := by cases hback
  looping hback := by cases hback
  undisturbed hback := by rcases hback with hback | hback <;> cases hback
  not_cancelled hback := by rcases hback with hback | hback <;> cases hback
  quiet := h.quiet

theorem Failures.step (h : s.Failures) (hstep : Steps s action s') : s'.Failures := by
  cases hstep with
  | resume hw => exact h.next_item hw
  | unstarted hw =>
      exact h.put hw rfl (.inl rfl) (by simp) (by simp) (by simp)
        (fun hdisturbed => by cases hdisturbed) (by simp)
        (by simp [Worker.stopping])
  | act what hw =>
      exact h.put hw rfl (.inl rfl) (by simp) (by simp [Event.breaks]) (by simp) id
        (by simp [Event.is_cancel])
        (fun hstopping _ => ⟨hstopping, by simp [Event.is_start]⟩)
  | @finish w index result hw =>
      obtain ⟨hlt, _⟩ := List.getElem?_eq_some_iff.mp hw
      have hput : (s.put w (.created false) [.finish index result]).Failures :=
        h.put hw rfl (.inl rfl) (by simp) (by simp [Event.breaks]) (by simp) (fun _ => rfl)
          (by simp [Event.is_cancel])
          (by simp [Worker.stopping])
      exact (hput.same _ _).next_item (List.getElem?_set_self hlt)
  | @fail w index cancelling error hw =>
      apply h.put hw rfl
      · cases hcaller : s.caller with
        | looping => exact .inr ⟨rfl, error, rfl, rfl⟩
        | gathering => exact .inl rfl
        | joining e => exact .inl rfl
        | returned => exact .inl rfl
        | raised e => exact .inl rfl
      · intro e he
        cases he
        exact ⟨index, List.mem_singleton_self _⟩
      · simp [Worker.broken]
      · intro hlooping
        cases hcaller : s.caller <;> rw [hcaller] at hlooping <;> cases hlooping
      · exact fun _ => rfl
      · simp [Event.is_cancel]
      · simp [Worker.stopping, Event.is_start]
  | give_up hw =>
      exact h.put hw rfl (.inl rfl) (by simp) (by simp [Worker.broken]) (by simp)
        (fun hdisturbed => by cases hdisturbed)
        (by simp [Event.is_cancel]) (by simp [Worker.stopping, Event.is_start])
  | swallow hw =>
      exact h.put hw rfl (.inl rfl) (by simp) (by simp [Event.breaks]) (by simp) (fun _ => rfl)
        (by simp [Event.is_cancel])
        (by simp [Event.is_swallow])
  | cancel hw hcaller => exact h.cancel hw hcaller
  | join hcaller hended => exact h.join hcaller hended
  | complete hcaller hdone => exact h.complete hdone

end Pool

end Reflowfy.AsyncUtils
