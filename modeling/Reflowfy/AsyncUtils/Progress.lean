import Reflowfy.AsyncUtils.Exact
import Mathlib.Algebra.Ring.Nat

namespace Reflowfy.AsyncUtils

open Interleaving

variable {α ρ ε κ : Type} {s s' : Pool α ρ ε κ} {action : Action ρ ε κ}

-- How many turns a worker or the caller has at most, the turns within a call apart.
def Worker.turns : Worker ε → ℕ
  | created _ => 1
  | calling _ _ => 2
  | _ => 0

-- The worker whose turn it is.
def Action.worker : Action ρ ε κ → Option ℕ
  | resume w => some w
  | act w _ => some w
  | finish w _ => some w
  | fail w _ => some w
  | give_up w => some w
  | swallow w => some w
  | _ => none

def Caller.turns : Caller ε → ℕ
  | looping => 2
  | gathering => 2
  | joining _ => 1
  | _ => 0

namespace Pool

def turns (s : Pool α ρ ε κ) : ℕ :=
  2 * (s.items.length - s.next_index) + (s.workers.map Worker.turns).sum + s.caller.turns

theorem sum_map_set {β : Type} (f : β → ℕ) {l : List β} {i : ℕ} {a : β} (b : β)
    (h : l[i]? = some a) :
    ((l.set i b).map f).sum + f a = (l.map f).sum + f b := by
  obtain ⟨hi, rfl⟩ := List.getElem?_eq_some_iff.mp h
  have hset := ((List.set_perm_cons_eraseIdx hi b).map f).sum_nat
  have hself := ((List.getElem_cons_eraseIdx_perm hi).map f).sum_nat
  simp only [List.map_cons, List.sum_cons] at hset hself
  omega

-- The next item costs no more than the two turns that were kept for it.
theorem turns_next_item {w : ℕ} {worker : Worker ε} (hw : s.workers[w]? = some worker)
    (hpos : 1 ≤ worker.turns) :
    (s.next_item w).turns < s.turns := by
  cases hitem : s.items[s.next_index]? with
  | none =>
      have hsum := sum_map_set Worker.turns .done hw
      simp only [next_item, hitem, turns, put]
      simp only [Worker.turns] at hsum hpos ⊢
      omega
  | some item =>
      have hlt := (List.getElem?_eq_some_iff.mp hitem).1
      have hsum := sum_map_set Worker.turns (.calling s.next_index false) hw
      simp only [next_item, hitem, turns, put]
      simp only [Worker.turns] at hsum hpos ⊢
      omega

-- A worker that goes on with fewer turns left.
theorem turns_put {w : ℕ} {worker : Worker ε} (hw : s.workers[w]? = some worker)
    (worker' : Worker ε)
    (events : List (Event α ρ ε κ)) (hlt : worker'.turns < worker.turns) {caller : Caller ε}
    (hcaller : caller.turns ≤ s.caller.turns) :
    ({ s.put w worker' events with caller := caller } : Pool α ρ ε κ).turns < s.turns := by
  have hsum := sum_map_set Worker.turns worker' hw
  simp only [turns, put]
  omega

theorem turns_of_steps (hstep : Steps s action s') :
    (∃ w what, action = .act w what ∧ s'.turns = s.turns) ∨ (∃ w, action = .swallow w) ∨
    s'.turns < s.turns := by
  cases hstep with
  | resume hw => exact .inr (.inr (turns_next_item hw (Nat.le_refl 1)))
  | unstarted hw => exact .inr (.inr (turns_put hw .cancelled [] Nat.one_pos (Nat.le_refl _)))
  | @act w index cancelling what hw =>
      have hsum := sum_map_set Worker.turns (.calling index cancelling) hw
      refine .inl ⟨w, what, rfl, ?_⟩
      simp only [turns, put]
      omega
  | @finish w index result hw =>
      have hlt := (List.getElem?_eq_some_iff.mp hw).1
      have hput := turns_put hw (.created false) [.finish index result]
        (Nat.lt_succ_self 1) (Nat.le_refl _)
      refine .inr (.inr (Nat.lt_trans
        (turns_next_item (List.getElem?_set_self hlt) (Nat.le_refl 1)) hput))
  | fail error hw =>
      refine .inr (.inr (turns_put hw (.failed error) _ (Nat.zero_lt_succ 1) ?_))
      cases s.caller <;> simp [Caller.fail, Caller.turns]
  | give_up hw => exact .inr (.inr (turns_put hw .cancelled _ (Nat.zero_lt_succ 1) (Nat.le_refl _)))
  | swallow hw => exact .inr (.inl ⟨_, rfl⟩)
  | cancel hw hcaller =>
      have hsame : (s.workers.map Worker.cancel).map Worker.turns = s.workers.map Worker.turns := by
        rw [List.map_map]
        apply List.map_congr_left
        intro worker _
        cases worker <;> rfl
      refine .inr (.inr ?_)
      simp only [turns, hsame, hcaller, Caller.turns]
      omega
  | join hcaller hended =>
      refine .inr (.inr ?_)
      simp only [turns, hcaller, Caller.turns]
      omega
  | complete hcaller hdone =>
      refine .inr (.inr ?_)
      rcases hcaller with hcaller | hcaller <;> simp only [turns, hcaller, Caller.turns] <;> omega

theorem workers_next_item (s : Pool α ρ ε κ) (w : ℕ) :
    ∃ worker, (s.next_item w).workers = s.workers.set w worker := by
  unfold next_item
  split
  · exact ⟨_, rfl⟩
  · exact ⟨_, rfl⟩

-- Only the worker whose turn it is comes to another call.
theorem calling_of_steps (hstep : Steps s action s') {j index : ℕ} {cancelling : Bool}
    (h : s'.workers[j]? = some (.calling index cancelling)) :
    action.worker = some j ∨ ∃ cancelling, s.workers[j]? = some (.calling index cancelling) := by
  have hset : ∀ {w : ℕ} {worker : Worker ε}, (s.workers.set w worker)[j]? =
    some (.calling index cancelling) →
      w = j ∨ s.workers[j]? = some (.calling index cancelling) := by
    intro w worker hget
    by_cases hj : w = j
    · exact .inl hj
    · rw [List.getElem?_set_ne hj] at hget
      exact .inr hget
  cases hstep with
  | @resume w hw =>
      obtain ⟨worker, hworkers⟩ := workers_next_item s w
      rw [hworkers] at h
      exact (hset h).imp (congrArg some) fun hold => ⟨_, hold⟩
  | @finish w i result hw =>
      obtain ⟨worker, hworkers⟩ := workers_next_item
          { s.put w (.created false) [.finish i result] with
        results := s.results.set i (some result) } w
      rw [hworkers] at h
      simp only [put, List.set_set] at h
      exact (hset h).imp (congrArg some) fun hold => ⟨_, hold⟩
  | unstarted hw => exact (hset h).imp (congrArg some) fun hold => ⟨_, hold⟩
  | act what hw => exact (hset h).imp (congrArg some) fun hold => ⟨_, hold⟩
  | fail error hw => exact (hset h).imp (congrArg some) fun hold => ⟨_, hold⟩
  | give_up hw => exact (hset h).imp (congrArg some) fun hold => ⟨_, hold⟩
  | swallow hw => exact (hset h).imp (congrArg some) fun hold => ⟨_, hold⟩
  | cancel hw hcaller =>
      rw [List.getElem?_map] at h
      obtain ⟨worker, hworker, heq⟩ := Option.map_eq_some_iff.mp h
      cases worker with
      | calling i c =>
          cases heq
          exact .inr ⟨c, hworker⟩
      | created _ => cases heq
      | done => cases heq
      | failed _ => cases heq
      | cancelled => cases heq
  | join hcaller hended => exact .inr ⟨_, h⟩
  | complete hcaller hdone => exact .inr ⟨_, h⟩

end Pool

end Reflowfy.AsyncUtils
