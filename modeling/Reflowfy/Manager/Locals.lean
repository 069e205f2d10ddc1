import Reflowfy.Manager.Effects

namespace Reflowfy

open Interleaving

-- What a task knows of its own local variables.
def Proc.Sound : Proc → Prop
  | settle _ _ _ (.load final)
  | settle _ _ _ (.store final _) => final = .completed ∨ final = .failed
  | request r (.store seen) => r.admits seen = true
  | resume (.missing_store _ seen) => seen.state.terminal = false
  | _ => True

theorem finalState_cases (expected_total total_finished failed : ℕ) :
    finalState expected_total total_finished failed = .completed ∨
      finalState expected_total total_finished failed = .failed := by
  unfold finalState
  split
  · split
    · exact .inl rfl
    · exact .inr rfl
  · exact .inr rfl

theorem Goes.sound {cfg : Config} {i : TaskId} {s : Store} {p p' : Proc}
    {choice : Choice} {stmt : Stmt}
    (h : Goes cfg i s p choice stmt p') (hp : p.Sound) : p'.Sound := by
  cases h
  case settle_counts | settle_fallback => exact finalState_cases _ _ _
  case settle_load => exact hp
  case missing hstate => exact hstate
  case request_load hadmits => exact hadmits
  all_goals trivial

theorem Entry.sound {cfg : Config} {s : Store} {entry : Entry} {p : Proc}
    (h : entry.proc cfg s = some p) : p.Sound := by
  rcases Entry.cases h with ⟨r, rfl⟩ | ⟨_, rfl⟩ | rfl | ⟨_, -, rfl⟩ | ⟨_, rfl⟩ <;> trivial

namespace Manager

theorem sound_initial {s : Manager} (h : Initial s) (i : TaskId) : (s.procs i).Sound := by
  rcases h.proc i with hp | ⟨-, hp⟩ <;> rw [hp] <;> trivial

theorem sound_reach {cfg : Config} {Ok : Manager → Event → Prop} {s : Manager}
    (hr : Reach (step cfg) Initial Ok s) (i : TaskId) : (s.procs i).Sound := by
  have hpreserved : Preserved cfg Initial Ok (fun _ => True) fun _ _ p => p.Sound :=
    { init := fun s hs => ⟨trivial, sound_initial hs⟩
      tick := fun _ _ _ _ _ => ⟨trivial, fun _ hj => hj⟩
      start := fun _ _ _ _ _ _ hp => Entry.sound hp
      crash := fun _ _ => trivial
      go := fun s i _ _ _ _ hs _ hgoes => ⟨trivial, hgoes.sound (hs.2 i), fun _ _ hj => hj⟩ }
  exact (hpreserved.reach hr).2 i

end Manager

end Reflowfy
