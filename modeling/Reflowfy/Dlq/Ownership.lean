import Reflowfy.DlqScheduler
import Mathlib.Data.List.Basic
import Mathlib.Data.List.Nodup
import Mathlib.Data.List.Perm.Basic

namespace Reflowfy.DLQScheduler

open Interleaving

section Grouping

variable {α κ : Type} [DecidableEq κ]

theorem append_to_perm (key : κ) (job : α) (groups : List (κ × List α)) :
    ((append_to key job groups).map Prod.snd).flatten.Perm
    (job :: (groups.map Prod.snd).flatten) := by
  induction groups with
  | nil => exact .refl _
  | cons group groups ih =>
      obtain ⟨key', jobs⟩ := group
      simp only [append_to]
      split
      · simp only [List.map_cons, List.flatten_cons, List.append_assoc, List.singleton_append]
        exact List.perm_middle
      · simp only [List.map_cons, List.flatten_cons]
        exact (ih.append_left jobs).trans List.perm_middle

-- Grouping keeps every job, once.
theorem group_by_perm (key : α → κ) (jobs : List α) : (group_by key jobs).flatten.Perm jobs := by
  have hfold : ∀ (jobs : List α) (groups : List (κ × List α)),
      ((jobs.foldl (fun groups job => append_to (key job) job groups) groups).map
        Prod.snd).flatten.Perm
        ((groups.map Prod.snd).flatten ++ jobs) := by
    intro jobs
    induction jobs with
    | nil => simp
    | cons job jobs ih =>
        intro groups
        rw [List.foldl_cons]
        exact (ih _).trans (((append_to_perm _ _ _).append_right jobs).trans List.perm_middle.symm)
  simpa [group_by] using hfold jobs []

theorem flatMap_groups_perm {groups : List α → List (List α)}
    (h : ∀ jobs, (groups jobs).flatten.Perm jobs)
    (parts : List (List α)) : (parts.flatMap groups).flatten.Perm parts.flatten := by
  induction parts with
  | nil => exact .refl _
  | cons part parts ih =>
      rw [List.flatMap_cons, List.flatten_append, List.flatten_cons]
      exact (h part).append ih

end Grouping

section Held

-- The jobs whose rows an open call has locked.
def DlqPc.held : DlqPc → List JobId
  | .batch groups done => groups.flatten.map Prod.fst ++ done.map Prod.fst
  | .dispatch group groups done => group.map Prod.fst ++
      groups.flatten.map Prod.fst ++ done.map Prod.fst
  | .manual_dispatch k _ => [k]
  | _ => []

-- The job whose failure a call has still to record, after it has given up the lock.
def DlqPc.window : DlqPc → List JobId
  | .failed k _ => [k]
  | .handled k _ _ => [k]
  | _ => []

-- No row is locked while the failure of its manual dispatch is still to be recorded.
def Apart (s : DlqStore) : Prop := ∀ k, s.locks k = none ∨ s.handling k = none

structure Owned (s : DlqStore) (i : TaskId) (pc : DlqPc) : Prop where
  locked : ∀ k, s.locks k = some i ↔ k ∈ pc.held
  handling : ∀ k, s.handling k = some i ↔ k ∈ pc.window
  nodup : pc.held.Nodup

-- A statement that locks a row finds no failure of it that is still to be recorded.
def DlqPc.lockable (s : DlqStore) : DlqPc → Prop
  | .manual k => s.handling k = none
  | _ => True

def Lockable (s : DlqSystem) : DlqEvent → Prop
  | .select _ jobs => ∀ k ∈ jobs, s.store.handling k = none
  | .go i => (s.procs i).lockable s.store
  | _ => True

variable {s s' : DlqStore} {i j : TaskId} {pc pc' : DlqPc} {k : JobId}

-- What task `j` owns in `s` it owns in `s'`.
def OwnsSame (j : TaskId) (s s' : DlqStore) : Prop :=
  (∀ k, s'.locks k = some j ↔ s.locks k = some j) ∧ ∀ k, s'.handling k = some j ↔
    s.handling k = some j

theorem Owned.other (h : Owned s j pc) (hsame : OwnsSame j s s') : Owned s' j pc where
  locked k := (hsame.1 k).trans (h.locked k)
  handling k := (hsame.2 k).trans (h.handling k)
  nodup := h.nodup

theorem OwnsSame.of_eq (hlocks : s'.locks = s.locks) (hhandling : s'.handling = s.handling) :
    OwnsSame j s s' :=
  ⟨fun k => by rw [hlocks], fun k => by rw [hhandling]⟩

theorem OwnsSame.of_take (hij : j ≠ i) {ks : List JobId} (hfree : ∀ k ∈ ks, s.locks k = none)
    (hlocks : s'.locks = s.locks.take i ks) (hhandling : s'.handling = s.handling) :
      OwnsSame j s s' :=
  ⟨fun k => by rw [hlocks, Locks.take_eq_some_iff hfree hij], fun k => by rw [hhandling]⟩

theorem OwnsSame.of_release (hij : j ≠ i) (hlocks : s'.locks = s.locks.release i)
    (hhandling : s'.handling = s.handling ∨ s'.handling = s.handling.release i) :
      OwnsSame j s s' := by
  refine ⟨fun k => by rw [hlocks, Locks.release_eq_some_iff]; simp [hij], fun k => ?_⟩
  rcases hhandling with h | h
  · rw [h]
  · rw [h, Locks.release_eq_some_iff]
    simp [hij]

theorem Owned.not_handling (h : Owned s i pc) (hwindow : pc.window = []) (k : JobId) :
    s.handling k ≠ some i := by
  rw [ne_eq, h.handling k, hwindow]
  exact List.not_mem_nil

-- The call goes on with what it owns.
theorem Owned.next (h : Owned s i pc) (hlocks : s'.locks = s.locks)
    (hhandling : s'.handling = s.handling)
    (hheld : pc'.held.Perm pc.held) (hwindow : pc'.window = pc.window) : Owned s' i pc' where
  locked k := by rw [hlocks, h.locked k, hheld.mem_iff]
  handling k := by rw [hhandling, h.handling k, hwindow]
  nodup := hheld.nodup_iff.mpr h.nodup

theorem Owned.take (h : Owned s i pc) {ks : List JobId} (hlocks : s'.locks = s.locks.take i ks)
    (hhandling : s'.handling = s.handling) (hpc : pc.held = [])
    (hheld : pc'.held.Perm ks) (hks : ks.Nodup)
    (hwindow : pc'.window = pc.window) : Owned s' i pc' where
  locked k := by
    rw [hlocks, Locks.take_eq_self_iff, hheld.mem_iff, h.locked k, hpc]
    simp
  handling k := by rw [hhandling, h.handling k, hwindow]
  nodup := hheld.nodup_iff.mpr hks

theorem Owned.release (h : Owned s i pc) (hlocks : s'.locks = s.locks.release i)
    (hhandling : s'.handling = s.handling.release i ∨ (s'.handling = s.handling ∧ pc.window = [])) :
      Owned s' i .idle where
  locked k := by rw [hlocks, Locks.release_eq_some_iff]; simp [DlqPc.held]
  handling k := by
    simp only [DlqPc.window, List.not_mem_nil, iff_false]
    rcases hhandling with hr | ⟨hsame, hwindow⟩
    · rw [hr, Locks.release_eq_some_iff]
      simp
    · rw [hsame]
      exact h.not_handling hwindow k
  nodup := List.nodup_nil

theorem Apart.take (h : Apart s) {ks : List JobId} (hlocks : s'.locks = s.locks.take i ks)
    (hhandling : s'.handling = s.handling) (hfree : ∀ k ∈ ks, s.handling k = none) : Apart s' := by
  intro k
  by_cases hk : k ∈ ks
  · exact .inr (by rw [hhandling, hfree k hk])
  · rw [hlocks, hhandling, Locks.take_eq_none_iff]
    exact (h k).imp_left fun hnone => ⟨hk, hnone⟩

theorem Apart.release (h : Apart s) (hlocks : s'.locks = s.locks.release i)
    (hhandling : s'.handling = s.handling.release i ∨ s'.handling = s.handling) : Apart s' := by
  intro k
  rcases h k with hk | hk
  · exact .inl (by rw [hlocks, Locks.release_eq_none_iff]; exact .inl hk)
  · refine .inr ?_
    rcases hhandling with hr | hr
    · rw [hr, Locks.release_eq_none_iff]
      exact .inl hk
    · rw [hr, hk]

end Held

end Reflowfy.DLQScheduler
