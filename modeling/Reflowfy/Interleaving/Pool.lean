import Reflowfy.Interleaving.Runs
import Mathlib.Logic.Function.Basic
import Mathlib.Data.Nat.Notation

namespace Interleaving

-- Processes that share a store: `procs` gives each task its local state.
structure Pool (σ π : Type) where
  store : σ
  procs : ℕ → π

namespace Pool

variable {σ π : Type}

def set (s : Pool σ π) (i : ℕ) (store : σ) (proc : π) : Pool σ π :=
  { store, procs := Function.update s.procs i proc }

@[simp] theorem set_store (s : Pool σ π) (i : ℕ) (store : σ) (proc : π) :
    (s.set i store proc).store = store := rfl

@[simp] theorem set_procs_self (s : Pool σ π) (i : ℕ) (store : σ) (proc : π) :
    (s.set i store proc).procs i = proc := Function.update_self ..

theorem set_procs_of_ne (s : Pool σ π) {i j : ℕ} (store : σ) (proc : π) (h : j ≠ i) :
    (s.set i store proc).procs j = s.procs j := Function.update_of_ne h ..

@[simp] theorem set_self (s : Pool σ π) (i : ℕ) : s.set i s.store (s.procs i) = s := by
  cases s
  simp [set]

@[simp] theorem set_set (s : Pool σ π) (i : ℕ) (store store' : σ) (proc proc' : π) :
    (s.set i store proc).set i store' proc' = s.set i store' proc' := by
  simp [set]

-- What holds of every task holds again when one of them has been replaced.
theorem forall_set {s : Pool σ π} {i : ℕ} {store : σ} {proc : π}
    {B : ℕ → π → Prop} (hown : B i proc)
    (hothers : ∀ j, j ≠ i → B j (s.procs j)) (j : ℕ) : B j ((s.set i store proc).procs j) := by
  by_cases hj : j = i
  · subst hj
    rwa [set_procs_self]
  · rw [set_procs_of_ne s store proc hj]
    exact hothers j hj

-- The rule of Owicki and Gries. `I` speaks of the store, `A` of the store and one
-- task's local state. A step of task `i` re-establishes both for itself, and does
-- not interfere with what any other task asserts.
def Holds (I : σ → Prop) (A : σ → ℕ → π → Prop) (s : Pool σ π) : Prop :=
  I s.store ∧ ∀ i, A s.store i (s.procs i)

theorem Holds.set {I : σ → Prop} {A : σ → ℕ → π → Prop} {s : Pool σ π} {i : ℕ}
    {store : σ} {proc : π} (hs : s.Holds I A) (hI : I store) (hown : A store i proc)
    (hothers : ∀ j, j ≠ i → A s.store j (s.procs j) → A store j (s.procs j)) :
    (s.set i store proc).Holds I A :=
  ⟨hI, forall_set hown fun j hj => hothers j hj (hs.2 j)⟩

-- A step of the environment changes the store and no task.
theorem Holds.store {I : σ → Prop} {A : σ → ℕ → π → Prop} {s : Pool σ π} {store : σ}
    (hs : s.Holds I A) (hI : I store) (hstable : ∀ j p, A s.store j p → A store j p) :
    Holds I A { s with store } :=
  ⟨hI, fun j => hstable j _ (hs.2 j)⟩

end Pool

end Interleaving
