import Mathlib.Data.List.Forall2
import Mathlib.Data.Nat.Notation
import Mathlib.Logic.Relation

namespace Paging

variable {σ ρ : Type}

-- A loop by its body, which goes on with a new state or returns. `none`: not within `n` rounds.
def run (step : σ → σ ⊕ ρ) : ℕ → σ → Option ρ
  | 0, _ => none
  | n + 1, s =>
      match step s with
      | .inl s' => run step n s'
      | .inr r => some r

def Returns (step : σ → σ ⊕ ρ) (s : σ) (r : ρ) : Prop := ∃ n, run step n s = some r

-- The states that a loop comes to.
def Reaches (step : σ → σ ⊕ ρ) : σ → σ → Prop := Relation.ReflTransGen fun s s' => step s = .inl s'

-- The records that a plan's jobs fetch, one job after the other.
def Delivers {α β : Type} (fetches : α → List β → Prop) (plan : List α) (records : List β) : Prop :=
  ∃ parts, List.Forall₂ fetches plan parts ∧ records = parts.flatten

section Rules

variable {step : σ → σ ⊕ ρ} {s s' : σ} {r r' : ρ}

theorem returns_of_inr (h : step s = .inr r) : Returns step s r := ⟨1, by simp [run, h]⟩

theorem returns_of_inl (h : step s = .inl s') (hr : Returns step s' r) : Returns step s r := by
  obtain ⟨n, hn⟩ := hr
  exact ⟨n + 1, by simpa [run, h] using hn⟩

theorem returns_of_reaches (h : Reaches step s s') (hr : Returns step s' r) : Returns step s r := by
  induction h using Relation.ReflTransGen.head_induction_on with
  | refl => exact hr
  | head hnext _ ih => exact returns_of_inl hnext ih

-- What a loop returns it returns from a state that it comes to.
theorem Returns.exists_last (h : Returns step s r) : ∃ s', Reaches step s s' ∧
    step s' = .inr r := by
  obtain ⟨n, hn⟩ := h
  induction n generalizing s with
  | zero => cases hn
  | succ n ih =>
      simp only [run] at hn
      cases hs : step s with
      | inl s' =>
          rw [hs] at hn
          obtain ⟨last, hreach, hlast⟩ := ih hn
          exact ⟨last, hreach.head hs, hlast⟩
      | inr r' =>
          rw [hs] at hn
          exact ⟨s, .refl, by rw [hs, Option.some.inj hn]⟩

-- More rounds change nothing.
theorem run_mono {n m : ℕ} (hnm : n ≤ m) (h : run step n s = some r) : run step m s = some r := by
  induction n generalizing m s with
  | zero => cases h
  | succ n ih =>
      obtain ⟨m, rfl⟩ : ∃ k, m = k + 1 := ⟨m - 1, by omega⟩
      simp only [run] at h ⊢
      cases hs : step s with
      | inl s' =>
          rw [hs] at h
          exact ih (by omega) h
      | inr r' =>
          rw [hs] at h
          exact h

theorem Returns.unique (h : Returns step s r) (h' : Returns step s r') : r = r' := by
  obtain ⟨n, hn⟩ := h
  obtain ⟨m, hm⟩ := h'
  have hn' := run_mono (Nat.le_max_left n m) hn
  rw [run_mono (Nat.le_max_right n m) hm] at hn'
  exact (Option.some.inj hn').symm

-- A loop with an invariant and a variant returns, and what it returns is as the last
-- round says.
theorem returns_of_variant {I : σ → Prop} {Q : ρ → Prop} (v : σ → ℕ)
    (hstep : ∀ s, I s → (∃ s', step s = .inl s' ∧ I s' ∧ v s' < v s) ∨
      ∃ r, step s = .inr r ∧ Q r) (hs : I s) :
    ∃ r, Returns step s r ∧ Q r := by
  induction hv : v s using Nat.strongRecOn generalizing s with
  | _ n ih =>
      rcases hstep s hs with ⟨s', hnext, hs', hlt⟩ | ⟨r, hret, hr⟩
      · obtain ⟨r, hr, hq⟩ := ih (v s') (hv ▸ hlt) hs' rfl
        exact ⟨r, returns_of_inl hnext hr, hq⟩
      · exact ⟨r, returns_of_inr hret, hr⟩

-- A loop that goes on wherever it comes to never returns.
theorem not_returns_of_invariant {I : σ → Prop} (hstep : ∀ s, I s → ∃ s', step s = .inl s' ∧
    I s') (hs : I s) :
    ¬Returns step s r := by
  rintro ⟨n, hn⟩
  induction n generalizing s with
  | zero => cases hn
  | succ n ih =>
      obtain ⟨s', hnext, hs'⟩ := hstep s hs
      simp only [run, hnext] at hn
      exact ih hs' hn

end Rules

section Delivery

variable {α β : Type} {fetches fetches' : α → List β → Prop} {plan plan' : List α}
    {records records' : List β}

theorem delivers_nil_iff : Delivers fetches [] records ↔ records = [] := by
  constructor
  · rintro ⟨parts, hparts, rfl⟩
    cases hparts
    rfl
  · rintro rfl
    exact ⟨[], .nil, rfl⟩

theorem delivers_cons_iff {job : α} :
    Delivers fetches (job :: plan) records ↔
      ∃ part rest, fetches job part ∧ Delivers fetches plan rest ∧ records = part ++ rest := by
  constructor
  · rintro ⟨parts, hparts, rfl⟩
    cases hparts with
    | cons hjob hrest => exact ⟨_, _, hjob, ⟨_, hrest, rfl⟩, rfl⟩
  · rintro ⟨part, rest, hjob, ⟨parts, hrest, rfl⟩, rfl⟩
    exact ⟨part :: parts, .cons hjob hrest, rfl⟩

theorem delivers_append_iff :
    Delivers fetches (plan ++ plan') records ↔
      ∃ front back, Delivers fetches plan front ∧ Delivers fetches plan' back ∧
        records = front ++ back := by
  induction plan generalizing records with
  | nil => simp [delivers_nil_iff]
  | cons job plan ih =>
      simp only [List.cons_append, delivers_cons_iff, ih]
      constructor
      · rintro ⟨part, _, hjob, ⟨front, back, hfront, hback, rfl⟩, rfl⟩
        exact ⟨part ++ front, back, ⟨part, front, hjob, hfront, rfl⟩, hback,
          (List.append_assoc ..).symm⟩
      · rintro ⟨_, back, ⟨part, front, hjob, hfront, rfl⟩, hback, rfl⟩
        exact ⟨part, front ++ back, hjob, ⟨front, back, hfront, hback, rfl⟩, List.append_assoc ..⟩

theorem delivers_congr (h : ∀ job ∈ plan, ∀ part, fetches job part ↔ fetches' job part) :
    Delivers fetches plan records ↔ Delivers fetches' plan records := by
  induction plan generalizing records with
  | nil => simp only [delivers_nil_iff]
  | cons job plan ih =>
      simp only [delivers_cons_iff, h job List.mem_cons_self, ih fun k hk =>
        h k (List.mem_cons_of_mem job hk)]

theorem delivers_map_iff {ι : Type} {l : List ι} {job : ι → α} :
    Delivers fetches (l.map job) records ↔ Delivers (fun i => fetches (job i)) l records := by
  simp only [Delivers, List.forall₂_map_left_iff]

-- Jobs that each deliver one record.
theorem delivers_singletons_iff {f : α → β} : Delivers (fun a part => part = [f a]) plan records ↔
    records = plan.map f := by
  induction plan generalizing records with
  | nil => exact delivers_nil_iff
  | cons job plan ih => simp [delivers_cons_iff, ih]

-- Jobs that each deliver a plan of their own.
theorem delivers_join {ι : Type} {l : List ι} {jobs : ι → List α} :
    Delivers (fun i part => Delivers fetches (jobs i) part) l records ↔
      Delivers fetches (l.flatMap jobs) records := by
  induction l generalizing records with
  | nil => simp only [delivers_nil_iff, List.flatMap_nil]
  | cons i l ih => simp only [List.flatMap_cons, delivers_append_iff, delivers_cons_iff, ih]

theorem Delivers.exists_part (h : Delivers fetches plan records) :
    ∀ job ∈ plan, ∃ part, fetches job part := by
  induction plan generalizing records with
  | nil => simp
  | cons job plan ih =>
      obtain ⟨part, rest, hjob, hrest, -⟩ := delivers_cons_iff.mp h
      intro k hk
      rcases List.mem_cons.mp hk with rfl | hk
      · exact ⟨part, hjob⟩
      · exact ih hrest k hk

theorem exists_delivers (h : ∀ job ∈ plan, ∃ part, fetches job part) :
    ∃ records, Delivers fetches plan records := by
  induction plan with
  | nil => exact ⟨[], delivers_nil_iff.mpr rfl⟩
  | cons job plan ih =>
      obtain ⟨part, hpart⟩ := h job List.mem_cons_self
      obtain ⟨rest, hrest⟩ := ih fun k hk => h k (List.mem_cons_of_mem job hk)
      exact ⟨part ++ rest, delivers_cons_iff.mpr ⟨part, rest, hpart, hrest, rfl⟩⟩

-- Two ways to deliver the same records in parts of one length have their parts in common.
theorem Delivers.common_part (len : ℕ) (hlen : ∀ job part, fetches job part → part.length = len)
    (hlen' : ∀ job part, fetches' job part → part.length = len) (h : Delivers fetches plan records)
    (h' : Delivers fetches' plan records) : ∀ job ∈ plan, ∃ part, fetches job part ∧
      fetches' job part := by
  induction plan generalizing records with
  | nil => simp
  | cons job plan ih =>
      obtain ⟨part, rest, hjob, hrest, rfl⟩ := delivers_cons_iff.mp h
      obtain ⟨part', rest', hjob', hrest', heq⟩ := delivers_cons_iff.mp h'
      obtain ⟨rfl, rfl⟩ :=
        List.append_inj heq ((hlen job part hjob).trans (hlen' job part' hjob').symm)
      intro k hk
      rcases List.mem_cons.mp hk with rfl | hk
      · exact ⟨part, hjob, hjob'⟩
      · exact ih hrest hrest' k hk

theorem delivers_map {ι : Type} {l : List ι} {job : ι → α} {part : ι → List β}
    (h : ∀ i ∈ l, fetches (job i) (part i)) :
    Delivers fetches (l.map job) (l.flatMap part) := by
  refine ⟨l.map part, ?_, rfl⟩
  induction l with
  | nil => exact .nil
  | cons i l ih => exact .cons (h i List.mem_cons_self) (ih fun k hk =>
      h k (List.mem_cons_of_mem i hk))

theorem Delivers.unique (hunique : ∀ job r r', fetches job r → fetches job r' → r = r')
    (h : Delivers fetches plan records) (h' : Delivers fetches plan records') :
      records = records' := by
  obtain ⟨parts, hparts, rfl⟩ := h
  obtain ⟨parts', hparts', rfl⟩ := h'
  congr 1
  induction hparts generalizing parts' with
  | nil =>
      cases hparts'
      rfl
  | cons hjob _ ih =>
      cases hparts' with
      | cons hjob' hrest' => rw [hunique _ _ _ hjob hjob', ih _ hrest']

end Delivery

end Paging
