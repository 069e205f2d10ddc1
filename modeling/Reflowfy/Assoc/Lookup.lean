import Mathlib.Data.List.Basic

-- Lists of entries as dicts: the first entry of a key counts.
namespace Assoc

variable {κ α : Type} [DecidableEq κ]

-- The value replaced where the key stands, or a new entry at the end.
def insert (l : List (κ × α)) (k : κ) (v : α) : List (κ × α) :=
  if (l.lookup k).isSome then l.map fun entry => if entry.1 = k then (entry.1, v) else entry
  else l ++ [(k, v)]

theorem lookup_cons_of_ne {k k' : κ} (h : k' ≠ k) (v : α) (l : List (κ × α)) :
    ((k, v) :: l).lookup k' = l.lookup k' := by
  rw [List.lookup_cons, beq_eq_false_iff_ne.mpr h]

-- Lists with the same keys are looked up alike.
theorem lookup_forall₂ {β : Type} {R : κ → α → β → Prop} {l : List (κ × α)} {l' : List (κ × β)}
    (h : List.Forall₂ (fun entry entry' => entry'.1 = entry.1 ∧ R entry.1 entry.2 entry'.2) l l')
    (k : κ) : Option.Rel (R k) (l.lookup k) (l'.lookup k) := by
  induction h with
  | nil => exact .none
  | @cons entry entry' l l' hentry _ ih =>
      obtain ⟨key, v⟩ := entry
      obtain ⟨key', v'⟩ := entry'
      obtain ⟨rfl, hvalue⟩ := hentry
      by_cases hk : k = key'
      · subst hk
        rw [List.lookup_cons_self, List.lookup_cons_self]
        exact .some hvalue
      · rw [lookup_cons_of_ne hk, lookup_cons_of_ne hk]
        exact ih

theorem lookup_map_replace (l : List (κ × α)) (k k' : κ) (v : α) :
    (l.map fun entry => if entry.1 = k then (entry.1, v) else entry).lookup k' =
      if k' = k then (l.lookup k).map fun _ => v else l.lookup k' := by
  induction l with
  | nil => simp
  | cons entry l ih =>
      obtain ⟨key, value⟩ := entry
      rw [List.map_cons]
      by_cases hkey : key = k
      · subst hkey
        rw [if_pos rfl]
        by_cases hk : k' = key
        · subst hk
          rw [if_pos rfl, List.lookup_cons_self, List.lookup_cons_self, Option.map_some]
        · rw [lookup_cons_of_ne hk, ih, if_neg hk, if_neg hk, lookup_cons_of_ne hk]
      · rw [if_neg hkey]
        by_cases hk : k' = key
        · subst hk
          rw [List.lookup_cons_self, if_neg hkey, List.lookup_cons_self]
        · rw [lookup_cons_of_ne hk, ih, lookup_cons_of_ne hk, lookup_cons_of_ne (Ne.symm hkey)]

theorem lookup_append_of_none {l : List (κ × α)} {k : κ} (h : l.lookup k = none)
    (l' : List (κ × α)) :
    (l ++ l').lookup k = l'.lookup k := by
  rw [List.lookup_append, h, Option.none_or]

theorem lookup_filter (p : κ → Bool) (l : List (κ × α)) (k : κ) :
    (l.filter fun entry => p entry.1).lookup k = if p k then l.lookup k else none := by
  induction l with
  | nil => simp
  | cons entry l ih =>
      obtain ⟨key, v⟩ := entry
      by_cases hk : k = key
      · subst hk
        cases hp : p k with
        | true => rw [List.filter_cons_of_pos (by simpa using hp), List.lookup_cons_self,
            List.lookup_cons_self, if_pos rfl]
        | false =>
            rw [List.filter_cons_of_neg (by simpa using hp), ih, hp]
            rfl
      · rw [lookup_cons_of_ne hk, ← ih]
        cases hp : p key with
        | true => rw [List.filter_cons_of_pos (by simpa using hp), lookup_cons_of_ne hk]
        | false => rw [List.filter_cons_of_neg (by simpa using hp)]

theorem lookup_insert (l : List (κ × α)) (k k' : κ) (v : α) :
    (insert l k v).lookup k' = if k' = k then some v else l.lookup k' := by
  unfold insert
  split
  · rename_i hsome
    obtain ⟨old, hold⟩ := Option.isSome_iff_exists.mp hsome
    rw [lookup_map_replace, hold]
    rfl
  · rename_i hnone
    have hk : l.lookup k = none := Option.not_isSome_iff_eq_none.mp hnone
    by_cases hk' : k' = k
    · subst hk'
      rw [lookup_append_of_none hk, List.lookup_cons_self, if_pos rfl]
    · rw [List.lookup_append, lookup_cons_of_ne hk', if_neg hk']
      exact Option.or_none

-- The entries of other keys stay, in their order.
theorem filter_insert {p : κ → Bool} {k : κ} (hk : p k = false) (l : List (κ × α)) (v : α) :
    (insert l k v).filter (fun entry => p entry.1) = l.filter fun entry => p entry.1 := by
  unfold insert
  split
  · rw [List.filter_map]
    have hsame : ((fun entry : κ × α => p entry.1) ∘ fun entry => if entry.1 = k then
      (entry.1, v) else entry) =
        fun entry => p entry.1 := by
      funext entry
      by_cases hentry : entry.1 = k <;> simp [hentry]
    rw [hsame]
    refine (List.map_congr_left fun entry hentry => ?_).trans (List.map_id _)
    have hne : entry.1 ≠ k := by
      rintro heq
      rw [List.mem_filter, heq, hk] at hentry
      cases hentry.2
    rw [if_neg hne]
    rfl
  · rw [List.filter_append]
    simp [hk]

end Assoc
