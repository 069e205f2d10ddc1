import Reflowfy.Assoc.Lookup
import Reflowfy.Interleaving.RowLocks
import Mathlib.Data.List.Nodup

-- A table brought up to date with a list of entries, one key after the other.
namespace Assoc

open Interleaving

variable {κ α β : Type} [DecidableEq κ]

-- What `f` makes of the entry and of what the table has for its key.
def upsert (f : κ → β → Option α → α) (table : List (κ × α)) (entry : κ × β) : List (κ × α) :=
  insert table entry.1 (f entry.1 entry.2 (table.lookup entry.1))

section Keys

theorem lookup_map_keyed {γ : Type} (f : κ → α → γ) (l : List (κ × α)) (k : κ) :
    (l.map fun entry => (entry.1, f entry.1 entry.2)).lookup k = (l.lookup k).map (f k) := by
  induction l with
  | nil => rfl
  | cons entry l ih =>
      obtain ⟨key, value⟩ := entry
      rw [List.map_cons]
      by_cases hk : k = key
      · subst hk
        rw [List.lookup_cons_self, List.lookup_cons_self, Option.map_some]
      · rw [lookup_cons_of_ne hk, lookup_cons_of_ne hk, ih]

theorem map_fst_replace (l : List (κ × α)) (k : κ) (v : α) :
    (l.map fun entry => if entry.1 = k then (entry.1, v) else entry).map Prod.fst =
    l.map Prod.fst := by
  rw [List.map_map]
  refine List.map_congr_left fun entry _ => ?_
  simp only [Function.comp_apply]
  split <;> rfl

theorem nodup_insert {l : List (κ × α)} (h : (l.map Prod.fst).Nodup) (k : κ) (v : α) :
    ((insert l k v).map Prod.fst).Nodup := by
  unfold insert
  split
  · rw [map_fst_replace]
    exact h
  · rename_i hnone
    rw [List.map_append, List.nodup_append]
    refine ⟨h, List.nodup_singleton k, fun key hkey other hother heq => ?_⟩
    rw [heq, List.mem_singleton.mp hother] at hkey
    obtain ⟨old, hold, -⟩ := exists_lookup_eq_some hkey
    rw [hold] at hnone
    exact hnone rfl

end Keys

section Table

variable (f : κ → β → Option α → α)

theorem lookup_upsert (table : List (κ × α)) (entry : κ × β) (k : κ) :
    (upsert f table entry).lookup k = if k = entry.1 then some (f k entry.2 (table.lookup k))
    else table.lookup k := by
  unfold upsert
  rw [lookup_insert]
  split
  · rename_i hk
    rw [hk]
  · rfl

-- Each entry has its key to itself, so the entries before it leave what the table had for it.
theorem lookup_upserts (entries : List (κ × β)) (table : List (κ × α))
    (hnodup : (entries.map Prod.fst).Nodup) (k : κ) :
    (entries.foldl (upsert f) table).lookup k =
      match entries.lookup k with
      | some entry => some (f k entry (table.lookup k))
      | none => table.lookup k := by
  induction entries generalizing table with
  | nil => rfl
  | cons entry entries ih =>
      obtain ⟨key, value⟩ := entry
      rw [List.map_cons, List.nodup_cons] at hnodup
      rw [List.foldl_cons, ih _ hnodup.2, lookup_upsert]
      by_cases hk : k = key
      · subst hk
        rw [lookup_eq_none_of_notMem hnodup.1, List.lookup_cons_self, if_pos rfl]
      · rw [if_neg hk, lookup_cons_of_ne hk]

theorem nodup_upserts (entries : List (κ × β)) (table : List (κ × α))
    (h : (table.map Prod.fst).Nodup) :
    ((entries.foldl (upsert f) table).map Prod.fst).Nodup := by
  induction entries generalizing table with
  | nil => exact h
  | cons entry entries ih => exact ih _ (nodup_insert h _ _)

end Table

end Assoc
