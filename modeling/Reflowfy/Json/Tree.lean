import Mathlib.Data.List.Sort
import Mathlib.Data.String.Basic

-- A JSON text as a tree. An object has its entries in the order of the text; a float is given
-- by its digits.
inductive Json
  | null
  | bool (b : Bool)
  | int (n : ℤ)
  | float (text : String)
  | str (s : String)
  | list (items : List Json)
  | obj (entries : List (String × Json))
  deriving Repr

namespace Json

-- No object has a key twice.
mutual

def WellFormed : Json → Prop
  | null | bool _ | int _ | float _ | str _ => True
  | list items => WellFormedItems items
  | obj entries => (entries.map Prod.fst).Nodup ∧ WellFormedEntries entries

def WellFormedItems : List Json → Prop
  | [] => True
  | item :: items => WellFormed item ∧ WellFormedItems items

def WellFormedEntries : List (String × Json) → Prop
  | [] => True
  | (_, v) :: entries => WellFormed v ∧ WellFormedEntries entries

end

-- The entries of every object by their keys.
mutual

def sorted : Json → Json
  | null => null
  | bool b => bool b
  | int n => int n
  | float text => float text
  | str s => str s
  | list items => list (sortedItems items)
  | obj entries => obj ((sortedEntries entries).insertionSort fun a b => a.1 ≤ b.1)

def sortedItems : List Json → List Json
  | [] => []
  | item :: items => sorted item :: sortedItems items

def sortedEntries : List (String × Json) → List (String × Json)
  | [] => []
  | (k, v) :: entries => (k, sorted v) :: sortedEntries entries

end

-- Equal as values: objects have the same keys, and the same value at each of them.
inductive Same : Json → Json → Prop
  | null : Same null null
  | bool (b : Bool) : Same (bool b) (bool b)
  | int (n : ℤ) : Same (int n) (int n)
  | float (text : String) : Same (float text) (float text)
  | str (s : String) : Same (str s) (str s)
  | list {xs ys : List Json} (hlen : xs.length = ys.length)
      (hitems : ∀ (i : ℕ) a b, xs[i]? = some a → ys[i]? = some b → Same a b) :
        Same (list xs) (list ys)
  | obj {xs ys : List (String × Json)} (hkeys : ∀ k, k ∈ xs.map Prod.fst ↔ k ∈ ys.map Prod.fst)
      (hvalues : ∀ k a b, (k, a) ∈ xs → (k, b) ∈ ys → Same a b) : Same (obj xs) (obj ys)

section Sorting

variable {xs ys : List (String × Json)}

theorem sortedItems_eq (items : List Json) : sortedItems items = items.map sorted := by
  induction items with
  | nil => rfl
  | cons item items ih => rw [sortedItems, ih, List.map_cons]

theorem sortedEntries_eq (entries : List (String × Json)) :
    sortedEntries entries = entries.map fun entry => (entry.1, sorted entry.2) := by
  induction entries with
  | nil => rfl
  | cons entry entries ih => rw [sortedEntries, ih, List.map_cons]

theorem wellFormedItems_iff {items : List Json} : WellFormedItems items ↔
    ∀ item ∈ items, WellFormed item := by
  induction items with
  | nil => simp [WellFormedItems]
  | cons item items ih => simp [WellFormedItems, ih]

theorem wellFormedEntries_iff {entries : List (String × Json)} :
    WellFormedEntries entries ↔ ∀ entry ∈ entries, WellFormed entry.2 := by
  induction entries with
  | nil => simp [WellFormedEntries]
  | cons entry entries ih => simp [WellFormedEntries, ih]

theorem keys_inj {k : String} {a b : Json} (hnodup : (xs.map Prod.fst).Nodup) (ha : (k, a) ∈ xs)
    (hb : (k, b) ∈ xs) :
    a = b := by
  have heq := List.inj_on_of_nodup_map hnodup ha hb rfl
  exact congrArg Prod.snd heq

-- With distinct keys, sorting leaves nothing of a list but its entries.
theorem insertionSort_eq_iff (hx : (xs.map Prod.fst).Nodup) (hy : (ys.map Prod.fst).Nodup) :
    xs.insertionSort (fun a b => a.1 ≤ b.1) = ys.insertionSort (fun a b => a.1 ≤ b.1) ↔
      ∀ entry, entry ∈ xs ↔ entry ∈ ys := by
  have hperm : xs.Perm ys ↔ ∀ entry, entry ∈ xs ↔ entry ∈ ys :=
    List.perm_ext_iff_of_nodup (List.Nodup.of_map _ hx) (List.Nodup.of_map _ hy)
  rw [← hperm]
  constructor
  · intro heq
    exact (List.perm_insertionSort _ xs).symm.trans (heq ▸ List.perm_insertionSort _ ys)
  · intro hxy
    have hsorted : (xs.insertionSort fun a b => a.1 ≤ b.1).Perm
        (ys.insertionSort fun a b => a.1 ≤ b.1) :=
      ((List.perm_insertionSort _ xs).trans hxy).trans (List.perm_insertionSort _ ys).symm
    refine hsorted.eq_of_pairwise ?_ (List.pairwise_insertionSort _ xs)
      (List.pairwise_insertionSort _ ys)
    rintro ⟨k, a⟩ ⟨k', b⟩ ha hb hle hge
    obtain rfl : k = k' := le_antisymm hle hge
    rw [List.mem_insertionSort] at ha hb
    rw [keys_inj hy (hxy.mem_iff.mp ha) hb]

end Sorting

section Canonical

theorem nodup_sortedEntries {xs : List (String × Json)} (h : (xs.map Prod.fst).Nodup) :
    ((sortedEntries xs).map Prod.fst).Nodup := by
  rw [sortedEntries_eq, List.map_map]
  exact h

-- What the two sides of an object's case say of the entries.
theorem mem_sortedEntries_iff {xs ys : List (String × Json)} (hy : (ys.map Prod.fst).Nodup) :
    (∀ entry, entry ∈ sortedEntries xs ↔ entry ∈ sortedEntries ys) ↔
      (∀ k, k ∈ xs.map Prod.fst ↔ k ∈ ys.map Prod.fst) ∧
        ∀ k a b, (k, a) ∈ xs → (k, b) ∈ ys → sorted a = sorted b := by
  have hmem : ∀ (zs : List (String × Json)) k c, (k, c) ∈ sortedEntries zs ↔ ∃ a, (k, a) ∈ zs ∧
      sorted a = c := by
    intro zs k c
    rw [sortedEntries_eq]
    simp
  have hkey : ∀ (zs : List (String × Json)) k, k ∈ zs.map Prod.fst ↔ ∃ a, (k, a) ∈ zs := by simp
  constructor
  · intro h
    constructor
    · intro k
      rw [hkey, hkey]
      constructor
      · rintro ⟨a, ha⟩
        obtain ⟨b, hb, -⟩ := (hmem ys k _).mp ((h _).mp ((hmem xs k _).mpr ⟨a, ha, rfl⟩))
        exact ⟨b, hb⟩
      · rintro ⟨b, hb⟩
        obtain ⟨a, ha, -⟩ := (hmem xs k _).mp ((h _).mpr ((hmem ys k _).mpr ⟨b, hb, rfl⟩))
        exact ⟨a, ha⟩
    · intro k a b ha hb
      obtain ⟨b', hb', heq⟩ := (hmem ys k _).mp ((h _).mp ((hmem xs k _).mpr ⟨a, ha, rfl⟩))
      rw [keys_inj hy hb hb', heq]
  · rintro ⟨hkeys, hvalues⟩ ⟨k, c⟩
    rw [hmem, hmem]
    constructor
    · rintro ⟨a, ha, rfl⟩
      obtain ⟨b, hb⟩ := (hkey ys k).mp ((hkeys k).mp ((hkey xs k).mpr ⟨a, ha⟩))
      exact ⟨b, hb, (hvalues k a b ha hb).symm⟩
    · rintro ⟨b, hb, rfl⟩
      obtain ⟨a, ha⟩ := (hkey xs k).mp ((hkeys k).mpr ((hkey ys k).mpr ⟨b, hb⟩))
      exact ⟨a, ha, hvalues k a b ha hb⟩

theorem leaf_eq_iff {a b : Json} (hlist : ∀ xs, a ≠ list xs) (hobj : ∀ xs, a ≠ obj xs) :
    sorted a = sorted b ↔ Same a b := by
  constructor
  · intro h
    cases a <;> cases b <;> simp_all [sorted] <;> constructor
  · intro h
    cases h with
    | list => exact absurd rfl (hlist _)
    | obj => exact absurd rfl (hobj _)
    | _ => rfl

-- One case per kind of value; items and entries come by recursion along them.
mutual

theorem sorted_eq_iff : (a : Json) → (b : Json) → WellFormed a → WellFormed b →
    (sorted a = sorted b ↔ Same a b)
  | list xs, b, ha, hb => by
      have ih := items_eq_iff xs
      constructor
      · intro h
        cases b with
        | list ys =>
            simp only [sorted, list.injEq, sortedItems_eq] at h
            refine .list (by simpa using congrArg List.length h) fun i x y hx hy => ?_
            have hitem : (xs.map sorted)[i]? = (ys.map sorted)[i]? := by rw [h]
            rw [List.getElem?_map, List.getElem?_map, hx, hy] at hitem
            exact (ih x (List.mem_of_getElem? hx) y
              (wellFormedItems_iff.mp ha x (List.mem_of_getElem? hx))
              (wellFormedItems_iff.mp hb y (List.mem_of_getElem? hy))).mp (Option.some.inj hitem)
        | _ => simp [sorted] at h
      · intro h
        cases h with
        | @list _ ys hlen hitems =>
            simp only [sorted, list.injEq, sortedItems_eq]
            apply List.ext_getElem (by simpa using hlen)
            intro i hi hi'
            rw [List.length_map] at hi hi'
            rw [List.getElem_map, List.getElem_map]
            exact (ih xs[i] (List.getElem_mem hi) ys[i]
              (wellFormedItems_iff.mp ha _ (List.getElem_mem hi))
              (wellFormedItems_iff.mp hb _ (List.getElem_mem hi'))).mpr
              (hitems i _ _ (List.getElem?_eq_getElem hi) (List.getElem?_eq_getElem hi'))
  | obj xs, b, ha, hb => by
      have ih := entries_eq_iff xs
      have hvalues : ∀ ys : List (String × Json), WellFormed (obj ys) →
          ((∀ k a b, (k, a) ∈ xs → (k, b) ∈ ys → sorted a = sorted b) ↔
          ∀ k a b, (k, a) ∈ xs → (k, b) ∈ ys → Same a b) := by
        intro ys hy
        refine forall_congr' fun k => forall_congr' fun x => forall_congr' fun y => ?_
        refine forall_congr' fun hx => forall_congr' fun hy' => ?_
        exact ih k x hx y (wellFormedEntries_iff.mp ha.2 _ hx) (wellFormedEntries_iff.mp hy.2 _ hy')
      constructor
      · intro h
        cases b with
        | obj ys =>
            simp only [sorted, obj.injEq] at h
            rw [insertionSort_eq_iff (nodup_sortedEntries ha.1) (nodup_sortedEntries hb.1),
              mem_sortedEntries_iff hb.1,
              hvalues ys hb] at h
            exact .obj h.1 h.2
        | _ => simp [sorted] at h
      · intro h
        cases h with
        | @obj _ ys hkeys hsame =>
            simp only [sorted, obj.injEq]
            rw [insertionSort_eq_iff (nodup_sortedEntries ha.1) (nodup_sortedEntries hb.1),
              mem_sortedEntries_iff hb.1,
              hvalues ys hb]
            exact ⟨hkeys, hsame⟩
  | null, _, _, _ | bool _, _, _, _ | int _, _, _, _ | float _, _, _, _ | str _, _, _, _ =>
      leaf_eq_iff (by simp) (by simp)

theorem items_eq_iff : (xs : List Json) → ∀ a ∈ xs, ∀ b, WellFormed a → WellFormed b →
    (sorted a = sorted b ↔ Same a b)
  | [] => nofun
  | x :: xs => by
      intro a ha
      rcases List.mem_cons.mp ha with heq | ha
      · rw [heq]
        exact sorted_eq_iff x
      · exact items_eq_iff xs a ha

theorem entries_eq_iff : (xs : List (String × Json)) → ∀ k a, (k, a) ∈ xs →
    ∀ b, WellFormed a → WellFormed b →
    (sorted a = sorted b ↔ Same a b)
  | [] => nofun
  | (_, x) :: xs => by
      intro k a ha
      rcases List.mem_cons.mp ha with heq | ha
      · cases heq
        exact sorted_eq_iff x
      · exact entries_eq_iff xs k a ha

end

end Canonical

end Json
