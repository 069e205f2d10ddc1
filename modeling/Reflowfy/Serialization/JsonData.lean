import Reflowfy.JsonDumps
import Reflowfy.Json.RoundTrip
import Mathlib.Algebra.Ring.Int.Defs
import Mathlib.Data.List.Nodup

namespace Reflowfy.PyJson

-- What a value is by its type: a float is one that Python prints, and a dict has no key twice.
mutual

def Valid : Value → Prop
  | .None | .bool _ | .int _ | .str _ | .bytes _ | .other _ => True
  | .float text => Json.isFloat text.toList
  | .list items | .tuple items => ValidItems items
  | .dict entries => (entries.map Prod.fst).Nodup ∧ ValidEntries entries
  | .object attributes => Valid attributes

def ValidItems : List Value → Prop
  | [] => True
  | item :: items => Valid item ∧ ValidItems items

def ValidEntries : List (Key × Value) → Prop
  | [] => True
  | (_, v) :: entries => Valid v ∧ ValidEntries entries

end

-- Every key of a dict is a str, no float is NaN, and no int is too long to be printed. A str
-- that `to_json_safe` makes is one like any other.
mutual

def Plain : Value → Prop
  | .None | .bool _ | .str _ | .bytes _ | .other _ => True
  | .int n => printable_int n
  | .float text => text ≠ "NaN"
  | .list items | .tuple items => PlainItems items
  | .dict entries => PlainEntries entries
  | .object attributes => Plain attributes

def PlainItems : List Value → Prop
  | [] => True
  | item :: items => Plain item ∧ PlainItems items

def PlainEntries : List (Key × Value) → Prop
  | [] => True
  | (k, v) :: entries => (∃ s, k = .str s) ∧ Plain v ∧ PlainEntries entries

end

-- A value that comes back from `json.loads(json.dumps(…))` as it was.
def ComesBack (v : Value) : Prop := ∃ text w, dumps v = .ok text ∧ loads text = some w ∧ Equal w v

-- The same before the tree is printed.
def Survives (v : Value) : Prop := ∃ j w, encode v = .ok j ∧ decode j = some w ∧ Equal w v

section Dicts

variable {pairs d : List (Key × Value)}

theorem keys_put (d : List (Key × Value)) (entry : Key × Value) :
    (put d entry).map Prod.fst = if entry.1 ∈ d.map Prod.fst then d.map Prod.fst
    else d.map Prod.fst ++ [entry.1] := by
  have hmem : d.any (·.1 = entry.1) = true ↔ entry.1 ∈ d.map Prod.fst := by simp [List.mem_map]
  unfold put
  by_cases h : entry.1 ∈ d.map Prod.fst
  · rw [if_pos (hmem.mpr h), if_pos h, List.map_map]
    refine List.map_congr_left fun other _ => ?_
    simp only [Function.comp]
    split
    · rename_i heq
      exact heq.symm
    · rfl
  · rw [if_neg (mt hmem.mp h), if_neg h, List.map_append]
    rfl

theorem mem_keys_foldl (pairs d : List (Key × Value)) (k : Key) :
    k ∈ (pairs.foldl put d).map Prod.fst ↔ k ∈ d.map Prod.fst ∨ k ∈ pairs.map Prod.fst := by
  induction pairs generalizing d with
  | nil => simp
  | cons entry pairs ih =>
      rw [List.foldl_cons, ih, keys_put, List.map_cons, List.mem_cons]
      by_cases h : entry.1 ∈ d.map Prod.fst
      · rw [if_pos h]
        constructor
        · rintro (hd | hp)
          · exact .inl hd
          · exact .inr (.inr hp)
        · rintro (hd | rfl | hp)
          · exact .inl hd
          · exact .inl h
          · exact .inr hp
      · rw [if_neg h, List.mem_append, List.mem_singleton, or_assoc]

theorem mem_keys_dict_of (pairs : List (Key × Value)) (k : Key) :
    k ∈ (dict_of pairs).map Prod.fst ↔ k ∈ pairs.map Prod.fst := by
  rw [dict_of, mem_keys_foldl, List.map_nil]
  simp

-- Pairs without a key twice are the dict.
theorem foldl_put_eq (h : ((d ++ pairs).map Prod.fst).Nodup) : pairs.foldl put d = d ++ pairs := by
  induction pairs generalizing d with
  | nil => simp
  | cons entry pairs ih =>
      have hnew : ¬(d.any (·.1 = entry.1) = true) := by
        rw [List.map_append, List.nodup_append] at h
        intro hany
        obtain ⟨other, hmem, heq⟩ := List.any_eq_true.mp hany
        refine h.2.2 other.1 (List.mem_map_of_mem hmem) entry.1 (by simp) ?_
        simpa using heq
      have hput : put d entry = d ++ [entry] := if_neg hnew
      rw [List.foldl_cons, hput, ih (by simpa using h), List.append_assoc]
      rfl

theorem dict_of_eq (h : (pairs.map Prod.fst).Nodup) : dict_of pairs = pairs :=
  foldl_put_eq (d := []) h

end Dicts

section Survival

theorem encode_items_cons {item : Value} {items : List Value} {js : List Json}
    (h : encode_items (item :: items) = .ok js) :
    ∃ j rest, encode item = .ok j ∧ encode_items items = .ok rest ∧ js = j :: rest := by
  cases hitem : encode item with
  | error e => simp [encode_items, hitem, bind, Except.bind] at h
  | ok j =>
      cases hitems : encode_items items with
      | error e => simp [encode_items, hitem, hitems, bind, Except.bind] at h
      | ok rest =>
          simp only [encode_items, hitem, hitems, bind, Except.bind, pure, Except.pure,
            Except.ok.injEq] at h
          exact ⟨j, rest, rfl, rfl, h.symm⟩

theorem survives_items (items : List Value) :
    (∃ js ws, encode_items items = .ok js ∧ decode_items js = some ws ∧
      List.Forall₂ Equal ws items) ↔
      ∀ item ∈ items, Survives item := by
  induction items with
  | nil => simp [encode_items, decode_items]
  | cons item items ih =>
      rw [List.forall_mem_cons, ← ih]
      constructor
      · rintro ⟨js, ws, hjs, hws, hequal⟩
        obtain ⟨j, rest, hj, hrest, rfl⟩ := encode_items_cons hjs
        obtain ⟨w, hw, ws', hws', rfl⟩ : ∃ w, decode j = some w ∧
            ∃ ws', decode_items rest = some ws' ∧ w :: ws' = ws := by
          simpa [decode_items, Option.bind_eq_some_iff] using hws
        cases hequal with
        | cons hhead htail => exact ⟨⟨j, w, hj, hw, hhead⟩, rest, ws', hrest, hws', htail⟩
      · rintro ⟨⟨j, w, hj, hw, hhead⟩, rest, ws, hrest, hws, htail⟩
        refine ⟨j :: rest, w :: ws, ?_, ?_, .cons hhead htail⟩
        · simp [encode_items, hj, hrest, bind, Except.bind, pure, Except.pure]
        · simp [decode_items, hw, hws]

theorem survives_list (items : List Value) : Survives (.list items) ↔
    ∀ item ∈ items, Survives item := by
  rw [← survives_items]
  constructor
  · rintro ⟨j, w, hj, hw, hequal⟩
    cases hjs : encode_items items with
    | error e => simp [encode, hjs, Functor.map, Except.map] at hj
    | ok js =>
        simp only [encode, hjs, Functor.map, Except.map, Except.ok.injEq] at hj
        subst hj
        cases hws : decode_items js with
        | none => simp [decode, hws] at hw
        | some ws =>
            simp only [decode, hws, Option.map_eq_map, Option.map_some, Option.some.injEq] at hw
            subst hw
            cases hequal with
            | list h => exact ⟨js, ws, rfl, hws, h⟩
  · rintro ⟨js, ws, hjs, hws, hequal⟩
    exact ⟨.list js, .list ws,
      by simp [encode, hjs, Functor.map, Except.map], by simp [decode, hws], .list hequal⟩

theorem encode_entries_cons {k : Key} {v : Value} {entries : List (Key × Value)}
    {js : List (String × Json)} (h : encode_entries ((k, v) :: entries) = .ok js) :
    ∃ s j rest, dumps_key k = .ok s ∧ encode v = .ok j ∧ encode_entries entries = .ok rest ∧
      js = (s, j) :: rest := by
  cases hkey : dumps_key k with
  | error e => simp [encode_entries, hkey, bind, Except.bind] at h
  | ok s =>
      cases hvalue : encode v with
      | error e => simp [encode_entries, hkey, hvalue, bind, Except.bind] at h
      | ok j =>
          cases hentries : encode_entries entries with
          | error e => simp [encode_entries, hkey, hvalue, hentries, bind, Except.bind] at h
          | ok rest =>
              simp only [encode_entries, hkey, hvalue, hentries, bind, Except.bind, pure,
                Except.pure, Except.ok.injEq] at h
              exact ⟨s, j, rest, rfl, rfl, rfl, h.symm⟩

-- An entry and what has become of it.
def Decoded (pair entry : Key × Value) : Prop :=
  (∃ s, pair.1 = .str s ∧ dumps_key entry.1 = .ok s) ∧ ∃ j, encode entry.2 = .ok j ∧
    decode j = some pair.2

theorem decoded_entries {entries : List (Key × Value)} {js : List (String × Json)}
    {pairs : List (Key × Value)}
    (hjs : encode_entries entries = .ok js) (hpairs : decode_entries js = some pairs) :
    List.Forall₂ Decoded pairs entries := by
  induction entries generalizing js pairs with
  | nil =>
      cases hjs
      cases hpairs
      exact .nil
  | cons entry entries ih =>
      obtain ⟨s, j, rest, hkey, hj, hrest, rfl⟩ := encode_entries_cons hjs
      obtain ⟨w, hw, pairs', hpairs', rfl⟩ :
          ∃ w, decode j = some w ∧ ∃ pairs', decode_entries rest = some pairs' ∧
              (Key.str s, w) :: pairs' = pairs := by
        simpa [decode_entries, Option.bind_eq_some_iff] using hpairs
      exact .cons ⟨⟨s, rfl, hkey⟩, j, hj, hw⟩ (ih hrest hpairs')

theorem exists_entries {entries : List (Key × Value)}
    (h : ∀ entry ∈ entries, (∃ s, entry.1 = .str s) ∧ Survives entry.2) :
    ∃ js pairs, encode_entries entries = .ok js ∧ decode_entries js = some pairs ∧
      List.Forall₂ (fun pair entry => pair.1 = entry.1 ∧ Equal pair.2 entry.2) pairs entries := by
  induction entries with
  | nil => exact ⟨[], [], rfl, rfl, .nil⟩
  | cons entry entries ih =>
      obtain ⟨k, v⟩ := entry
      obtain ⟨⟨⟨s, hk⟩, j, w, hj, hw, hequal⟩, hrest⟩ := List.forall_mem_cons.mp h
      obtain ⟨js, pairs, hjs, hpairs, hsame⟩ := ih hrest
      simp only at hk hj hequal
      subst hk
      refine ⟨(s, j) :: js, (.str s, w) :: pairs, ?_, ?_, .cons ⟨rfl, hequal⟩ hsame⟩
      · simp [encode_entries, dumps_key, hj, hjs, bind, Except.bind, pure, Except.pure]
      · simp [decode_entries, hw, hpairs]

theorem keys_eq_of_forall₂ {pairs entries : List (Key × Value)}
    {R : Key × Value → Key × Value → Prop}
    (h : List.Forall₂ R pairs entries) (hkey : ∀ pair entry, entry ∈ entries → R pair entry →
      pair.1 = entry.1) :
    pairs.map Prod.fst = entries.map Prod.fst := by
  induction h with
  | nil => rfl
  | cons hhead _ ih =>
      rw [List.map_cons, List.map_cons, hkey _ _ List.mem_cons_self hhead,
        ih fun pair entry hentry => hkey pair entry (List.mem_cons_of_mem _ hentry)]

theorem mem_of_forall₂ {pairs entries : List (Key × Value)} {R : Key × Value → Key × Value → Prop}
    (h : List.Forall₂ R pairs entries) : (∀ entry ∈ entries, ∃ pair ∈ pairs, R pair entry) ∧
      ∀ pair ∈ pairs, ∃ entry ∈ entries, R pair entry := by
  induction h with
  | nil => simp
  | cons hhead _ ih =>
      constructor
      · refine List.forall_mem_cons.mpr ⟨⟨_, List.mem_cons_self, hhead⟩, fun entry hentry => ?_⟩
        obtain ⟨pair, hpair, hR⟩ := ih.1 entry hentry
        exact ⟨pair, List.mem_cons_of_mem _ hpair, hR⟩
      · refine List.forall_mem_cons.mpr ⟨⟨_, List.mem_cons_self, hhead⟩, fun pair hpair => ?_⟩
        obtain ⟨entry, hentry, hR⟩ := ih.2 pair hpair
        exact ⟨entry, List.mem_cons_of_mem _ hentry, hR⟩

theorem value_eq_of_nodup {entries : List (Key × Value)} (h : (entries.map Prod.fst).Nodup)
    {k : Key} {a b : Value} (ha : (k, a) ∈ entries) (hb : (k, b) ∈ entries) : a = b :=
  congrArg Prod.snd (List.inj_on_of_nodup_map h ha hb rfl)

-- A dict that comes back has the keys that it had, so they were str; then each of its values
-- has come back.
theorem survives_dict {entries : List (Key × Value)} (hnodup : (entries.map Prod.fst).Nodup) :
    Survives (.dict entries) ↔ ∀ entry ∈ entries, (∃ s, entry.1 = .str s) ∧ Survives entry.2 := by
  constructor
  · rintro ⟨j, w, hj, hw, hequal⟩
    cases hjs : encode_entries entries with
    | error e => simp [encode, hjs, Functor.map, Except.map] at hj
    | ok js =>
        simp only [encode, hjs, Functor.map, Except.map, Except.ok.injEq] at hj
        subst hj
        cases hpairs : decode_entries js with
        | none => simp [decode, hpairs] at hw
        | some pairs =>
            simp only [decode, hpairs, Option.map_eq_map, Option.map_some, Option.some.injEq] at hw
            subst hw
            have hdecoded := decoded_entries hjs hpairs
            cases hequal with
            | dict hkeys hvalues =>
                have hstr : ∀ entry ∈ entries, ∃ s, entry.1 = .str s := by
                  intro entry hentry
                  have hkey := (mem_keys_dict_of pairs _).mp
                    ((hkeys entry.1).mpr (List.mem_map_of_mem hentry))
                  obtain ⟨pair, hpair, heq⟩ := List.mem_map.mp hkey
                  obtain ⟨-, -, ⟨s, hs, -⟩, -⟩ := (mem_of_forall₂ hdecoded).2 pair hpair
                  exact ⟨s, heq ▸ hs⟩
                have hsame : ∀ pair entry, entry ∈ entries → Decoded pair entry →
                    pair.1 = entry.1 := by
                  rintro pair entry hentry ⟨⟨s, hs, hkey⟩, -⟩
                  obtain ⟨t, ht⟩ := hstr entry hentry
                  rw [ht] at hkey
                  cases hkey
                  exact hs.trans ht.symm
                have hmap := keys_eq_of_forall₂ hdecoded hsame
                rw [dict_of_eq (by rwa [hmap])] at hvalues
                intro entry hentry
                obtain ⟨pair, hpair, hrel⟩ := (mem_of_forall₂ hdecoded).1 entry hentry
                have hkey := hsame pair entry hentry hrel
                obtain ⟨-, j, hj, hw⟩ := hrel
                exact ⟨hstr entry hentry, j, pair.2, hj, hw,
                  hvalues entry.1 pair.2 entry.2 (hkey ▸ hpair) hentry⟩
  · intro h
    obtain ⟨js, pairs, hjs, hpairs, hsame⟩ := exists_entries h
    have hmap := keys_eq_of_forall₂ hsame fun _ _ _ hrel => hrel.1
    refine ⟨.obj js, .dict (dict_of pairs),
      by simp [encode, hjs, Functor.map, Except.map], by simp [decode, hpairs], ?_⟩
    rw [dict_of_eq (by rwa [hmap])]
    refine .dict (fun k => by rw [hmap]) fun k a b ha hb => ?_
    obtain ⟨⟨k', b'⟩, hentry, hkey, hequal⟩ := (mem_of_forall₂ hsame).2 _ ha
    simp only at hkey hequal
    subst hkey
    rw [value_eq_of_nodup hnodup hb hentry]
    exact hequal

end Survival

section Safe

-- Nothing is left to be made safe.
mutual

theorem to_json_safe_idem : (v : Value) → to_json_safe (to_json_safe v) = to_json_safe v
  | .None | .bool _ | .int _ | .float _ | .str _ | .bytes _ | .other _ => rfl
  | .list items => by simp only [to_json_safe, safe_items_idem items]
  | .tuple items => by simp only [to_json_safe, safe_items_idem items]
  | .dict entries => by simp only [to_json_safe, safe_entries_idem entries]
  | .object attributes => by simp only [to_json_safe, to_json_safe_idem attributes]

theorem safe_items_idem : (items : List Value) → safe_items (safe_items items) = safe_items items
  | [] => rfl
  | item :: items => by simp only [safe_items, to_json_safe_idem item, safe_items_idem items]

theorem safe_entries_idem : (entries : List (Key × Value)) →
    safe_entries (safe_entries entries) = safe_entries entries
  | [] => rfl
  | (k, v) :: entries => by simp only [safe_entries, to_json_safe_idem v, safe_entries_idem entries]

end

theorem keys_safe_entries (entries : List (Key × Value)) :
    (safe_entries entries).map Prod.fst = entries.map Prod.fst := by
  induction entries with
  | nil => rfl
  | cons entry entries ih => rw [safe_entries, List.map_cons, List.map_cons, ih]

mutual

theorem valid_safe : (v : Value) → Valid v → Valid (to_json_safe v)
  | .None, _ | .bool _, _ | .int _, _ | .str _, _ | .bytes _, _ | .other _, _ => trivial
  | .float _, h => h
  | .list items, h => valid_safe_items items h
  | .tuple items, h => valid_safe_items items h
  | .dict entries, h => ⟨keys_safe_entries entries ▸ h.1, valid_safe_entries entries h.2⟩
  | .object attributes, h => valid_safe attributes h

theorem valid_safe_items : (items : List Value) → ValidItems items → ValidItems (safe_items items)
  | [], _ => trivial
  | item :: items, h => ⟨valid_safe item h.1, valid_safe_items items h.2⟩

theorem valid_safe_entries : (entries : List (Key × Value)) → ValidEntries entries →
    ValidEntries (safe_entries entries)
  | [], _ => trivial
  | (_, v) :: entries, h => ⟨valid_safe v h.1, valid_safe_entries entries h.2⟩

end

theorem survives_int (n : ℤ) : Survives (.int n) ↔ printable_int n = true := by
  constructor
  · rintro ⟨j, w, hj, -, -⟩
    cases h : printable_int n with
    | true => rfl
    | false => simp [encode, h] at hj
  · intro h
    exact ⟨.int n, .int n, by rw [encode, if_pos h], by rw [decode, if_pos h], .int n⟩

theorem survives_float (text : String) : Survives (.float text) ↔ text ≠ "NaN" := by
  constructor
  · rintro ⟨j, w, hj, hw, hequal⟩
    cases hequal with
    | float h => exact h
  · intro h
    exact ⟨.float text, .float text, rfl, rfl, .float h⟩

-- One case per kind of value.
mutual

theorem survives_safe : (v : Value) → Valid v → (Survives (to_json_safe v) ↔ Plain v)
  | .None, _ => iff_of_true ⟨.null, .None, rfl, rfl, .None⟩ trivial
  | .bool b, _ => iff_of_true ⟨.bool b, .bool b, rfl, rfl, .bool b⟩ trivial
  | .int n, _ => survives_int n
  | .float text, _ => survives_float text
  | .str s, _ => iff_of_true ⟨.str s, .str s, rfl, rfl, .str s⟩ trivial
  | .bytes _, _ => iff_of_true ⟨.str _, .str _, rfl, rfl, .str _⟩ trivial
  | .other text, _ => iff_of_true ⟨.str text, .str text, rfl, rfl, .str text⟩ trivial
  | .list items, h => (survives_list _).trans (survives_safe_items items h)
  | .tuple items, h => (survives_list _).trans (survives_safe_items items h)
  | .dict entries, h =>
      (survives_dict (keys_safe_entries entries ▸ h.1)).trans (survives_safe_entries entries h.2)
  | .object attributes, h => survives_safe attributes h

theorem survives_safe_items : (items : List Value) → ValidItems items →
    ((∀ item ∈ safe_items items, Survives item) ↔ PlainItems items)
  | [], _ => iff_of_true (by simp [safe_items]) trivial
  | item :: items, h => by
      rw [safe_items, List.forall_mem_cons, survives_safe item h.1, survives_safe_items items h.2]
      rfl

theorem survives_safe_entries : (entries : List (Key × Value)) → ValidEntries entries →
    ((∀ entry ∈ safe_entries entries, (∃ s, entry.1 = .str s) ∧ Survives entry.2) ↔
      PlainEntries entries)
  | [], _ => iff_of_true (by simp [safe_entries]) trivial
  | (k, v) :: entries, h => by
      rw [safe_entries, List.forall_mem_cons, survives_safe v h.1,
        survives_safe_entries entries h.2]
      exact and_assoc

end

end Safe

section Text

-- One case per kind of value that is encoded.
mutual

theorem printable_encode : (v : Value) → (j : Json) → Valid v → encode v = .ok j → j.Printable
  | .None, _, _, h | .bool _, _, _, h | .str _, _, _, h => by
      cases h
      trivial
  | .int n, j, _, h => by
      cases hn : printable_int n with
      | true =>
          simp only [encode, hn, if_true, Except.ok.injEq] at h
          rw [← h]
          trivial
      | false => simp [encode, hn] at h
  | .float _, _, hv, h => by
      cases h
      exact hv
  | .list items, _, hv, h | .tuple items, _, hv, h => by
      cases hjs : encode_items items with
      | error e => simp [encode, hjs, Functor.map, Except.map] at h
      | ok js =>
          simp only [encode, hjs, Functor.map, Except.map, Except.ok.injEq] at h
          rw [← h]
          exact printable_encode_items items js hv hjs
  | .dict entries, _, hv, h => by
      cases hjs : encode_entries entries with
      | error e => simp [encode, hjs, Functor.map, Except.map] at h
      | ok js =>
          simp only [encode, hjs, Functor.map, Except.map, Except.ok.injEq] at h
          rw [← h]
          exact printable_encode_entries entries js hv.2 hjs
  | .bytes _, _, _, h | .object _, _, _, h | .other _, _, _, h => by cases h

theorem printable_encode_items : (items : List Value) → (js : List Json) → ValidItems items →
    encode_items items = .ok js → Json.PrintableItems js
  | [], _, _, h => by
      cases h
      trivial
  | item :: items, _, hv, h => by
      obtain ⟨j, rest, hj, hrest, rfl⟩ := encode_items_cons h
      exact ⟨printable_encode item j hv.1 hj, printable_encode_items items rest hv.2 hrest⟩

theorem printable_encode_entries : (entries : List (Key × Value)) → (js : List (String × Json)) →
    ValidEntries entries →
    encode_entries entries = .ok js → Json.PrintableEntries js
  | [], _, _, h => by
      cases h
      trivial
  | (_, v) :: entries, _, hv, h => by
      obtain ⟨_, j, rest, _, hj, hrest, rfl⟩ := encode_entries_cons h
      exact ⟨printable_encode v j hv.1 hj, printable_encode_entries entries rest hv.2 hrest⟩

end

-- Printing and parsing lose nothing.
theorem comesBack_iff {v : Value} (h : Valid v) : ComesBack v ↔ Survives v := by
  constructor
  · rintro ⟨text, w, htext, hw, hequal⟩
    cases hj : encode v with
    | error e => simp [dumps, hj, Functor.map, Except.map] at htext
    | ok j =>
        simp only [dumps, hj, Functor.map, Except.map, Except.ok.injEq] at htext
        rw [← htext, loads, Json.parse_render (printable_encode v j h hj)] at hw
        exact ⟨j, w, hj, hw, hequal⟩
  · rintro ⟨j, w, hj, hw, hequal⟩
    refine ⟨j.render, w, by simp [dumps, hj, Functor.map, Except.map], ?_, hequal⟩
    rw [loads, Json.parse_render (printable_encode v j h hj)]
    exact hw

end Text

-- `to_json_safe` gives JSON data, and gives it again, if and only if every key is a str, no
-- float is NaN and no int is too long.
theorem json_safe_iff {v : Value} (h : Valid v) :
    (ComesBack (to_json_safe v) ∧ to_json_safe (to_json_safe v) = to_json_safe v) ↔ Plain v := by
  rw [comesBack_iff (valid_safe v h), survives_safe v h]
  exact and_iff_left (to_json_safe_idem v)

-- A record with a tuple, a date and an object in it.
def record : Value := .dict [(.str "id", .int 7), (.str "at", .other "2024-05-01"),
  (.str "values", .tuple [.float "1.5e-07", .None]),
    (.str "owner", .object (.dict [(.str "name", .str "é")]))]

theorem json_safe_record : ComesBack (to_json_safe record) := by
  have hvalid : Valid record := by
    refine ⟨by decide, trivial, trivial, ⟨?_, trivial,
      trivial⟩, ⟨by decide, trivial, trivial⟩, trivial⟩
    exact (by decide : Json.isFloat "1.5e-07".toList = true)
  have hint : printable_int 7 = true := by decide +kernel
  have hplain : Plain record := by simp [record, Plain, PlainEntries, PlainItems, hint]
  exact ((json_safe_iff hvalid).mpr hplain).1

-- An int of 4301 digits.
@[irreducible] def long_int : ℤ := 10 ^ 4300

theorem long_int_not_printable : printable_int long_int = false := by decide +kernel

-- A key that is an int comes back as a str, a key of no basic type is refused, NaN is not equal
-- to itself, and a long int has no text.
theorem json_safe_fails :
    (∀ v ∈ [Value.dict [(.int 1, .None)], .dict [(.other "2024-05-01", .None)], .float "NaN",
        .int long_int],
      Valid v ∧ ¬ComesBack (to_json_safe v)) ∧
    dumps (to_json_safe (.dict [(.int 1, .None)])) = .ok (Json.render (.obj [("1", .null)])) ∧
    loads (Json.render (.obj [("1", .null)])) = some (.dict [(.str "1", .None)]) ∧
    dumps (to_json_safe (.dict [(.other "2024-05-01", .None)])) = .error .TypeError := by
  have hfails {v : Value} (hvalid : Valid v) (hplain : ¬Plain v) : Valid v ∧
      ¬ComesBack (to_json_safe v) := by
    refine ⟨hvalid, fun hback => hplain ?_⟩
    rwa [comesBack_iff (valid_safe v hvalid), survives_safe v hvalid] at hback
  have hone : printable_int 1 = true := by decide +kernel
  have htext : String.ofList (Json.renderInt 1) = "1" := by decide +kernel
  refine ⟨fun v hv => ?_, ?_, ?_, rfl⟩
  · simp only [List.mem_cons, List.not_mem_nil, or_false] at hv
    rcases hv with hv | hv | hv | hv <;> rw [hv]
    · exact hfails ⟨by decide, trivial, trivial⟩ fun h => by simp [Plain, PlainEntries] at h
    · exact hfails ⟨by decide, trivial, trivial⟩ fun h => by simp [Plain, PlainEntries] at h
    · exact hfails (by decide : Json.isFloat "NaN".toList = true) fun h => h rfl
    · exact hfails trivial fun h => by simp [Plain, long_int_not_printable] at h
  · simp [dumps, to_json_safe, safe_entries, encode, encode_entries, dumps_key, hone, htext, bind,
      Except.bind, pure,
      Except.pure, Functor.map, Except.map]
  · rw [loads, Json.parse_render (j := .obj [("1", .null)]) ⟨trivial, trivial⟩]
    rfl

end Reflowfy.PyJson
