import Reflowfy.Serialization.JsonData

namespace Reflowfy.PyJson

-- What the reader of a message gets: `json.loads(json.dumps(to_json_safe(value)))`.
def wire (v : Value) : Option Value :=
  match dumps (to_json_safe v) with
  | .ok text => loads text
  | .error _ => none

-- The same before the tree is printed.
def carry (v : Value) : Option Value := (encode (to_json_safe v)).toOption.bind decode

theorem wire_eq_carry {v : Value} (h : Valid v) : wire v = carry v := by
  unfold wire carry dumps
  cases hj : encode (to_json_safe v) with
  | error e => rfl
  | ok j => exact congrArg (Option.bind · decode) (Json.parse_render
      (printable_encode _ j (valid_safe v h) hj))

section Containers

theorem carry_items (items : List Value) (ws : List Value) :
    (∃ js, encode_items (safe_items items) = .ok js ∧ decode_items js = some ws) ↔
      List.Forall₂ (fun item w => carry item = some w) items ws := by
  induction items generalizing ws with
  | nil =>
      constructor
      · rintro ⟨js, hjs, hws⟩
        cases hjs
        cases hws
        exact .nil
      · intro h
        cases h
        exact ⟨[], rfl, rfl⟩
  | cons item items ih =>
      constructor
      · rintro ⟨js, hjs, hws⟩
        obtain ⟨j, rest, hj, hrest, rfl⟩ := encode_items_cons hjs
        obtain ⟨w, hw, ws', hws', rfl⟩ : ∃ w, decode j = some w ∧
            ∃ ws', decode_items rest = some ws' ∧ w :: ws' = ws := by
          simpa [decode_items, Option.bind_eq_some_iff] using hws
        exact .cons (by rw [carry, hj]; exact hw) ((ih ws').mp ⟨rest, hrest, hws'⟩)
      · intro h
        cases h with
        | @cons _ w _ ws' hhead htail =>
            obtain ⟨rest, hrest, hws'⟩ := (ih ws').mpr htail
            cases hj : encode (to_json_safe item) with
            | error e =>
                rw [carry, hj] at hhead
                cases hhead
            | ok j =>
                rw [carry, hj] at hhead
                refine ⟨j :: rest, by simp [safe_items, encode_items, hj, hrest, bind, Except.bind,
                  pure, Except.pure], ?_⟩
                simp [decode_items, show decode j = some w from hhead, hws']

theorem carry_list_iff {items : List Value} {w : Value} : carry (.list items) = some w ↔
    ∃ ws, w = .list ws ∧ List.Forall₂ (fun item w => carry item = some w) items ws := by
  simp only [← carry_items]
  unfold carry
  simp only [to_json_safe, encode]
  cases hjs : encode_items (safe_items items) with
  | error e => simp [Functor.map, Except.map, Except.toOption]
  | ok js => simp [Functor.map, Except.map, Except.toOption, decode, eq_comm, and_comm]

theorem carry_tuple (items : List Value) : carry (.tuple items) = carry (.list items) := rfl

theorem carry_entries {entries : List (Key × Value)}
    (hkeys : ∀ entry ∈ entries, ∃ s, entry.1 = .str s) (es : List (Key × Value)) :
      (∃ js, encode_entries (safe_entries entries) = .ok js ∧ decode_entries js = some es) ↔
      List.Forall₂ (fun entry e => e.1 = entry.1 ∧ carry entry.2 = some e.2) entries es := by
  induction entries generalizing es with
  | nil =>
      constructor
      · rintro ⟨js, hjs, hes⟩
        cases hjs
        cases hes
        exact .nil
      · intro h
        cases h
        exact ⟨[], rfl, rfl⟩
  | cons entry entries ih =>
      obtain ⟨⟨s, hs⟩, hrestkeys⟩ := List.forall_mem_cons.mp hkeys
      obtain ⟨k, v⟩ := entry
      obtain rfl : k = .str s := hs
      constructor
      · rintro ⟨js, hjs, hes⟩
        obtain ⟨_, j, rest, hkey, hj, hrest, rfl⟩ := encode_entries_cons hjs
        cases hkey
        obtain ⟨w, hw, es', hes', rfl⟩ :
            ∃ w, decode j = some w ∧ ∃ es', decode_entries rest = some es' ∧
                (Key.str s, w) :: es' = es := by
          simpa [decode_entries, Option.bind_eq_some_iff] using hes
        exact .cons ⟨rfl, by rw [carry, hj]; exact hw⟩ ((ih hrestkeys es').mp ⟨rest, hrest, hes'⟩)
      · intro h
        cases h with
        | @cons _ e _ es' hhead htail =>
            obtain ⟨k', w⟩ := e
            obtain ⟨rfl, hw⟩ := hhead
            obtain ⟨rest, hrest, hes'⟩ := (ih hrestkeys es').mpr htail
            cases hj : encode (to_json_safe v) with
            | error e =>
                rw [carry, hj] at hw
                cases hw
            | ok j =>
                rw [carry, hj] at hw
                refine ⟨(s, j) :: rest, ?_, ?_⟩
                · simp [safe_entries, encode_entries, dumps_key, hj, hrest, bind, Except.bind,
                    pure, Except.pure]
                · simp [decode_entries, show decode j = some w from hw, hes']

-- A dict whose keys are str, none of them twice.
theorem carry_dict_iff {entries : List (Key × Value)} {w : Value}
    (hnodup : (entries.map Prod.fst).Nodup)
    (hkeys : ∀ entry ∈ entries, ∃ s, entry.1 = .str s) : carry (.dict entries) = some w ↔
      ∃ es, w = .dict es ∧
        List.Forall₂ (fun entry e => e.1 = entry.1 ∧ carry entry.2 = some e.2) entries es := by
  simp only [← carry_entries hkeys]
  unfold carry
  simp only [to_json_safe, encode]
  cases hjs : encode_entries (safe_entries entries) with
  | error e => simp [Functor.map, Except.map, Except.toOption]
  | ok js =>
      cases hes : decode_entries js with
      | none => simp [Functor.map, Except.map, Except.toOption, decode, hes]
      | some es =>
          have hsame := (carry_entries hkeys es).mp ⟨js, hjs, hes⟩
          have hmap : es.map Prod.fst = entries.map Prod.fst :=
            keys_eq_of_forall₂ (List.Forall₂.flip hsame) fun _ _ _ hentry => hentry.1
          have hdict : dict_of es = es := dict_of_eq (by rwa [hmap])
          simp [Functor.map, Except.map, Except.toOption, decode, hes, hdict, eq_comm]

end Containers

section Decoded

theorem mem_put {d : List (Key × Value)} {entry other : Key × Value} (h : other ∈ put d entry) :
    other ∈ d ∨ other = entry := by
  unfold put at h
  split at h
  · obtain ⟨x, hx, heq⟩ := List.mem_map.mp h
    split at heq
    · exact .inr heq.symm
    · exact .inl (heq ▸ hx)
  · exact (List.mem_append.mp h).imp_right List.mem_singleton.mp

theorem mem_dict_of {pairs : List (Key × Value)} {entry : Key × Value} (h : entry ∈ dict_of pairs) :
    entry ∈ pairs := by
  have hall : ∀ pairs d : List (Key × Value), entry ∈ pairs.foldl put d → entry ∈ d ∨
      entry ∈ pairs := by
    intro pairs
    induction pairs with
    | nil => exact fun d h => .inl h
    | cons pair pairs ih =>
        intro d h
        rcases ih _ h with hput | hrest
        · exact (mem_put hput).imp_right fun heq => by rw [heq]; exact List.mem_cons_self
        · exact .inr (List.mem_cons_of_mem _ hrest)
  exact (hall pairs [] h).resolve_left List.not_mem_nil

theorem nodup_dict_of (pairs : List (Key × Value)) : ((dict_of pairs).map Prod.fst).Nodup := by
  have hall : ∀ pairs d : List (Key × Value), (d.map Prod.fst).Nodup →
      ((pairs.foldl put d).map Prod.fst).Nodup := by
    intro pairs
    induction pairs with
    | nil => exact fun d h => h
    | cons pair pairs ih =>
        intro d h
        refine ih _ ?_
        rw [keys_put]
        split
        · exact h
        · rename_i hnew
          exact List.nodup_append.mpr ⟨h, List.nodup_singleton _, fun k hk k' hk' heq => hnew (by
            rw [← List.mem_singleton.mp hk', ← heq]
            exact hk)⟩
  exact hall pairs [] List.nodup_nil

theorem safe_items_eq (items : List Value) : safe_items items = items.map to_json_safe := by
  induction items with
  | nil => rfl
  | cons item items ih => rw [safe_items, ih, List.map_cons]

theorem safe_entries_eq (entries : List (Key × Value)) :
    safe_entries entries = entries.map fun entry => (entry.1, to_json_safe entry.2) := by
  induction entries with
  | nil => rfl
  | cons entry entries ih => rw [safe_entries, ih, List.map_cons]

theorem valid_entries_iff {entries : List (Key × Value)} : ValidEntries entries ↔
    ∀ entry ∈ entries, Valid entry.2 := by
  induction entries with
  | nil => simp [ValidEntries]
  | cons entry entries ih => simp [ValidEntries, ih]

-- What has come over the wire: it is JSON data, and comes over it again as it is.
def Carried (w : Value) : Prop := to_json_safe w = w ∧ carry w = some w

theorem carried_list {ws : List Value} (h : ∀ w ∈ ws, Carried w) : Carried (.list ws) := by
  constructor
  · rw [to_json_safe, safe_items_eq, List.map_congr_left fun w hw => (h w hw).1, List.map_id']
  · exact carry_list_iff.mpr ⟨ws, rfl, List.forall₂_same.mpr fun w hw => (h w hw).2⟩

theorem carried_dict {es : List (Key × Value)} (hnodup : (es.map Prod.fst).Nodup)
    (h : ∀ e ∈ es, (∃ s, e.1 = .str s) ∧ Carried e.2) : Carried (.dict es) := by
  constructor
  · rw [to_json_safe, safe_entries_eq, List.map_congr_left fun e he => by
      rw [(h e he).2.1], List.map_id']
  · exact (carry_dict_iff hnodup fun e he => (h e he).1).mpr
      ⟨es, rfl, List.forall₂_same.mpr fun e he => ⟨rfl, (h e he).2.2⟩⟩

-- One case per kind of JSON value.
mutual

theorem carried_decode : (j : Json) → (w : Value) → decode j = some w → Carried w
  | .null, _, h | .bool _, _, h | .float _, _, h | .str _, _, h => by
      cases h
      exact ⟨rfl, rfl⟩
  | .int n, w, h => by
      simp only [decode] at h
      split at h
      · rename_i hn
        cases h
        exact ⟨rfl, by simp [carry, to_json_safe, encode, hn, Except.toOption, decode]⟩
      · cases h
  | .list items, w, h => by
      obtain ⟨ws, hws, rfl⟩ : ∃ ws, decode_items items = some ws ∧ .list ws = w := by
        simpa [decode] using h
      exact carried_list (carried_items items ws hws)
  | .obj entries, w, h => by
      obtain ⟨es, hes, rfl⟩ : ∃ es, decode_entries entries = some es ∧ .dict (dict_of es) = w := by
        simpa [decode] using h
      exact carried_dict (nodup_dict_of es) fun e he =>
        carried_entries entries es hes e (mem_dict_of he)

theorem carried_items : (items : List Json) → (ws : List Value) → decode_items items = some ws →
    ∀ w ∈ ws, Carried w
  | [], _, h => by
      cases h
      exact fun w hw => absurd hw List.not_mem_nil
  | item :: items, ws, h => by
      obtain ⟨w, hw, ws', hws', rfl⟩ : ∃ w, decode item = some w ∧
          ∃ ws', decode_items items = some ws' ∧ w :: ws' = ws := by
        simpa [decode_items, Option.bind_eq_some_iff] using h
      exact List.forall_mem_cons.mpr ⟨carried_decode item w hw, carried_items items ws' hws'⟩

theorem carried_entries : (entries : List (String × Json)) → (es : List (Key × Value)) →
    decode_entries entries = some es → ∀ e ∈ es, (∃ s, e.1 = .str s) ∧ Carried e.2
  | [], _, h => by
      cases h
      exact fun e he => absurd he List.not_mem_nil
  | (k, j) :: entries, es, h => by
      obtain ⟨w, hw, es', hes', rfl⟩ :
          ∃ w, decode j = some w ∧ ∃ es', decode_entries entries = some es' ∧
              (Key.str k, w) :: es' = es := by
        simpa [decode_entries, Option.bind_eq_some_iff] using h
      exact List.forall_mem_cons.mpr
        ⟨⟨⟨k, rfl⟩, carried_decode j w hw⟩, carried_entries entries es' hes'⟩

end

theorem carried_of_carry {v w : Value} (h : carry v = some w) : Carried w := by
  obtain ⟨j, -, hj⟩ := Option.bind_eq_some_iff.mp h
  exact carried_decode j w hj

-- The floats of a text are printed again as they are.
mutual

theorem valid_decode : (j : Json) → (w : Value) → j.Printable → decode j = some w → Valid w
  | .null, _, _, h | .bool _, _, _, h | .str _, _, _, h => by
      cases h
      trivial
  | .int n, w, _, h => by
      simp only [decode] at h
      split at h
      · cases h
        trivial
      · cases h
  | .float _, _, hp, h => by
      cases h
      exact hp
  | .list items, w, hp, h => by
      obtain ⟨ws, hws, rfl⟩ : ∃ ws, decode_items items = some ws ∧ .list ws = w := by
        simpa [decode] using h
      exact valid_decode_items items ws hp hws
  | .obj entries, w, hp, h => by
      obtain ⟨es, hes, rfl⟩ : ∃ es, decode_entries entries = some es ∧ .dict (dict_of es) = w := by
        simpa [decode] using h
      exact ⟨nodup_dict_of es, valid_entries_iff.mpr fun e he =>
        valid_decode_entries entries es hp hes e (mem_dict_of he)⟩

theorem valid_decode_items : (items : List Json) → (ws : List Value) → Json.PrintableItems items →
    decode_items items = some ws → ValidItems ws
  | [], _, _, h => by
      cases h
      trivial
  | item :: items, ws, hp, h => by
      obtain ⟨w, hw, ws', hws', rfl⟩ : ∃ w, decode item = some w ∧
          ∃ ws', decode_items items = some ws' ∧ w :: ws' = ws := by
        simpa [decode_items, Option.bind_eq_some_iff] using h
      exact ⟨valid_decode item w hp.1 hw, valid_decode_items items ws' hp.2 hws'⟩

theorem valid_decode_entries : (entries : List (String × Json)) → (es : List (Key × Value)) →
    Json.PrintableEntries entries → decode_entries entries = some es → ∀ e ∈ es, Valid e.2
  | [], _, _, h => by
      cases h
      exact fun e he => absurd he List.not_mem_nil
  | (k, j) :: entries, es, hp, h => by
      obtain ⟨w, hw, es', hes', rfl⟩ :
          ∃ w, decode j = some w ∧ ∃ es', decode_entries entries = some es' ∧
              (Key.str k, w) :: es' = es := by
        simpa [decode_entries, Option.bind_eq_some_iff] using h
      exact List.forall_mem_cons.mpr
        ⟨valid_decode j w hp.1 hw, valid_decode_entries entries es' hp.2 hes'⟩

end

theorem valid_of_carry {v w : Value} (h : Valid v) (hw : carry v = some w) : Valid w := by
  obtain ⟨j, hj, hdecode⟩ := Option.bind_eq_some_iff.mp hw
  refine valid_decode j w (printable_encode _ j (valid_safe v h) ?_) hdecode
  cases he : encode (to_json_safe v) with
  | error e =>
      rw [he] at hj
      cases hj
  | ok j' =>
      rw [he] at hj
      cases hj
      rfl

end Decoded

end Reflowfy.PyJson
