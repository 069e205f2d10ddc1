import Reflowfy.DestinationIdentity
import Mathlib.Data.List.Basic

namespace Reflowfy

-- Equal but for what dicts, at any depth, have at hidden keys.
inductive EqExcept (hidden : Key → Prop) : Value → Value → Prop
  | leaf {v : Value} (hlist : ∀ items, v ≠ .list items) (hdict : ∀ entries, v ≠ .dict entries) :
      EqExcept hidden v v
  | list {xs ys : List Value} (hlen : xs.length = ys.length)
      (hitems : ∀ (i : ℕ) a b, xs[i]? = some a → ys[i]? = some b → EqExcept hidden a b) :
      EqExcept hidden (.list xs) (.list ys)
  | dict {xs ys : Entries} (hkeys : ∀ k, ¬hidden k → (k ∈ xs.map Prod.fst ↔ k ∈ ys.map Prod.fst))
      (hvalues : ∀ k a b, ¬hidden k → (k, a) ∈ xs → (k, b) ∈ ys → EqExcept hidden a b) :
      EqExcept hidden (.dict xs) (.dict ys)

-- Equal, whatever the order in which dicts have their entries.
abbrev Equal : Value → Value → Prop := EqExcept fun _ => False

variable {hidden : Key → Prop} {is_secret : Key → Bool} {xs ys : Entries} {v w : Value}

section EqExcept

theorem EqExcept.mono {hidden' : Key → Prop} (h : EqExcept hidden v w)
    (hle : ∀ k, hidden k → hidden' k) :
    EqExcept hidden' v w := by
  induction h with
  | leaf hlist hdict => exact .leaf hlist hdict
  | list hlen _ ih => exact .list hlen ih
  | dict hkeys _ ih =>
      exact .dict (fun k hk => hkeys k (mt (hle k) hk)) fun k a b hk => ih k a b (mt (hle k) hk)

theorem eqExcept_dict_iff : EqExcept hidden (.dict xs) (.dict ys) ↔
    (∀ k, ¬hidden k → (k ∈ xs.map Prod.fst ↔ k ∈ ys.map Prod.fst)) ∧
      ∀ k a b, ¬hidden k → (k, a) ∈ xs → (k, b) ∈ ys → EqExcept hidden a b := by
  constructor
  · intro h
    cases h with
    | leaf _ hdict => exact absurd rfl (hdict _)
    | dict hkeys hvalues => exact ⟨hkeys, hvalues⟩
  · rintro ⟨hkeys, hvalues⟩
    exact .dict hkeys hvalues

theorem eqExcept_list_iff {xs ys : List Value} : EqExcept hidden (.list xs) (.list ys) ↔
    xs.length = ys.length ∧ ∀ (i : ℕ) a b, xs[i]? = some a → ys[i]? = some b →
      EqExcept hidden a b := by
  constructor
  · intro h
    cases h with
    | leaf hlist _ => exact absurd rfl (hlist _)
    | list hlen hitems => exact ⟨hlen, hitems⟩
  · rintro ⟨hlen, hitems⟩
    exact .list hlen hitems

theorem eqExcept_leaf_iff (hlist : ∀ items, v ≠ .list items)
    (hdict : ∀ entries, v ≠ .dict entries) :
    EqExcept hidden v w ↔ v = w := by
  constructor
  · intro h
    cases h with
    | leaf _ _ => rfl
    | list _ _ => exact absurd rfl (hlist _)
    | dict _ _ => exact absurd rfl (hdict _)
  · rintro rfl
    exact .leaf hlist hdict

theorem eqExcept_single_iff {k : Key} :
    EqExcept hidden (.dict [(k, v)]) (.dict [(k, w)]) ↔ (¬hidden k → EqExcept hidden v w) := by
  rw [eqExcept_dict_iff]
  constructor
  · rintro ⟨-, hvalues⟩ hk
    exact hvalues k v w hk (by simp) (by simp)
  · intro h
    refine ⟨by simp, fun k' a b hk ha hb => ?_⟩
    simp only [List.mem_singleton, Prod.mk.injEq] at ha hb
    obtain ⟨⟨rfl, rfl⟩, -, rfl⟩ := And.intro ha hb
    exact h hk

-- The keys of a dict.
abbrev Entries.keys (entries : Entries) : List Key := entries.map Prod.fst

-- Dicts in two parts with keys of their own are compared part by part.
theorem eqExcept_append_iff {xs' ys' : Entries} (front back : List Key)
    (hdisjoint : ∀ k ∈ front, k ∉ back)
    (hx : xs.keys ⊆ front) (hy : ys.keys ⊆ front) (hx' : xs'.keys ⊆ back) (hy' : ys'.keys ⊆ back) :
    EqExcept hidden (.dict (xs ++ xs')) (.dict (ys ++ ys')) ↔
      EqExcept hidden (.dict xs) (.dict ys) ∧ EqExcept hidden (.dict xs') (.dict ys') := by
  have hkeys : ∀ k, k ∈ xs.keys ∨ k ∈ ys.keys → k ∉ xs'.keys ∧ k ∉ ys'.keys := fun k hk =>
    have hfront := hk.elim (fun h => hx h) fun h => hy h
    ⟨fun h => hdisjoint k hfront (hx' h), fun h => hdisjoint k hfront (hy' h)⟩
  have hkey : ∀ {entries : Entries} {k v}, (k, v) ∈ entries → k ∈ entries.map Prod.fst :=
    fun hmem => List.mem_map.mpr ⟨_, hmem, rfl⟩
  simp only [eqExcept_dict_iff, List.map_append, List.mem_append]
  constructor
  · rintro ⟨hsame, hvalues⟩
    refine ⟨⟨fun k hk => ?_, fun k a b hk ha hb => hvalues k a b hk (.inl ha) (.inl hb)⟩,
      fun k hk => ?_, fun k a b hk ha hb => hvalues k a b hk (.inr ha) (.inr hb)⟩
    · have := hsame k hk
      have := hkeys k
      tauto
    · have := hsame k hk
      have := hkeys k
      tauto
  · rintro ⟨⟨hfirst, hvalues⟩, hsecond, hvalues'⟩
    refine ⟨fun k hk => by rw [hfirst k hk, hsecond k hk], fun k a b hk ha hb => ?_⟩
    rcases ha with ha | ha <;> rcases hb with hb | hb
    · exact hvalues k a b hk ha hb
    · exact absurd (hkey hb) (hkeys k (.inl (hkey ha))).2
    · exact absurd (hkey ha) (hkeys k (.inr (hkey hb))).1
    · exact hvalues' k a b hk ha hb

end EqExcept

section Strip

theorem strip_items_eq (items : List Value) :
    strip_items is_secret items = items.map (strip_secrets is_secret) := by
  induction items with
  | nil => rfl
  | cons item items ih => rw [strip_items, ih, List.map_cons]

theorem mem_strip_entries {entries : Entries} {k : Key} {v : Value} :
    (k, v) ∈ strip_entries is_secret entries ↔
    ¬is_secret k = true ∧ ∃ a, (k, a) ∈ entries ∧ strip_secrets is_secret a = v := by
  induction entries with
  | nil => simp [strip_entries]
  | cons entry entries ih =>
      obtain ⟨k', a⟩ := entry
      by_cases hsecret : is_secret k' = true
      · simp only [strip_entries, hsecret, if_true, ih, List.mem_cons, Prod.mk.injEq]
        grind
      · simp only [strip_entries, hsecret, Bool.false_eq_true, if_false, List.mem_cons,
          Prod.mk.injEq, ih]
        grind

theorem mem_strip_keys {entries : Entries} {k : Key} :
    k ∈ (strip_entries is_secret entries).map Prod.fst ↔
    ¬is_secret k = true ∧ k ∈ entries.map Prod.fst := by
  simp only [List.mem_map, Prod.exists, exists_and_right, exists_eq_right, mem_strip_entries]
  constructor
  · rintro ⟨_, hk, a, ha, -⟩
    exact ⟨hk, a, ha⟩
  · rintro ⟨hk, a, ha⟩
    exact ⟨_, hk, a, ha, rfl⟩

theorem strip_leaf_iff (hlist : ∀ items, v ≠ .list items) (hdict : ∀ entries, v ≠ .dict entries) :
    Equal (strip_secrets is_secret v) (strip_secrets is_secret w) ↔
      EqExcept (fun k => is_secret k = true) v w := by
  have hstrip : strip_secrets is_secret v = v := by
    cases v <;> simp_all [strip_secrets]
  have hsame : v = strip_secrets is_secret w ↔ v = w := by
    cases v <;> cases w <;> simp_all [strip_secrets]
  rw [hstrip]
  exact (eqExcept_leaf_iff hlist hdict).trans (hsame.trans (eqExcept_leaf_iff hlist hdict).symm)

-- One case per kind of value; items and entries come by recursion along them.
mutual

theorem strip_eq_iff : (v w : Value) →
    (Equal (strip_secrets is_secret v) (strip_secrets is_secret w) ↔
    EqExcept (fun k => is_secret k = true) v w)
  | .dict xs, w => by
      have ih := strip_entry_iff xs
      cases w with
      | dict ys =>
          simp only [strip_secrets, eqExcept_dict_iff, mem_strip_keys, mem_strip_entries,
            not_false_eq_true, forall_const]
          constructor
          · rintro ⟨hkeys, hvalues⟩
            refine ⟨fun k hk => by simpa [hk] using hkeys k, fun k a b hk ha hb => ?_⟩
            exact (ih k a ha b).mp (hvalues k _ _ ⟨hk, a, ha, rfl⟩ ⟨hk, b, hb, rfl⟩)
          · rintro ⟨hkeys, hvalues⟩
            refine ⟨fun k => and_congr_right fun hk => hkeys k hk, ?_⟩
            rintro k _ _ ⟨hk, a, ha, rfl⟩ ⟨-, b, hb, rfl⟩
            exact (ih k a ha b).mpr (hvalues k a b hk ha hb)
      | _ => exact iff_of_false (fun h => by cases h) fun h => by cases h
  | .list xs, w => by
      have ih := strip_item_iff xs
      cases w with
      | list ys =>
          simp only [strip_secrets, strip_items_eq, eqExcept_list_iff, List.length_map,
            List.getElem?_map,
            Option.map_eq_some_iff]
          refine and_congr_right fun _ => forall_congr' fun i => ?_
          constructor
          · intro h a b ha hb
            exact (ih a (List.mem_of_getElem? ha) b).mp (h _ _ ⟨a, ha, rfl⟩ ⟨b, hb, rfl⟩)
          · rintro h _ _ ⟨a, ha, rfl⟩ ⟨b, hb, rfl⟩
            exact (ih a (List.mem_of_getElem? ha) b).mpr (h a b ha hb)
      | _ => exact iff_of_false (fun h => by cases h) fun h => by cases h
  | .None, _ | .bool _, _ | .int _, _ | .float _, _ | .str _, _ | .bytes _, _ | .tuple _, _
  | .object _, _ | .other _, _ =>
      strip_leaf_iff (by simp) (by simp)

theorem strip_item_iff : (xs : List Value) →
    ∀ a ∈ xs, ∀ b, (Equal (strip_secrets is_secret a) (strip_secrets is_secret b) ↔
    EqExcept (fun k => is_secret k = true) a b)
  | [] => nofun
  | x :: xs => by
      intro a ha
      rcases List.mem_cons.mp ha with heq | ha
      · rw [heq]
        exact strip_eq_iff x
      · exact strip_item_iff xs a ha

theorem strip_entry_iff : (xs : Entries) → ∀ k a, (k, a) ∈ xs → ∀ b,
    (Equal (strip_secrets is_secret a) (strip_secrets is_secret b) ↔
      EqExcept (fun k => is_secret k = true) a b)
  | [] => nofun
  | (_, x) :: xs => by
      intro k a ha
      rcases List.mem_cons.mp ha with heq | ha
      · cases heq
        exact strip_eq_iff x
      · exact strip_entry_iff xs k a ha

end

end Strip

-- A key has one of these words in it, in whatever style it is written: in capitals, with dashes or
-- without.
def Marked (k : Key) : Prop :=
  ∃ word ∈ ["password", "secret", "token", "credential", "auth", "apikey"],
    word.toList <:+: (k.text.toList.map lower).filter fun c => c ≠ '-' ∧ c ≠ '_'

theorem is_secret_key_iff {k : Key} : is_secret_key k = true ↔ Marked k := by
  rw [is_secret_key, List.any_eq_true]
  exact exists_congr fun word => and_congr_right fun _ => decide_eq_true_iff

theorem marked_eq : (fun k => is_secret_key k = true) = Marked :=
  funext fun _ => propext is_secret_key_iff

namespace Destination

-- The settings that do not say where records are written: how fast, and the headers of Kafka's
-- messages.
def tuning (d : Destination) (k : Key) : Bool :=
  match d.kind with
  | .api _ => k = .str "concurrency"
  | .kafka _ => k = .str "concurrency" ∨ k = .str "headers"
  | .other _ => false

def declared (d : Destination) : Bool := !d.dedup_identity.isNone

-- What is to tell two destinations of a class apart: a declared identity, or else the config.
def settings (d : Destination) : Value :=
  if d.declared then d.dedup_identity else .dict (d.config.filter fun entry => !d.tuning entry.1)

-- Destinations of one class.
inductive SameClass : Destination → Destination → Prop
  | api (type_name : String) (c c' : ApiConfig) (explicit explicit' : Value) :
      SameClass ⟨type_name, .api c, explicit⟩ ⟨type_name, .api c', explicit'⟩
  | kafka (type_name : String) (config config' : Entries) (explicit explicit' : Value) :
      SameClass ⟨type_name, .kafka config, explicit⟩ ⟨type_name, .kafka config', explicit'⟩
  | other (type_name : String) (config config' : Entries) (explicit explicit' : Value) :
      SameClass ⟨type_name, .other config, explicit⟩ ⟨type_name, .other config', explicit'⟩

end Destination

section Api

-- A setting that is left out when unset.
def part (k : String) (o : Option Value) : Entries := (o.map fun v => (Key.str k, v)).toList

theorem part_keys (k : String) (o : Option Value) : (part k o).keys ⊆ [.str k] := by
  cases o <;> simp [part]

theorem eqExcept_part_iff {k : String} {o o' : Option Value} (hk : ¬hidden (.str k)) :
    EqExcept hidden (.dict (part k o)) (.dict (part k o')) ↔
      (o = none ↔ o' = none) ∧ ∀ v w, o = some v → o' = some w → EqExcept hidden v w := by
  cases o with
  | none =>
      cases o' with
      | none => simp [part, eqExcept_dict_iff]
      | some w =>
          refine iff_of_false (fun h => ?_) (by simp)
          simpa [part] using (eqExcept_dict_iff.mp h).1 (.str k) hk
  | some v =>
      cases o' with
      | none =>
          refine iff_of_false (fun h => ?_) (by simp)
          simpa [part] using (eqExcept_dict_iff.mp h).1 (.str k) hk
      | some w =>
          refine eqExcept_single_iff.trans ?_
          simp [hk]

-- The settings whose values `identity_config` leaves as they are.
def ApiConfig.base (c : ApiConfig) : Entries :=
  [(.str "url", c.url), (.str "method", c.method), (.str "headers", c.headers),
    (.str "auth_type", c.auth_type), (.str "auth_token", c.auth_token), (.str "timeout", c.timeout),
    (.str "params", c.params), (.str "body", c.body),
    (.str "health_check_enabled", c.health_check_enabled)]

theorem api_identity_config_eq (c : ApiConfig) : Destination.api_identity_config c.config =
    c.base ++ (part "per_record" (if c.per_record then some (.bool true) else none) ++
      (part "params_field" (c.params_field.map .str) ++
        part "key_field" (c.body_field.map .str))) := by
  obtain ⟨url, method, headers, auth_type, auth_token, timeout, params, body, health, per_record,
    body_field, concurrency,
    params_field⟩ := c
  cases per_record <;> cases body_field <;> cases params_field <;> rfl

theorem api_settings_eq (c : ApiConfig) :
    c.config.filter (fun entry => !decide (entry.1 = .str "concurrency")) =
    c.base ++ ([(.str "per_record", .bool c.per_record)] ++
      ([(.str "body_field", optional c.body_field)] ++
        [(.str "params_field", optional c.params_field)])) := rfl

theorem eqExcept_str_iff {s s' : String} : EqExcept hidden (.str s) (.str s') ↔ s = s' := by
  rw [eqExcept_leaf_iff (by simp) (by simp), Value.str.injEq]

theorem eqExcept_bool_iff {b b' : Bool} : EqExcept hidden (.bool b) (.bool b') ↔ b = b' := by
  rw [eqExcept_leaf_iff (by simp) (by simp), Value.bool.injEq]

theorem eqExcept_optional_iff {s s' : Option String} :
    EqExcept hidden (optional s) (optional s') ↔ s = s' := by
  rw [eqExcept_leaf_iff (by cases s <;> simp [optional]) (by cases s <;> simp [optional])]
  cases s <;> cases s' <;> simp [optional]

theorem base_keys (c : ApiConfig) :
    c.base.keys ⊆ [.str "url", .str "method", .str "headers", .str "auth_type",
    .str "auth_token", .str "timeout", .str "params", .str "body",
      .str "health_check_enabled"] := by
  simp [ApiConfig.base]

theorem append_keys {front back : List Key} (hx : xs.keys ⊆ front) (hy : ys.keys ⊆ back) :
    (xs ++ ys).keys ⊆ front ++ back := by
  rw [Entries.keys, List.map_append]
  exact List.append_subset.mpr
    ⟨List.Subset.trans hx (List.subset_append_left ..),
      List.Subset.trans hy (List.subset_append_right ..)⟩

-- What `identity_config` tells apart, and what the settings do.
theorem api_identity_config_split (c c' : ApiConfig) :
    EqExcept (fun k => is_secret_key k = true) (.dict (Destination.api_identity_config c.config))
        (.dict (Destination.api_identity_config c'.config)) ↔
      EqExcept (fun k => is_secret_key k = true) (.dict c.base) (.dict c'.base) ∧
        c.per_record = c'.per_record ∧
        c.params_field = c'.params_field ∧ c.body_field = c'.body_field := by
  have hback := fun c : ApiConfig =>
    append_keys (part_keys "params_field" (c.params_field.map .str))
    (part_keys "key_field" (c.body_field.map .str))
  rw [api_identity_config_eq, api_identity_config_eq,
    eqExcept_append_iff _ _ (by decide) (base_keys c) (base_keys c')
      (append_keys (part_keys _ _) (hback c))
      (append_keys (part_keys _ _) (hback c')),
    eqExcept_append_iff _ _ (by decide) (part_keys _ _) (part_keys _ _) (hback c) (hback c'),
    eqExcept_append_iff _ _ (by decide) (part_keys _ _) (part_keys _ _)
      (part_keys _ _) (part_keys _ _),
    eqExcept_part_iff (by decide), eqExcept_part_iff (by decide), eqExcept_part_iff (by decide)]
  refine and_congr_right fun _ => and_congr ?_ (and_congr ?_ ?_)
  · cases c.per_record <;> cases c'.per_record <;> simp [eqExcept_leaf_iff]
  · cases c.params_field <;> cases c'.params_field <;> simp [eqExcept_str_iff]
  · cases c.body_field <;> cases c'.body_field <;> simp [eqExcept_str_iff]

theorem api_settings_split (c c' : ApiConfig) :
    EqExcept (fun k => is_secret_key k = true)
      (.dict (c.config.filter fun entry => !decide (entry.1 = .str "concurrency")))
        (.dict (c'.config.filter fun entry => !decide (entry.1 = .str "concurrency"))) ↔
      EqExcept (fun k => is_secret_key k = true) (.dict c.base) (.dict c'.base) ∧
        c.per_record = c'.per_record ∧
        c.body_field = c'.body_field ∧ c.params_field = c'.params_field := by
  have hkey : ∀ (k : String) (v : Value), Entries.keys [(.str k, v)] ⊆ [.str k] := by simp
  have hback := fun c : ApiConfig => append_keys (hkey "body_field" (optional c.body_field))
    (hkey "params_field" (optional c.params_field))
  rw [api_settings_eq, api_settings_eq,
    eqExcept_append_iff _ _ (by decide) (base_keys c) (base_keys c')
      (append_keys (hkey _ _) (hback c))
      (append_keys (hkey _ _) (hback c')),
    eqExcept_append_iff _ _ (by decide) (hkey _ _) (hkey _ _) (hback c) (hback c'),
    eqExcept_append_iff _ _ (by decide) (hkey _ _) (hkey _ _) (hkey _ _) (hkey _ _),
    eqExcept_single_iff, eqExcept_single_iff, eqExcept_single_iff, imp_iff_right (by decide),
      imp_iff_right (by decide),
    imp_iff_right (by decide), eqExcept_bool_iff, eqExcept_optional_iff, eqExcept_optional_iff]

end Api

section Identity

open Destination

-- The two keys of an identity.
theorem eqExcept_identity_iff {s s' k k' : String} (hk : k ≠ "type") (hk' : k' ≠ "type") :
    Equal (.dict [(.str "type", .str s), (.str k, v)])
      (.dict [(.str "type", .str s'), (.str k', w)]) ↔
      s = s' ∧ k = k' ∧ Equal v w := by
  refine eqExcept_dict_iff.trans ?_
  constructor
  · rintro ⟨hkeys, hvalues⟩
    obtain rfl : k = k' := by simpa [hk] using (hkeys (.str k) not_false).mp (by simp)
    refine ⟨eqExcept_str_iff.mp (hvalues (.str "type") _ _ not_false (by simp) (by simp)), rfl, ?_⟩
    exact hvalues (.str k) _ _ not_false (by simp) (by simp)
  · rintro ⟨rfl, rfl, hvalue⟩
    refine ⟨fun _ _ => by simp, fun key a b _ ha hb => ?_⟩
    simp only [List.mem_cons, Prod.mk.injEq, List.not_mem_nil, or_false] at ha hb
    rcases ha with ⟨rfl, rfl⟩ | ⟨rfl, rfl⟩
    · obtain rfl : b = .str s := by simpa [Ne.symm hk] using hb
      exact eqExcept_str_iff.mpr rfl
    · obtain rfl : b = w := by simpa [hk] using hb
      exact hvalue

-- What `identity_config` keeps is the config but for its tuning.
theorem identity_config_iff {d d' : Destination} (hclass : SameClass d d') :
    EqExcept (fun k => is_secret_key k = true) (.dict d.identity_config)
      (.dict d'.identity_config) ↔
      EqExcept (fun k => is_secret_key k = true)
        (.dict (d.config.filter fun entry => !d.tuning entry.1))
        (.dict (d'.config.filter fun entry => !d'.tuning entry.1)) := by
  cases hclass with
  | api type_name c c' explicit explicit' =>
      refine (api_identity_config_split c c').trans ?_
      rw [and_comm (a := c.params_field = c'.params_field)]
      exact (api_settings_split c c').symm
  | kafka type_name config config' explicit explicit' =>
      have hfilter : ∀ config : Entries, kafka_identity_config config =
          config.filter fun entry =>
              !decide (entry.1 = .str "concurrency" ∨ entry.1 = .str "headers") := by
        intro config
        simp [kafka_identity_config]
      show EqExcept _ (.dict (kafka_identity_config config))
        (.dict (kafka_identity_config config')) ↔ _
      rw [hfilter, hfilter]
      rfl
  | other type_name config config' explicit explicit' =>
      simp [identity_config, Destination.config, tuning]

-- Identities of a class are equal iff the settings are, except at keys with a marker.
theorem identity_eq_iff {d d' : Destination} (hclass : SameClass d d') :
    Equal (destination_identity d) (destination_identity d') ↔
      d.declared = d'.declared ∧ EqExcept Marked d.settings d'.settings := by
  have htype : d.type_name = d'.type_name := by cases hclass <;> rfl
  rw [← marked_eq]
  unfold destination_identity identity settings declared
  cases hd : d.dedup_identity.isNone <;> cases hd' : d'.dedup_identity.isNone
  · simp [eqExcept_identity_iff, htype, strip_eq_iff]
  · simp [eqExcept_identity_iff, htype]
  · simp [eqExcept_identity_iff, htype]
  · simp [eqExcept_identity_iff, htype, strip_eq_iff, identity_config_iff hclass]

theorem eqExcept_filter {p : Key → Bool} (h : EqExcept hidden (.dict xs) (.dict ys)) :
    EqExcept hidden (.dict (xs.filter fun entry => p entry.1))
      (.dict (ys.filter fun entry => p entry.1)) := by
  obtain ⟨hkeys, hvalues⟩ := eqExcept_dict_iff.mp h
  have hfilter : ∀ (entries : Entries) k, k ∈ (entries.filter fun entry => p entry.1).map Prod.fst ↔
      p k = true ∧ k ∈ entries.map Prod.fst := by
    intro entries k
    simp only [List.mem_map, List.mem_filter, Prod.exists, exists_and_right, exists_eq_right]
    exact and_comm
  refine eqExcept_dict_iff.mpr ⟨fun k hk => ?_, fun k a b hk ha hb => ?_⟩
  · rw [hfilter, hfilter, hkeys k hk]
  · exact hvalues k a b hk (List.mem_of_mem_filter ha) (List.mem_of_mem_filter hb)

-- Both or neither declare an identity, and what is declared is equal but at keys with a marker.
def SameDeclared (d d' : Destination) : Prop :=
  d.declared = d'.declared ∧
    (d.declared = true → EqExcept Marked d.dedup_identity d'.dedup_identity)

theorem eqExcept_settings {d d' : Destination} (hclass : SameClass d d')
    (hdeclared : SameDeclared d d') (hconfig : EqExcept Marked (.dict d.config) (.dict d'.config)) :
      EqExcept Marked d.settings d'.settings := by
  obtain ⟨hsame, hidentity⟩ := hdeclared
  unfold settings
  rw [← hsame]
  by_cases hd : d.declared = true
  · rw [if_pos hd, if_pos hd]
    exact hidentity hd
  · have htuning : d'.tuning = d.tuning := by cases hclass <;> rfl
    rw [if_neg hd, if_neg hd, htuning]
    exact eqExcept_filter (p := fun k => !d.tuning k) hconfig

-- Whatever keys name credentials, as long as each of them has a marker: an identity ignores
-- them and nothing else, for just the pairs that have no difference in a declared identity
-- alone, in the tuning or at a key that has a marker and names no credential.
theorem identity_ignores_credentials_iff {d d' : Destination} (hclass : SameClass d d')
    {Credential : Key → Prop} (hmarked : ∀ k, Credential k → Marked k) :
    ((EqExcept Credential (.dict d.config) (.dict d'.config) →
        Equal (destination_identity d) (destination_identity d')) ∧
      (¬EqExcept Credential (.dict d.config) (.dict d'.config) →
        ¬Equal (destination_identity d) (destination_identity d'))) ↔
    (EqExcept Credential (.dict d.config) (.dict d'.config) → SameDeclared d d') ∧
      (d.declared = d'.declared → EqExcept Marked d.settings d'.settings →
        EqExcept Credential (.dict d.config) (.dict d'.config)) := by
  constructor
  · rintro ⟨hsame, hdiffer⟩
    constructor
    · intro hconfig
      obtain ⟨hdeclared, hsettings⟩ := (identity_eq_iff hclass).mp (hsame hconfig)
      refine ⟨hdeclared, fun hd => ?_⟩
      unfold settings at hsettings
      rwa [if_pos hd, if_pos (hdeclared ▸ hd)] at hsettings
    · intro hdeclared hsettings
      by_contra hconfig
      exact hdiffer hconfig ((identity_eq_iff hclass).mpr ⟨hdeclared, hsettings⟩)
  · rintro ⟨hdeclared, honly⟩
    constructor
    · intro hconfig
      have hsame := hdeclared hconfig
      exact (identity_eq_iff hclass).mpr
        ⟨hsame.1, eqExcept_settings hclass hsame (hconfig.mono hmarked)⟩
    · intro hconfig hequal
      obtain ⟨hsame, hsettings⟩ := (identity_eq_iff hclass).mp hequal
      exact hconfig (honly hsame hsettings)

example : is_secret_key (.str "apiKey") = true ∧ is_secret_key (.str "X-API-Key") = true ∧
    is_secret_key (.str "topic") = false := by decide

theorem keys_eq_of_forall₂ {R : Value → Value → Key → Prop}
    (h : List.Forall₂ (fun a b => a.1 = b.1 ∧ R a.2 b.2 a.1) xs ys) : ys.keys = xs.keys := by
  induction h with
  | nil => rfl
  | cons hentry _ ih => exact congrArg₂ List.cons hentry.1.symm ih

-- Dicts with the same keys in the same order are compared entry by entry.
theorem eqExcept_of_forall₂ (hnodup : xs.keys.Nodup)
    (h : List.Forall₂ (fun a b => a.1 = b.1 ∧ (¬hidden a.1 → EqExcept hidden a.2 b.2)) xs ys) :
    EqExcept hidden (.dict xs) (.dict ys) := by
  induction h with
  | nil => simp [eqExcept_dict_iff]
  | @cons a b xs ys hentry hrest ih =>
      obtain ⟨k, v⟩ := a
      obtain ⟨k', w⟩ := b
      obtain ⟨rfl, hvalue⟩ := hentry
      obtain ⟨hnew, hnodup⟩ := List.nodup_cons.mp hnodup
      have hkeys := keys_eq_of_forall₂ (R := fun v w k => ¬hidden k → EqExcept hidden v w) hrest
      change EqExcept hidden (.dict ([(k, v)] ++ xs)) (.dict ([(k, w)] ++ ys))
      refine (eqExcept_append_iff [k] (Entries.keys xs) ?_ ?_ ?_ (List.Subset.refl _) ?_).mpr
        ⟨eqExcept_single_iff.mpr hvalue, ih hnodup⟩
      · intro key hkey
        rw [List.mem_singleton.mp hkey]
        exact hnew
      · exact List.Subset.refl _
      · exact List.Subset.refl _
      · exact hkeys ▸ List.Subset.refl _

-- A topic that is written with a password.
def topic (name password : String) : Destination :=
  ⟨"KafkaDestination",
    .kafka [(.str "topic", .str name), (.str "sasl_password", .str password)], .None⟩

-- Another password is no other identity, and another topic is.
theorem password_ignored :
    Equal (destination_identity (topic "users" "old"))
      (destination_identity (topic "users" "new")) ∧
      ¬Equal (destination_identity (topic "users" "old"))
        (destination_identity (topic "events" "old")) := by
  have hclass : ∀ name password name' password', SameClass (topic name password)
      (topic name' password') :=
    fun _ _ _ _ => .kafka ..
  have hmarked : ∀ k, Marked k → Marked k := fun _ hk => hk
  have hexact := fun name password name' password' =>
    (identity_ignores_credentials_iff (hclass name password name' password') hmarked).mpr
      ⟨fun _ => ⟨rfl, fun hdeclared => by cases hdeclared⟩, fun _ hsettings => hsettings⟩
  have hpassword : Marked (.str "sasl_password") := is_secret_key_iff.mp (by decide)
  have htopic : ¬Marked (.str "topic") := fun h => absurd (is_secret_key_iff.mpr h) (by decide)
  constructor
  · refine (hexact "users" "old" "users" "new").1 ?_
    exact eqExcept_of_forall₂ (by decide) (.cons ⟨rfl, fun _ => eqExcept_str_iff.mpr rfl⟩
      (.cons ⟨rfl, fun h => absurd hpassword h⟩ .nil))
  · refine (hexact "users" "old" "events" "old").2 fun h => ?_
    have hvalue := (eqExcept_dict_iff.mp h).2 (.str "topic") (.str "users") (.str "events") htopic
      List.mem_cons_self List.mem_cons_self
    exact absurd (eqExcept_str_iff.mp hvalue) (by decide)

-- An endpoint that is told an author in a header.
def endpoint (author : String) : Destination where
  type_name := "ApiDestination"
  kind := .api
    { url := .str "https://sink.test/in"
      method := .str "POST"
      headers := .dict [(.str "author", .str author)]
      auth_type := .None
      auth_token := .None
      timeout := .float "30.0"
      params := .None
      body := .None
      health_check_enabled := .bool true
      per_record := true
      body_field := none
      concurrency := 1
      params_field := none }
  dedup_identity := .None

theorem endpoint_identity (author author' : String) :
    Equal (destination_identity (endpoint author)) (destination_identity (endpoint author')) := by
  have hauthor : is_secret_key (.str "author") = true := by decide
  have hheaders : EqExcept (fun k => is_secret_key k = true) (.dict [(.str "author", .str author)])
      (.dict [(.str "author", .str author')]) :=
    eqExcept_of_forall₂ (by simp) (.cons ⟨rfl, fun h => absurd hauthor h⟩ .nil)
  refine (identity_eq_iff (.api ..)).mpr ⟨rfl, ?_⟩
  rw [← marked_eq]
  refine (api_settings_split _ _).mpr ⟨?_, rfl, rfl, rfl⟩
  refine eqExcept_of_forall₂ (by simp [ApiConfig.base]) ?_
  simp only [ApiConfig.base, List.forall₂_cons, List.Forall₂.nil, true_and, hheaders]
  simp [eqExcept_leaf_iff]

-- Where every key with a marker names a credential but `author`, the two configs differ in
-- a setting that is none, and the identities are equal.
theorem author_ignored :
    ¬EqExcept (fun k => Marked k ∧ k ≠ .str "author") (.dict (endpoint "ann").config)
      (.dict (endpoint "bob").config) ∧
      Equal (destination_identity (endpoint "ann")) (destination_identity (endpoint "bob")) := by
  refine ⟨fun h => ?_, endpoint_identity ..⟩
  have hplain : ¬Marked (.str "headers") := fun h => absurd (is_secret_key_iff.mpr h) (by decide)
  have hheaders := (eqExcept_dict_iff.mp h).2 (.str "headers") (.dict [(.str "author", .str "ann")])
    (.dict [(.str "author", .str "bob")]) (fun hk => hplain hk.1)
    (by simp [Destination.config, endpoint, ApiConfig.config])
      (by simp [Destination.config, endpoint, ApiConfig.config])
  have hvalue := (eqExcept_dict_iff.mp hheaders).2 (.str "author") (.str "ann") (.str "bob")
    (fun hk => hk.2 rfl)
    List.mem_cons_self List.mem_cons_self
  exact absurd (eqExcept_str_iff.mp hvalue) (by decide)

end Identity

end Reflowfy
