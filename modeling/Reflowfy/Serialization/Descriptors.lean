import Reflowfy.SourceFactory
import Reflowfy.Interleaving.RowLocks
import Mathlib.Logic.Function.Iterate

namespace Reflowfy.SourceFactory

open PyJson Interleaving

variable {upper : String → String} {cls : SourceType} {kwargs config args : SourceConfig}

section Kept

theorem keep_keep (hupper : ∀ s, upper (upper s) = upper s) (kept : Kept) (v : Value) :
    kept.keep upper (kept.keep upper v) = kept.keep upper v := by
  cases kept with
  | as_is => rfl
  | list_of => cases v <;> rfl
  | or_list =>
      simp only [Kept.keep]
      split
      · rfl
      · rfl
  | or_dict =>
      simp only [Kept.keep]
      split
      · rfl
      · rfl
  | upper => cases v <;> simp [Kept.keep, hupper]

theorem carried_keep (kept : Kept) {v : Value} (h : Carried v) : Carried (kept.keep upper v) := by
  cases kept with
  | as_is => exact h
  | list_of =>
      cases v with
      | tuple items => cases h.1
      | _ => exact h
  | or_list =>
      simp only [Kept.keep]
      split
      · exact h
      · exact carried_list fun w hw => absurd hw List.not_mem_nil
  | or_dict =>
      simp only [Kept.keep]
      split
      · exact h
      · exact carried_dict List.nodup_nil fun e he => absurd he List.not_mem_nil
  | upper =>
      cases v with
      | str s => exact ⟨rfl, rfl⟩
      | _ => exact h

theorem valid_keep (kept : Kept) {v : Value} (h : Valid v) : Valid (kept.keep upper v) := by
  cases kept with
  | as_is => exact h
  | list_of => cases v <;> exact h
  | or_list =>
      simp only [Kept.keep]
      split
      · exact h
      · trivial
  | or_dict =>
      simp only [Kept.keep]
      split
      · exact h
      · exact ⟨List.nodup_nil, trivial⟩
  | upper => cases v <;> exact h

end Kept

section Init

-- What the constructor keeps of a keyword argument.
def SourceType.keep (upper : String → String) (cls : SourceType) (k : String) (v : Value) : Value :=
  match cls.parameters.find? (·.name = k) with
  | some p => p.kept.keep upper v
  | none => v

theorem SourceType.keep_of_mem (hnames : (cls.parameters.map Parameter.name).Nodup) {p : Parameter}
    (hp : p ∈ cls.parameters) (v : Value) : cls.keep upper p.name v = p.kept.keep upper v := by
  have hfind : cls.parameters.find? (·.name = p.name) = some p := by
    cases hfound : cls.parameters.find? (·.name = p.name) with
    | none =>
        have hnone := List.find?_eq_none.mp hfound p hp
        simp at hnone
    | some p' =>
        have hname : p'.name = p.name := by simpa using List.find?_some hfound
        exact congrArg some (List.inj_on_of_nodup_map hnames
          (List.mem_of_find?_eq_some hfound) hp hname)
  unfold SourceType.keep
  rw [hfind]

theorem SourceType.keep_of_not_named {k : String} (h : cls.named k = false) (v : Value) :
    cls.keep upper k v = v := by
  have hfind : cls.parameters.find? (·.name = k) = none := by
    refine List.find?_eq_none.mpr fun p hp heq => ?_
    have hmem : k ∈ cls.parameters.map Parameter.name :=
      List.mem_map.mpr ⟨p, hp, by simpa using heq⟩
    simp [SourceType.named, hmem] at h
  unfold SourceType.keep
  rw [hfind]

-- The keys that `config` has: those of the parameters, and after them the others.
structure Shaped (cls : SourceType) (keys : List String) : Prop where
  nodup : keys.Nodup
  split : ∃ extra, keys = cls.parameters.map Parameter.name ++ extra ∧
    (∀ k ∈ extra, cls.named k = false) ∧
    (cls.kwargs = false → extra = [])

theorem forall₂_map_eq_iff {α β γ : Type} {f : α → γ} {g : β → γ} {as : List α} {bs : List β} :
    List.Forall₂ (fun a b => f a = g b) as bs ↔ as.map f = bs.map g := by
  induction as generalizing bs with
  | nil => cases bs <;> simp
  | cons a as ih => cases bs <;> simp [ih]

theorem exists_mem_of_forall₂ {α β : Type} {R : α → β → Prop} {as : List α} {bs : List β}
    (h : List.Forall₂ R as bs) {b : β} (hb : b ∈ bs) : ∃ a ∈ as, R a b := by
  induction h with
  | nil => cases hb
  | @cons a b' _ _ hhead htail ih =>
      rcases List.mem_cons.mp hb with rfl | hb
      · exact ⟨a, List.mem_cons_self, hhead⟩
      · obtain ⟨a', ha', hR⟩ := ih hb
        exact ⟨a', List.mem_cons_of_mem _ ha', hR⟩

theorem mapM_of_forall₂ {α β γ : Type} {f : α → Option γ} {g : β → γ} {as : List α} {bs : List β}
    (h : List.Forall₂ (fun a b => f a = some (g b)) as bs) : as.mapM f = some (bs.map g) := by
  induction h with
  | nil => rfl
  | cons hhead htail ih => simp [List.mapM_cons, hhead, ih]

theorem init_of_shaped (h : Shaped cls (kwargs.map Prod.fst)) :
    cls.init upper kwargs =
      .ok (kwargs.map fun entry => (entry.1, cls.keep upper entry.1 entry.2)) := by
  obtain ⟨hnodup, extra, hkeys, hextra, hkwargs⟩ := h
  obtain ⟨front, back, rfl, hfront, hback⟩ := List.map_eq_append_iff.mp hkeys
  have hnames : (cls.parameters.map Parameter.name).Nodup :=
    (List.nodup_append.mp (hkeys ▸ hnodup)).1
  have hnamed : ∀ entry ∈ front, cls.named entry.1 = true := by
    intro entry hentry
    have hmem : entry.1 ∈ cls.parameters.map Parameter.name := hfront ▸ List.mem_map_of_mem hentry
    simp [SourceType.named, hmem]
  have hother : ∀ entry ∈ back, cls.named entry.1 = false := fun entry hentry =>
    hextra entry.1 (hback ▸ List.mem_map_of_mem hentry)
  have hall : (cls.kwargs || (front ++ back).all fun entry => cls.named entry.1) = true := by
    cases hflag : cls.kwargs with
    | true => rfl
    | false =>
        have hnil : back = [] := List.map_eq_nil_iff.mp (hback.trans (hkwargs hflag))
        rw [Bool.false_or, hnil, List.append_nil]
        exact List.all_eq_true.mpr hnamed
  -- Each parameter finds the entry in its place.
  have hlookup : List.Forall₂ (fun (p : Parameter) (entry : String × Value) =>
      (((front ++ back).lookup p.name).or p.default).map (fun v => (p.name, p.kept.keep upper v)) =
        some (entry.1, cls.keep upper entry.1 entry.2)) cls.parameters front := by
    have hsame : List.Forall₂ (fun (p : Parameter) (entry : String × Value) => p.name = entry.1)
        cls.parameters front :=
      forall₂_map_eq_iff.mpr hfront.symm
    refine List.forall₂_iff_zip.mpr ⟨hsame.length_eq, fun {p entry} hzip => ?_⟩
    have hname : p.name = entry.1 := (List.forall₂_iff_zip.mp hsame).2 hzip
    have hmem := List.of_mem_zip hzip
    have hentry : (front ++ back).lookup entry.1 = some entry.2 :=
      lookup_eq_some_of_mem hnodup (List.mem_append_left back hmem.2)
    rw [hname, hentry, Option.some_or, Option.map_some, ← hname,
      SourceType.keep_of_mem hnames hmem.1]
  unfold SourceType.init
  rw [if_pos hall, mapM_of_forall₂ hlookup, List.map_append, List.filter_append]
  have hfront_nil : front.filter (fun entry => !cls.named entry.1) = [] :=
    List.filter_eq_nil_iff.mpr fun entry hentry => by simp [hnamed entry hentry]
  have hback_all : back.filter (fun entry => !cls.named entry.1) = back :=
    List.filter_eq_self.mpr fun entry hentry => by simp [hother entry hentry]
  rw [hfront_nil, hback_all, List.nil_append]
  refine congrArg (fun rest => Except.ok (front.map _ ++ rest)) ?_
  refine ((List.map_congr_left fun entry hentry => ?_).trans (List.map_id back)).symm
  rw [SourceType.keep_of_not_named (hother entry hentry)]
  rfl

theorem keep_keep_of (hupper : ∀ s, upper (upper s) = upper s) (cls : SourceType)
    (k : String) (v : Value) :
    cls.keep upper k (cls.keep upper k v) = cls.keep upper k v := by
  unfold SourceType.keep
  split
  · exact keep_keep hupper _ v
  · rfl

-- The config of a source: what a constructor makes of its arguments, and what `split` of its
-- parent has put in beside them.
inductive Config (upper : String → String) (cls : SourceType) : SourceConfig → Prop
  | init {args config : SourceConfig} (hargs : (args.map Prod.fst).Nodup)
      (h : cls.init upper args = .ok config) :
      Config upper cls config
  | set {config : SourceConfig} (k : String) (v : Value) (h : Config upper cls config)
      (hkwargs : cls.kwargs = true)
      (hnamed : cls.named k = false) (hnew : k ∉ config.map Prod.fst) : Config upper cls
        (config ++ [(k, v)])

theorem mapM_eq_some {α γ : Type} {f : α → Option γ} {as : List α} {cs : List γ}
    (h : as.mapM f = some cs) :
    List.Forall₂ (fun a c => f a = some c) as cs := by
  induction as generalizing cs with
  | nil =>
      cases h
      exact .nil
  | cons a as ih =>
      simp only [List.mapM_cons, Option.bind_eq_bind, Option.bind_eq_some_iff, Option.pure_def,
        Option.some.injEq] at h
      obtain ⟨c, hc, cs', hcs', rfl⟩ := h
      exact .cons hc (ih hcs')

theorem shaped_of_init (hnames : (cls.parameters.map Parameter.name).Nodup)
    (hargs : (args.map Prod.fst).Nodup)
    (h : cls.init upper args = .ok config) (hupper : ∀ s, upper (upper s) = upper s) :
    Shaped cls (config.map Prod.fst) ∧
      ∀ entry ∈ config, cls.keep upper entry.1 entry.2 = entry.2 := by
  unfold SourceType.init at h
  split at h
  · rename_i hall
    split at h
    · cases h
    · rename_i front hfront
      cases h
      have hfront' := mapM_eq_some hfront
      have hentry : ∀ (p : Parameter) (entry : String × Value),
        (((args.lookup p.name).or p.default).map fun v => (p.name, p.kept.keep upper v)) =
          some entry → entry.1 = p.name ∧ ∃ v, entry.2 = p.kept.keep upper v := by
        intro p entry hsome
        obtain ⟨v, -, rfl⟩ := Option.map_eq_some_iff.mp hsome
        exact ⟨rfl, v, rfl⟩
      have hkeys : front.map Prod.fst = cls.parameters.map Parameter.name := by
        exact (forall₂_map_eq_iff.mp
          (hfront'.imp fun p entry hsome => (hentry p entry hsome).1.symm)).symm
      have hother : ∀ k ∈ (args.filter fun entry => !cls.named entry.1).map Prod.fst,
          cls.named k = false := by
        intro k hk
        obtain ⟨entry, hmem, rfl⟩ := List.mem_map.mp hk
        simpa using (List.mem_filter.mp hmem).2
      constructor
      · constructor
        · rw [List.map_append, hkeys, List.nodup_append]
          refine ⟨hnames, hargs.sublist (List.filter_sublist.map Prod.fst),
            fun k hk k' hk' heq => ?_⟩
          have hno := hother k' hk'
          rw [← heq] at hno
          simp [SourceType.named, hk] at hno
        · refine ⟨_, by rw [List.map_append, hkeys], hother, fun hflag => ?_⟩
          rw [hflag, Bool.false_or, List.all_eq_true] at hall
          rw [List.map_eq_nil_iff, List.filter_eq_nil_iff]
          exact fun entry hmem => by simp [hall entry hmem]
      · intro entry hmem
        rcases List.mem_append.mp hmem with hmem | hmem
        · obtain ⟨p, hp, hsome⟩ := exists_mem_of_forall₂ hfront' hmem
          obtain ⟨hname, v, hv⟩ := hentry p entry hsome
          rw [hname, SourceType.keep_of_mem hnames hp, hv, keep_keep hupper]
        · exact SourceType.keep_of_not_named (hother _ (List.mem_map_of_mem hmem)) _
  · cases h

theorem shaped_of_config (hupper : ∀ s, upper (upper s) = upper s)
    (hnames : (cls.parameters.map Parameter.name).Nodup) (h : Config upper cls config) :
    Shaped cls (config.map Prod.fst) ∧
      ∀ entry ∈ config, cls.keep upper entry.1 entry.2 = entry.2 := by
  induction h with
  | init hargs h => exact shaped_of_init hnames hargs h hupper
  | @set config k v _ hkwargs hnamed hnew ih =>
      obtain ⟨⟨hnodup, extra, hkeys, hextra, -⟩, hkept⟩ := ih
      refine ⟨⟨?_, extra ++ [k], ?_, ?_, ?_⟩, ?_⟩
      · rw [List.map_append, List.nodup_append]
        refine ⟨hnodup, List.nodup_singleton _, fun a ha b hb heq => hnew ?_⟩
        rwa [heq, List.mem_singleton.mp hb] at ha
      · rw [List.map_append, hkeys, List.append_assoc]
        rfl
      · intro a ha
        rcases List.mem_append.mp ha with ha | ha
        · exact hextra a ha
        · rwa [List.mem_singleton.mp ha]
      · intro hno
        rw [hkwargs] at hno
        cases hno
      · intro entry hentry
        rcases List.mem_append.mp hentry with hentry | hentry
        · exact hkept entry hentry
        · rw [List.mem_singleton.mp hentry]
          exact SourceType.keep_of_not_named hnamed v

-- A config is its own keyword arguments.
theorem init_of_kept (hshaped : Shaped cls (config.map Prod.fst))
    (hkept : ∀ entry ∈ config, cls.keep upper entry.1 entry.2 = entry.2) :
      cls.init upper config = .ok config := by
  rw [init_of_shaped hshaped]
  refine congrArg Except.ok
    ((List.map_congr_left fun entry hentry => ?_).trans (List.map_id config))
  rw [hkept entry hentry]
  rfl

theorem names_nodup {type_name : String} (h : registry.lookup type_name = some cls) :
    (cls.parameters.map Parameter.name).Nodup := by
  have hall : ∀ entry ∈ registry, (entry.2.parameters.map Parameter.name).Nodup := by decide
  exact hall _ (mem_of_lookup_eq_some h)

end Init

section Sent

theorem keywords_as_dict (config : SourceConfig) : keywords (as_dict config) = .ok config := by
  unfold keywords as_dict
  induction config with
  | nil => rfl
  | cons entry config ih =>
      simp only [List.map_cons, List.mapM_cons] at ih ⊢
      rw [ih]
      rfl

theorem rebuild_serialize (type_name : String) (kwargs : SourceConfig) :
    rebuild upper (serialize type_name kwargs) = (create upper type_name kwargs).map
      (type_name, ·) := by
  unfold rebuild serialize
  simp only [List.lookup_cons_self, List.lookup_cons,
    show ((Key.str "config" == Key.str "type") = false) from by decide,
    keywords_as_dict]

theorem keys_as_dict (config : SourceConfig) :
    ((config.map fun entry => ((Key.str entry.1, entry.2) : Key × Value)).map Prod.fst) =
    (config.map Prod.fst).map Key.str := by
  rw [List.map_map, List.map_map]
  rfl

theorem keys_nodup (h : (config.map Prod.fst).Nodup) :
    ((config.map fun entry => ((Key.str entry.1, entry.2) : Key × Value)).map Prod.fst).Nodup := by
  rw [keys_as_dict]
  exact h.map fun _ _ heq => Key.str.inj heq

-- What becomes of a config on its way, value by value.
def Crossed (config carried : SourceConfig) : Prop :=
  List.Forall₂ (fun entry e => e.1 = entry.1 ∧ carry entry.2 = some e.2) config carried

theorem Crossed.keys {carried : SourceConfig} (h : Crossed config carried) :
    carried.map Prod.fst = config.map Prod.fst :=
  (forall₂_map_eq_iff.mp (h.imp fun _ _ hentry => hentry.1.symm)).symm

theorem exists_names {es : List (Key × Value)}
    (h : List.Forall₂ (fun (entry : String × Value) e => e.1 = Key.str entry.1) config es) :
    ∃ carried : SourceConfig, es = carried.map fun e => (Key.str e.1, e.2) := by
  induction h with
  | nil => exact ⟨[], rfl⟩
  | @cons entry e _ _ hhead _ ih =>
      obtain ⟨carried, rfl⟩ := ih
      refine ⟨(entry.1, e.2) :: carried, ?_⟩
      rw [List.map_cons, ← hhead]

theorem carry_as_dict (hnodup : (config.map Prod.fst).Nodup) {w : Value} :
    carry (as_dict config) = some w ↔ ∃ carried, w = as_dict carried ∧ Crossed config carried := by
  have hkeys : ∀ entry ∈ config.map (fun entry => ((Key.str entry.1, entry.2) : Key × Value)), ∃ s,
      entry.1 = .str s := by
    intro entry hentry
    obtain ⟨e, -, rfl⟩ := List.mem_map.mp hentry
    exact ⟨e.1, rfl⟩
  rw [as_dict, carry_dict_iff (keys_nodup hnodup) hkeys]
  constructor
  · rintro ⟨es, rfl, hes⟩
    rw [List.forall₂_map_left_iff] at hes
    obtain ⟨carried, rfl⟩ := exists_names (hes.imp fun entry e he => he.1)
    rw [List.forall₂_map_right_iff] at hes
    exact ⟨carried, rfl, hes.imp fun entry e he => ⟨Key.str.inj he.1, he.2⟩⟩
  · rintro ⟨carried, rfl, hcrossed⟩
    refine ⟨_, rfl, ?_⟩
    rw [List.forall₂_map_left_iff, List.forall₂_map_right_iff]
    exact hcrossed.imp fun entry e he => ⟨congrArg Key.str he.1, he.2⟩

theorem carry_serialize (hnodup : (config.map Prod.fst).Nodup) (type_name : String) {w : Value} :
    carry (serialize type_name config) = some w ↔ ∃ carried, w = serialize type_name carried ∧
      Crossed config carried := by
  have hkeys : ∀ entry ∈ [((Key.str "type", Value.str type_name) : Key × Value),
      (Key.str "config", as_dict config)],
      ∃ s, entry.1 = .str s := by
    intro entry hentry
    rcases List.mem_cons.mp hentry with rfl | hentry
    · exact ⟨"type", rfl⟩
    · exact ⟨"config", by rw [List.mem_singleton.mp hentry]⟩
  have hnames : ([((Key.str "type", Value.str type_name) : Key × Value),
    (Key.str "config", as_dict config)].map
      Prod.fst).Nodup := by
    show [Key.str "type", Key.str "config"].Nodup
    decide
  rw [serialize, carry_dict_iff hnames hkeys]
  constructor
  · rintro ⟨es, rfl, hes⟩
    cases hes with
    | cons htype hrest =>
        cases hrest with
        | cons hconfig hnil =>
            cases hnil
            obtain ⟨carried, hw, hcrossed⟩ := (carry_as_dict hnodup).mp hconfig.2
            refine ⟨carried, ?_, hcrossed⟩
            have htype' := Prod.ext htype.1 (Option.some.inj htype.2).symm
            have hconfig' := @Prod.ext _ _ _ (Key.str "config", as_dict carried) hconfig.1 hw
            rw [htype', hconfig']
            rfl
  · rintro ⟨carried, rfl, hcrossed⟩
    refine ⟨_, rfl, .cons ⟨rfl, rfl⟩ (.cons ⟨rfl, ?_⟩ .nil)⟩
    exact (carry_as_dict hnodup).mpr ⟨carried, rfl, hcrossed⟩

theorem valid_as_dict : Valid (as_dict config) ↔ (config.map Prod.fst).Nodup ∧
    ∀ entry ∈ config, Valid entry.2 := by
  unfold as_dict
  simp only [Valid, valid_entries_iff, keys_as_dict, List.forall_mem_map]
  refine and_congr_left fun _ =>
    ⟨fun h => List.Nodup.of_map _ h, fun h => h.map fun _ _ heq => Key.str.inj heq⟩

theorem valid_serialize (h : Valid (as_dict config)) (type_name : String) :
    Valid (serialize type_name config) := by
  refine ⟨?_, trivial, h, trivial⟩
  show [Key.str "type", Key.str "config"].Nodup
  decide

theorem carried_serialize {carried : SourceConfig} (hnodup : (carried.map Prod.fst).Nodup)
    (h : ∀ entry ∈ carried, Carried entry.2) (type_name : String) :
    carry (serialize type_name carried) = some (serialize type_name carried) :=
  (carry_serialize hnodup type_name).mpr ⟨carried, rfl, List.forall₂_same.mpr fun entry hentry =>
    ⟨rfl, (h entry hentry).2⟩⟩

end Sent

section Main

-- A planned source in a job's message: serialized, written, read and built again.
def sent (upper : String → String) (source : String × SourceConfig) :
    Option (String × SourceConfig) :=
  (wire (serialize source.1 source.2)).bind fun w => (rebuild upper w).toOption

theorem crossed_iff : (∃ carried, Crossed config carried) ↔
    ∀ entry ∈ config, ∃ w, carry entry.2 = some w := by
  constructor
  · rintro ⟨carried, h⟩ entry hentry
    obtain ⟨e, -, he⟩ := exists_mem_of_forall₂ h.flip hentry
    exact ⟨e.2, he.2⟩
  · intro h
    induction config with
    | nil => exact ⟨[], .nil⟩
    | cons entry config ih =>
        obtain ⟨w, hw⟩ := h entry List.mem_cons_self
        obtain ⟨carried, hcarried⟩ := ih fun e he => h e (List.mem_cons_of_mem _ he)
        exact ⟨(entry.1, w) :: carried, .cons ⟨rfl, hw⟩ hcarried⟩

-- What the worker makes of a config whose values are JSON data.
theorem sent_of_carried {type_name : String}
    (hcls : registry.lookup type_name = some cls) (hshaped : Shaped cls (config.map Prod.fst))
    (hcarried : ∀ entry ∈ config, Carried entry.2) (hvalid : ∀ entry ∈ config, Valid entry.2)
    (hkept : ∀ entry ∈ config, cls.keep upper entry.1 entry.2 = entry.2) :
    sent upper (type_name, config) = some (type_name, config) := by
  have hwire : wire (serialize type_name config) = some (serialize type_name config) := by
    rw [wire_eq_carry (valid_serialize (valid_as_dict.mpr ⟨hshaped.nodup, hvalid⟩) type_name)]
    exact carried_serialize hshaped.nodup hcarried type_name
  unfold sent
  rw [hwire, Option.bind_some, rebuild_serialize, create, hcls]
  simp only
  rw [init_of_kept hshaped hkept]
  rfl

theorem keep_carried (cls : SourceType) (k : String) {v : Value} (h : Carried v) :
    Carried (cls.keep upper k v) := by
  unfold SourceType.keep
  split
  · exact carried_keep _ h
  · exact h

theorem keep_valid (cls : SourceType) (k : String) {v : Value} (h : Valid v) :
    Valid (cls.keep upper k v) := by
  unfold SourceType.keep
  split
  · exact valid_keep _ h
  · exact h

-- A planned source and its message: the message can be written iff each setting can; what
-- is read is the same message however often it is written again; the worker's source has
-- the settings as they come over the wire, under the same names, and is itself sent
-- unchanged any number of times; and a config of JSON data comes over as it is.
theorem descriptor_survives (hupper : ∀ s, upper (upper s) = upper s) {type_name : String}
    {cls : SourceType} {config : SourceConfig} (hcls : registry.lookup type_name = some cls)
    (hconfig : Config upper cls config) (hvalid : Valid (as_dict config)) :
    create upper type_name config = .ok config ∧
      ((∃ w, wire (serialize type_name config) = some w) ↔
        ∀ entry ∈ config, ∃ w, wire entry.2 = some w) ∧
      (∀ w, wire (serialize type_name config) = some w → wire w = some w ∧
        ∃ config', rebuild upper w = .ok (type_name, config') ∧
          List.Forall₂ (fun entry e => e.1 = entry.1 ∧ ∃ v, wire entry.2 = some v ∧
            e.2 = cls.keep upper entry.1 v)
            config config' ∧
          ∀ n, (fun source => source.bind (sent upper))^[n] (some (type_name, config')) =
            some (type_name, config')) ∧
      ((∀ entry ∈ config, Carried entry.2) →
        sent upper (type_name, config) = some (type_name, config)) := by
  obtain ⟨hshaped, hkept⟩ := shaped_of_config hupper (names_nodup hcls) hconfig
  have hvalues := (valid_as_dict.mp hvalid).2
  have hwire := wire_eq_carry (valid_serialize hvalid type_name)
  refine ⟨?_, ?_, fun w hw => ?_, fun hcarried =>
    sent_of_carried hcls hshaped hcarried hvalues hkept⟩
  · rw [create, hcls]
    exact init_of_kept hshaped hkept
  · have hone : ∀ entry ∈ config, wire entry.2 = carry entry.2 :=
      fun entry hentry => wire_eq_carry (hvalues entry hentry)
    rw [hwire, forall₂_congr fun entry hentry => by rw [hone entry hentry], ← crossed_iff]
    constructor
    · rintro ⟨w, hw⟩
      obtain ⟨carried, -, hcrossed⟩ := (carry_serialize hshaped.nodup type_name).mp hw
      exact ⟨carried, hcrossed⟩
    · rintro ⟨carried, hcrossed⟩
      exact ⟨_, (carry_serialize hshaped.nodup type_name).mpr ⟨carried, rfl, hcrossed⟩⟩
  · rw [hwire] at hw
    obtain ⟨carried, rfl, hcrossed⟩ := (carry_serialize hshaped.nodup type_name).mp hw
    have hcarried : ∀ e ∈ carried, Carried e.2 ∧ Valid e.2 := by
      intro e he
      obtain ⟨entry, hentry, -, hcarry⟩ := exists_mem_of_forall₂ hcrossed he
      exact ⟨carried_of_carry hcarry, valid_of_carry (hvalues entry hentry) hcarry⟩
    have hshaped' : Shaped cls (carried.map Prod.fst) := by
      rw [hcrossed.keys]
      exact hshaped
    have hkeys : (carried.map fun e => (e.1, cls.keep upper e.1 e.2)).map Prod.fst =
        carried.map Prod.fst := by
      rw [List.map_map]
      rfl
    refine ⟨?_, carried.map fun e => (e.1, cls.keep upper e.1 e.2), ?_, ?_, fun n => ?_⟩
    · rw [wire_eq_carry (valid_serialize
        (valid_as_dict.mpr ⟨hshaped'.nodup, fun e he => (hcarried e he).2⟩) type_name)]
      exact carried_serialize hshaped'.nodup (fun e he => (hcarried e he).1) type_name
    · rw [rebuild_serialize, create, hcls]
      simp only
      rw [init_of_shaped hshaped']
      rfl
    · rw [List.forall₂_map_right_iff]
      refine List.forall₂_iff_zip.mpr ⟨hcrossed.length_eq, fun {entry e} hzip => ?_⟩
      obtain ⟨hname, hcarry⟩ := (List.forall₂_iff_zip.mp hcrossed).2 hzip
      refine ⟨hname, e.2, ?_, by rw [← hname]⟩
      rw [wire_eq_carry (hvalues entry (List.of_mem_zip hzip).1)]
      exact hcarry
    · have hsent : sent upper (type_name, carried.map fun e => (e.1, cls.keep upper e.1 e.2)) =
          some (type_name, carried.map fun e => (e.1, cls.keep upper e.1 e.2)) := by
        refine sent_of_carried hcls (hkeys ▸ hshaped') ?_ ?_ ?_
        · exact List.forall_mem_map.mpr fun e he => keep_carried cls e.1 (hcarried e he).1
        · exact List.forall_mem_map.mpr fun e he => keep_valid cls e.1 (hcarried e he).2
        · exact List.forall_mem_map.mpr fun e _ => keep_keep_of hupper cls e.1 e.2
      exact Function.iterate_fixed (by rw [Option.bind_some, hsent]) n

def orders_query : SourceConfig :=
  [("connection_url", .str "sqlite:///orders.db"), ("query", .str "SELECT * FROM orders"),
    ("id_column", .str "id"),
    ("time_column", .None), ("batch_size", .int 10)]

-- One slice of a query, with what `split` puts in beside the settings.
def orders_slice : SourceConfig :=
  (orders_query ++ [("args", .tuple [.int 1])]) ++
    [("slice", .dict [(.str "lo", .int 0), (.str "hi", .int 10)])]

theorem config_orders_slice : Config id SqlSource orders_slice := by
  refine .set "slice" _ ?_ rfl rfl (by decide)
  refine .init ?_ (?_ : SqlSource.init id (orders_query ++ [("args", .tuple [.int 1])]) = _)
  · decide
  · rfl

theorem valid_orders_slice : Valid (as_dict orders_slice) := by
  refine valid_as_dict.mpr ⟨by decide, fun entry hentry => ?_⟩
  simp only [orders_slice, orders_query, List.cons_append, List.nil_append, List.mem_cons,
    List.not_mem_nil, or_false] at hentry
  rcases hentry with rfl | rfl | rfl | rfl | rfl | rfl | rfl <;>
    simp [Valid, ValidItems, ValidEntries]

theorem carry_int {n : ℤ} (h : printable_int n = true) : carry (.int n) = some (.int n) := by
  simp [carry, to_json_safe, encode, decode, h, Except.toOption]

-- The tuple comes back as a list, and the slice as it was.
theorem descriptor_survives_orders_slice : ∃ w config', wire (serialize "SqlSource" orders_slice) =
    some w ∧ wire w = some w ∧
    rebuild id w = .ok ("SqlSource", config') ∧
      sent id ("SqlSource", config') = some ("SqlSource", config') := by
  have hmain := @descriptor_survives id (fun _ => rfl) "SqlSource" SqlSource orders_slice rfl
    config_orders_slice
    valid_orders_slice
  have hvalues := (valid_as_dict.mp valid_orders_slice).2
  have hsettings : ∀ entry ∈ orders_slice, ∃ w, wire entry.2 = some w := by
    intro entry hentry
    rw [wire_eq_carry (hvalues entry hentry)]
    simp only [orders_slice, orders_query, List.cons_append, List.nil_append, List.mem_cons,
      List.not_mem_nil, or_false] at hentry
    rcases hentry with rfl | rfl | rfl | rfl | rfl | rfl | rfl
    · exact ⟨_, rfl⟩
    · exact ⟨_, rfl⟩
    · exact ⟨_, rfl⟩
    · exact ⟨_, rfl⟩
    · exact ⟨_, carry_int (by decide +kernel)⟩
    · refine ⟨.list [.int 1], ?_⟩
      rw [carry_tuple]
      exact carry_list_iff.mpr ⟨_, rfl, .cons (carry_int (by decide +kernel)) .nil⟩
    · refine ⟨as_dict [("lo", .int 0), ("hi", .int 10)], ?_⟩
      refine (@carry_as_dict [("lo", .int 0), ("hi", .int 10)] (by decide) _).mpr ⟨_, rfl, ?_⟩
      exact .cons ⟨rfl, carry_int (by decide +kernel)⟩
        (.cons ⟨rfl, carry_int (by decide +kernel)⟩ .nil)
  obtain ⟨w, hw⟩ := hmain.2.1.mpr hsettings
  obtain ⟨hagain, config', hrebuilt, -, hsent⟩ := hmain.2.2.1 w hw
  exact ⟨w, config', hw, hagain, hrebuilt, hsent 1⟩

end Main

end Reflowfy.SourceFactory
