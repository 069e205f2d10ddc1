import Reflowfy.Paging.Fallible
import Reflowfy.Sources.S3

namespace Reflowfy.S3Source

open Paging

variable {Data : Type} {py : Parsers Data} {get_object : Client → String → String →
    Except String ByteArray}
  {listings : Listings} {render : String → Except TemplateError String} {config resolved : Config}

section Loop

variable {α : Type} {read : α → Except Raised (List (Record Data))}

theorem collect_eq_ok {l : List α} {records out : List (Record Data)} :
    collect read none records l = .ok out ↔
      ∃ rest, Delivers (fun a part => read a = .ok part) l rest ∧ out = records ++ rest := by
  induction l generalizing records with
  | nil =>
      simp only [collect, delivers_nil_iff, exists_eq_left, List.append_nil, Except.ok.injEq]
      exact eq_comm
  | cons a l ih =>
      have hcons : collect read none records (a :: l) = read a >>= fun more =>
          collect read none (records ++ more) l := by
        simp [collect, sample]
      simp only [hcons, bind_eq_ok, ih, delivers_cons_iff]
      constructor
      · rintro ⟨part, hpart, rest, hrest, rfl⟩
        exact ⟨part ++ rest, ⟨part, rest, hpart, hrest, rfl⟩, List.append_assoc ..⟩
      · rintro ⟨_, ⟨part, rest, hpart, hrest, rfl⟩, rfl⟩
        exact ⟨part, hpart, rest, hrest, (List.append_assoc ..).symm⟩

theorem collect_delivers {l : List α} {out : List (Record Data)} :
    collect read none [] l = .ok out ↔ Delivers (fun a part => read a = .ok part) l out := by
  rw [collect_eq_ok]
  simp

end Loop

section Resolve

theorem resolve_parameters_keys {keys : List String} {again : Config} :
    resolve_parameters render { config with keys } = .ok again ↔
      ∃ base rendered, resolve_parameters render { config with keys := [] } = .ok base ∧
        keys.mapM (ParameterResolver.resolve render) = .ok rendered ∧
            again = { base with keys := rendered } := by
  simp only [resolve_parameters, bind_eq_ok, List.mapM_nil, pure, Except.pure, Except.ok.injEq]
  constructor
  · rintro ⟨a, ha, b, hb, c, hc, d, hd, e, he, f, hf, g, hg, h, hh, ks, hks, rfl⟩
    exact ⟨_, ks, ⟨a, ha, b, hb, c, hc, d, hd, e, he, f, hf, g, hg, h, hh, _, rfl, rfl⟩, hks, rfl⟩
  · rintro ⟨_, ks, ⟨a, ha, b, hb, c, hc, d, hd, e, he, f, hf, g, hg, h, hh, _, rfl, rfl⟩, hks, rfl⟩
    exact ⟨a, ha, b, hb, c, hc, d, hd, e, he, f, hf, g, hg, h, hh, ks, hks, rfl⟩

-- Rendering keeps the switches, and makes no keys.
theorem resolve_parameters_eq (h : resolve_parameters render config = .ok resolved) :
    resolved.read_content = config.read_content ∧ (config.keys = [] → resolved.keys = []) := by
  simp only [resolve_parameters, bind_eq_ok] at h
  obtain ⟨a, ha, b, hb, c, hc, d, hd, e, he, f, hf, g, hg, k, hk, ks, hks, h⟩ := h
  cases h
  refine ⟨rfl, fun hkeys => ?_⟩
  rw [hkeys] at hks
  cases hks
  rfl

end Resolve

section Fetch

def matching (py : Parsers Data) (config : Config) (pages : List (List Obj)) : List Obj :=
  pages.flatten.filter fun obj => matches_pattern py config obj.Key

theorem direct_iff (hkeys : config.keys = [])
    (hres : resolve_parameters render config = .ok resolved) {out : List (Record Data)} {n : ℕ} :
    fetch py get_object listings render config none = .ok out ↔
      ∃ pages, listings.paginate (get_client config) resolved.bucket resolved.Prefix n = .ok pages ∧
        Delivers (fun obj part => fetch_object py get_object config resolved obj = .ok part)
          (matching py config pages) out := by
  have hnone : resolved.keys = [] := (resolve_parameters_eq hres).2 hkeys
  have hpaged := listings.paged (get_client config) resolved.bucket resolved.Prefix 1000 n
  simp only [fetch, bind_eq_ok, hres, Except.ok.injEq, exists_eq_left', hnone, ne_eq,
    not_true_eq_false, if_false]
  cases hpages : listings.paginate (get_client config) resolved.bucket resolved.Prefix 1000 with
  | error e =>
      rw [hpages] at hpaged
      refine iff_of_false (by simp) ?_
      rintro ⟨pages, hpages', -⟩
      rw [hpages'] at hpaged
      cases hpaged
  | ok pages =>
      rw [hpages] at hpaged
      simp only [collect_delivers]
      obtain ⟨pages', hpages', hflat⟩ := map_eq_ok.mp hpaged.symm
      simp only [hpages', Except.ok.injEq, exists_eq_left', matching, hflat]

theorem rendered_ne_nil {keys rendered : List String} (hne : keys ≠ [])
    (h : keys.mapM (ParameterResolver.resolve render) = .ok rendered) : rendered ≠ [] := by
  cases keys with
  | nil => exact absurd rfl hne
  | cons key keys =>
      simp only [List.mapM_cons, bind_eq_ok] at h
      obtain ⟨_, -, _, -, h⟩ := h
      cases h
      exact List.cons_ne_nil _ _

-- A planned source reads its keys as they are rendered, by the settings it was given.
theorem sub_iff {keys : List String} (hne : keys ≠ []) {out : List (Record Data)} :
    fetch py get_object listings render { resolved with keys } none = .ok out ↔
      (∃ again, resolve_parameters render { resolved with keys := [] } = .ok again) ∧
        Delivers (fun key part => ∃ text, ParameterResolver.resolve render key = .ok text ∧
          fetch_key py get_object resolved resolved text = .ok part) keys out := by
  have hkey : ∀ again rendered, resolve_parameters render { resolved with keys := [] } = .ok again →
      fetch_key py get_object { resolved with keys } { again with keys := rendered } =
        fetch_key py get_object resolved resolved := by
    intro again rendered hagain
    have hread := (resolve_parameters_eq hagain).1
    funext key
    simp only [fetch_key, hread]
    rfl
  rw [← mapM_delivers]
  rw [fetch, bind_eq_ok]
  constructor
  · rintro ⟨_, hresolved, hout⟩
    obtain ⟨again, rendered, hagain, hrendered, rfl⟩ := resolve_parameters_keys.mp hresolved
    rw [if_pos (rendered_ne_nil hne hrendered), collect_delivers,
      hkey again rendered hagain] at hout
    exact ⟨⟨again, hagain⟩, rendered, hrendered, hout⟩
  · rintro ⟨⟨again, hagain⟩, rendered, hrendered, hout⟩
    refine ⟨_, resolve_parameters_keys.mpr ⟨again, rendered, hagain, hrendered, rfl⟩, ?_⟩
    rw [if_pos (rendered_ne_nil hne hrendered), collect_delivers, hkey again rendered hagain]
    exact hout

-- The plan reads every matching key, each one rendered once more.
theorem planned_iff (hkeys : config.keys = [])
    (hres : resolve_parameters render config = .ok resolved) {out : List (Record Data)} :
    (∃ plan, split py listings render config = .ok plan ∧
      Delivers (fun sub part => fetch py get_object listings render sub none = .ok part) plan out) ↔
      ∃ pages, listings.paginate (get_client config) resolved.bucket resolved.Prefix
        resolved.page_size = .ok pages ∧
        (matching py config pages ≠ [] → ∃ again, resolve_parameters render resolved = .ok again) ∧
        Delivers (fun obj part => ∃ text, ParameterResolver.resolve render obj.Key = .ok text ∧
          fetch_key py get_object resolved resolved text = .ok part)
            (matching py config pages) out := by
  have hsame : { resolved with keys := [] } = resolved := by
    rw [← (resolve_parameters_eq hres).2 hkeys]
  simp only [split, bind_eq_ok, hres, Except.ok.injEq, exists_eq_left']
  cases hpages : listings.paginate (get_client config) resolved.bucket resolved.Prefix
      resolved.page_size with
  | error e => simp
  | ok pages =>
      simp only [Except.ok.injEq, exists_eq_left', pure, Except.pure, delivers_map_iff]
      generalize hbatches : (pages.map fun page =>
        (page.filter fun obj => matches_pattern py config obj.Key).map (·.Key)).filter
          (· ≠ []) = batches
      have hflat : batches.flatten = (matching py config pages).map (·.Key) := by
        rw [← hbatches, List.flatten_filter_ne_nil, matching, List.filter_flatten,
          List.map_flatten, List.map_map]
        rfl
      have hne : ∀ keys ∈ batches, keys ≠ [] := by
        rw [← hbatches]
        exact fun keys hkeys => of_decide_eq_true (List.mem_filter.mp hkeys).2
      rw [delivers_congr fun keys hmem part => sub_iff (hne keys hmem), hsame]
      by_cases hagain : ∃ again, resolve_parameters render resolved = .ok again
      · have hjoin : Delivers (fun keys part => Delivers (fun key part => ∃ text,
            ParameterResolver.resolve render key = .ok text ∧
              fetch_key py get_object resolved resolved text = .ok part)
              keys part) batches out ↔
                Delivers _ (batches.flatMap fun keys => keys) out := delivers_join
        simp only [hagain, true_and, implies_true, hjoin, List.flatMap_id', hflat, delivers_map_iff]
      · cases hbatch : batches with
        | nil =>
            rw [hbatch, List.flatten_nil, eq_comm, List.map_eq_nil_iff] at hflat
            simp [hflat, delivers_nil_iff]
        | cons keys rest =>
            have hmatch : matching py config pages ≠ [] := by
              intro h
              rw [h, hbatch, List.flatten_cons, List.map_nil, List.append_eq_nil_iff] at hflat
              exact hne keys (hbatch ▸ List.mem_cons_self) hflat.1
            simp [hagain, hmatch, delivers_cons_iff]

end Fetch

section Parse

def parsed (py : Parsers Data) (kind : Kind) (body : ByteArray) :
    Except Raised (List (Record Data)) :=
  content_records <$> parse_body py kind body

theorem read_iff {key : String} {part : List (Record Data)} :
    content_records <$> read_object_content py get_object config key = .ok part ↔
      ∃ body, get_object (get_client config) config.bucket key = .ok body ∧
        parsed py (content_kind config.content_type) body = .ok part := by
  rw [read_object_content]
  cases get_object (get_client config) config.bucket key with
  | ok body => simp [parsed]
  | error e => exact iff_of_false (fun h => by cases h) fun ⟨_, h, _⟩ => by cases h

theorem decode_toByteArray (text : String) : decode text.toByteArray = .ok text := by
  have h : String.fromUTF8? text.toByteArray = some text := by
    simp only [String.fromUTF8?]
    rw [dif_pos text.isValidUTF8]
    rfl
  rw [decode, h]

theorem parsed_json (text : String) :
    parsed py .json text.toByteArray = content_records <$> (py.loads text).mapError .other := by
  rw [parsed, parse_body, decode_toByteArray]
  rfl

theorem parsed_csv (text : String) :
    parsed py .csv text.toByteArray = (content_records ∘ .list) <$>
      (py.DictReader text).mapError .other := by
  rw [parsed, parse_body, decode_toByteArray]
  exact (comp_map _ _ _).symm

theorem parsed_text (text : String) :
    parsed py .text text.toByteArray = .ok [⟨.value (.str text)⟩] := by
  rw [parsed, parse_body, decode_toByteArray]
  rfl

-- Of each kind there are objects of one record, and these can differ.
theorem parsed_differs (py : Parsers Data) (kind : Kind) :
    ∃ x y r s, r ≠ s ∧ parsed py kind x = .ok [r] ∧ parsed py kind y = .ok [s] := by
  have hdigits : "0" ≠ "1" := by decide
  cases kind with
  | json =>
      obtain ⟨a, b, hab, ha, hb⟩ := py.loads_number
      refine ⟨"0".toByteArray, "1".toByteArray, ⟨.value a⟩, ⟨.value b⟩, by simpa using hab, ?_, ?_⟩
      · rw [parsed_json, ha]
        rfl
      · rw [parsed_json, hb]
        rfl
  | csv =>
      obtain ⟨a, b, hab, ha, hb⟩ := py.rows_one
      refine ⟨"id\n0\n".toByteArray, "id\n1\n".toByteArray, ⟨.value a⟩, ⟨.value b⟩,
        by simpa using hab, ?_, ?_⟩
      · rw [parsed_csv, ha]
        rfl
      · rw [parsed_csv, hb]
        rfl
  | text =>
      exact ⟨_, _, ⟨.value (.str "0")⟩, ⟨.value (.str "1")⟩,
        by simp, parsed_text "0", parsed_text "1"⟩
  | binary =>
      refine ⟨"0".toByteArray, "1".toByteArray, ⟨.value (.bytes "0".toByteArray)⟩,
        ⟨.value (.bytes "1".toByteArray)⟩,
        ?_, rfl, rfl⟩
      simpa using String.toByteArray_inj.not.mpr hdigits

-- What an empty object reads as tells the kinds apart.
def empty_records : Kind → Option (List (Record Data))
  | .json => none
  | .csv => some []
  | .text => some [⟨.value (.str "")⟩]
  | .binary => some [⟨.value (.bytes "".toByteArray)⟩]

theorem parsed_empty (py : Parsers Data) (kind : Kind) (part : List (Record Data)) :
    parsed py kind "".toByteArray = .ok part ↔ empty_records kind = some part := by
  cases kind with
  | json =>
      obtain ⟨e, he⟩ := py.loads_empty
      rw [parsed_json, he]
      exact iff_of_false (fun h => by cases h) fun h => by cases h
  | csv =>
      rw [parsed_csv, py.rows_empty, empty_records]
      exact ⟨fun h => by cases h; rfl, fun h => by cases h; rfl⟩
  | text =>
      rw [parsed_text, empty_records]
      exact ⟨fun h => by cases h; rfl, fun h => by cases h; rfl⟩
  | binary => exact ⟨fun h => by cases h; rfl, fun h => by cases h; rfl⟩

theorem empty_records_inj (Data : Type) {kind kind' : Kind}
    (h : (empty_records kind : Option (List (Record Data))) = empty_records kind') :
      kind = kind' := by
  cases kind <;> cases kind' <;> first | rfl | simp [empty_records] at h

end Parse

section Agreement

-- What reads objects alike by the settings as they were given and as they are resolved.
def SameReader (config resolved : Config) : Prop :=
  get_client config = get_client resolved ∧ config.bucket = resolved.bucket ∧
    content_kind config.content_type = content_kind resolved.content_type

-- The planned sources deliver what the source itself would fetch.
def Agrees (py : Parsers Data) (listings : Listings)
    (render : String → Except TemplateError String) (config : Config)
    (get_object : Client → String → String → Except String ByteArray) : Prop :=
  ∀ records, fetch py get_object listings render config none = .ok records ↔
    ∃ plan, split py listings render config = .ok plan ∧
      Delivers (fun sub part => fetch py get_object listings render sub none =
        .ok part) plan records

variable {objects : List Obj}

-- The same, by the objects that match.
def ReadsAlike (py : Parsers Data) (render : String → Except TemplateError String)
    (config resolved : Config)
    (objects : List Obj) (get_object : Client → String → String → Except String ByteArray) : Prop :=
  ∀ out, Delivers (fun obj part => fetch_object py get_object config resolved obj =
    .ok part) objects out ↔
    (objects ≠ [] → ∃ again, resolve_parameters render resolved = .ok again) ∧
      Delivers (fun obj part => ∃ text, ParameterResolver.resolve render obj.Key = .ok text ∧
        fetch_key py get_object resolved resolved text = .ok part) objects out

theorem agrees_iff (hkeys : config.keys = []) :
    Agrees py listings render config get_object ↔
      ∀ resolved pages, resolve_parameters render config = .ok resolved →
        listings.paginate (get_client config) resolved.bucket resolved.Prefix
          resolved.page_size = .ok pages →
        ReadsAlike py render config resolved (matching py config pages) get_object := by
  constructor
  · intro hagrees resolved pages hres hpages out
    have h := hagrees out
    rw [direct_iff hkeys hres (n := resolved.page_size), planned_iff hkeys hres] at h
    simpa only [hpages, Except.ok.injEq, exists_eq_left'] using h
  · intro halike out
    cases hres : resolve_parameters render config with
    | error e =>
        refine iff_of_false ?_ ?_
        · simp [fetch, hres, bind, Except.bind]
        · simp [split, hres, bind, Except.bind]
    | ok resolved =>
        rw [direct_iff hkeys hres (n := resolved.page_size), planned_iff hkeys hres]
        constructor
        · rintro ⟨pages, hpages, hread⟩
          exact ⟨pages, hpages, (halike resolved pages hres hpages out).mp hread⟩
        · rintro ⟨pages, hpages, hread⟩
          exact ⟨pages, hpages, (halike resolved pages hres hpages out).mpr hread⟩

theorem fetch_object_iff (hread : resolved.read_content = true) {obj : Obj}
    {part : List (Record Data)} :
    fetch_object py get_object config resolved obj = .ok part ↔
      ∃ body, get_object (get_client config) config.bucket obj.Key = .ok body ∧
        parsed py (content_kind config.content_type) body = .ok part := by
  rw [fetch_object, if_pos hread, read_iff]

theorem fetch_key_iff (hread : resolved.read_content = true) {text : String}
    {part : List (Record Data)} :
    fetch_key py get_object resolved resolved text = .ok part ↔
      ∃ body, get_object (get_client resolved) resolved.bucket text = .ok body ∧
        parsed py (content_kind resolved.content_type) body = .ok part := by
  rw [fetch_key, if_pos hread, read_iff]

theorem alike_of_same_reader (hread : resolved.read_content = true)
    (hsame : SameReader config resolved)
    (hagain : ∃ again, resolve_parameters render resolved = .ok again)
    (hplain : ∀ obj ∈ objects, ParameterResolver.resolve render obj.Key = .ok obj.Key) :
    ReadsAlike py render config resolved objects get_object := by
  obtain ⟨hclient, hbucket, hkind⟩ := hsame
  have hsame : ∀ obj ∈ objects, ∀ part, fetch_object py get_object config resolved obj = .ok part ↔
      ∃ text, ParameterResolver.resolve render obj.Key = .ok text ∧
        fetch_key py get_object resolved resolved text = .ok part := by
    intro obj hobj part
    simp only [hplain obj hobj, Except.ok.injEq, exists_eq_left', fetch_object_iff hread,
      fetch_key_iff hread, hclient,
      hbucket, hkind]
  intro out
  rw [delivers_congr hsame]
  exact (and_iff_right fun _ => hagain).symm

section Converse

variable (halike : ∀ get_object, ReadsAlike py render config resolved objects get_object)
    (hne : objects ≠ [])
include halike hne

theorem read_content_of_alike : resolved.read_content = true := by
  by_contra hread
  obtain ⟨out, hdirect⟩ : ∃ out,
      Delivers (fun obj part => fetch_object py (fun _ _ _ => .error "") config resolved obj =
          .ok part) objects out :=
    exists_delivers fun obj _ => ⟨_, by rw [fetch_object, if_neg hread]⟩
  have hplanned := ((halike _ out).mp hdirect).2
  obtain ⟨obj, hobj⟩ := List.exists_mem_of_ne_nil objects hne
  obtain ⟨part, hpart, text, -, hkey⟩ := hdirect.common_part 1
    (fun _ _ hp => by rw [fetch_object, if_neg hread] at hp; rw [← Except.ok.inj hp]; rfl)
    (fun _ _ ⟨_, _, hp⟩ => by
      rw [fetch_key, if_neg hread] at hp; rw [← Except.ok.inj hp]; rfl) hplanned obj hobj
  rw [fetch_object, if_neg hread] at hpart
  rw [fetch_key, if_neg hread, ← hpart] at hkey
  simp [wrap_as_record] at hkey

-- Where every object is read at its place, the planned sources read it too.
theorem planned_reads (get_object : Client → String → String →
    Except String ByteArray) {x : ByteArray}
    {r : Record Data} (hx : parsed py (content_kind config.content_type) x = .ok [r])
    (hget : ∀ obj ∈ objects, get_object (get_client config) config.bucket obj.Key = .ok x) :
    (∃ again, resolve_parameters render resolved = .ok again) ∧
      ∀ obj ∈ objects, ∃ text, ParameterResolver.resolve render obj.Key = .ok text ∧
        ∃ body, get_object (get_client resolved) resolved.bucket text = .ok body := by
  have hread := read_content_of_alike halike hne
  obtain ⟨out, hdirect⟩ : ∃ out,
      Delivers (fun obj part => fetch_object py get_object config resolved obj =
          .ok part) objects out :=
    exists_delivers fun obj hobj => ⟨[r], (fetch_object_iff hread).mpr ⟨x, hget obj hobj, hx⟩⟩
  obtain ⟨hagain, hplanned⟩ := (halike get_object out).mp hdirect
  refine ⟨hagain hne, fun obj hobj => ?_⟩
  obtain ⟨part, text, htext, hkey⟩ := hplanned.exists_part obj hobj
  obtain ⟨body, hbody, -⟩ := (fetch_key_iff hread).mp hkey
  exact ⟨text, htext, body, hbody⟩

theorem place_of_alike : get_client config = get_client resolved ∧
    config.bucket = resolved.bucket := by
  obtain ⟨x, -, r, -, -, hx, -⟩ := parsed_differs py (content_kind config.content_type)
  obtain ⟨-, hreads⟩ := planned_reads halike hne (fun client bucket _ =>
    if client = get_client config ∧ bucket = config.bucket then .ok x else .error "") hx
      fun obj _ => if_pos ⟨rfl, rfl⟩
  obtain ⟨obj, hobj⟩ := List.exists_mem_of_ne_nil objects hne
  obtain ⟨text, -, body, hbody⟩ := hreads obj hobj
  by_contra hplace
  rw [if_neg fun h => hplace ⟨h.1.symm, h.2.symm⟩] at hbody
  cases hbody

theorem rendered_of_alike :
    (∃ again, resolve_parameters render resolved = .ok again) ∧
      ∀ obj ∈ objects, ∃ text, ParameterResolver.resolve render obj.Key = .ok text := by
  obtain ⟨x, -, r, -, -, hx, -⟩ := parsed_differs py (content_kind config.content_type)
  obtain ⟨hagain, hreads⟩ := planned_reads halike hne (fun _ _ _ => .ok x) hx fun _ _ => rfl
  refine ⟨hagain, fun obj hobj => ?_⟩
  obtain ⟨text, htext, -⟩ := hreads obj hobj
  exact ⟨text, htext⟩

theorem kind_of_alike : content_kind config.content_type = content_kind resolved.content_type := by
  have hread := read_content_of_alike halike hne
  obtain ⟨hagain, hrendered⟩ := rendered_of_alike halike hne
  -- every object is empty
  have hiff : ∀ out,
      Delivers (fun _ part => parsed py (content_kind config.content_type) "".toByteArray =
        .ok part) objects out ↔
        Delivers (fun _ part => parsed py (content_kind resolved.content_type) "".toByteArray =
            .ok part) objects out := by
    intro out
    have h := halike (fun _ _ _ => .ok "".toByteArray) out
    simp only [fetch_object_iff hread, fetch_key_iff hread, Except.ok.injEq, exists_eq_left',
      hagain, implies_true,
      true_and] at h
    rw [h]
    refine delivers_congr fun obj hobj part => ?_
    obtain ⟨text, htext⟩ := hrendered obj hobj
    simp only [htext, Except.ok.injEq, exists_eq_left']
  have hdelivers : ∀ kind part, parsed py kind "".toByteArray = .ok part →
      ∃ out, Delivers (fun _ part => parsed py kind "".toByteArray = .ok part) objects out :=
    fun kind part hpart => exists_delivers fun _ _ => ⟨part, hpart⟩
  refine empty_records_inj Data (Option.ext fun part => ?_)
  rw [← parsed_empty py, ← parsed_empty py]
  constructor
  · intro hpart
    obtain ⟨out, hout⟩ := hdelivers _ part hpart
    obtain ⟨part', hp, hp'⟩ := const_same hne hout ((hiff out).mp hout)
    rw [hp', ← hp, hpart]
  · intro hpart
    obtain ⟨out, hout⟩ := hdelivers _ part hpart
    obtain ⟨part', hp, hp'⟩ := const_same hne hout ((hiff out).mpr hout)
    rw [hp', ← hp, hpart]

-- An object that differs from all others shows where it is read.
theorem plain_of_alike {obj : Obj} (hobj : obj ∈ objects) :
    ParameterResolver.resolve render obj.Key = .ok obj.Key := by
  have hread := read_content_of_alike halike hne
  have hkind := kind_of_alike halike hne
  obtain ⟨x, y, r, s, hrs, hx, hy⟩ := parsed_differs py (content_kind config.content_type)
  let body : String → ByteArray := fun key => if key = obj.Key then x else y
  have hone : ∀ key part, parsed py (content_kind config.content_type) (body key) = .ok part →
      part.length = 1 := by
    intro key part hpart
    by_cases hkey : key = obj.Key
    · rw [show body key = x from if_pos hkey, hx] at hpart
      rw [← Except.ok.inj hpart]
      rfl
    · rw [show body key = y from if_neg hkey, hy] at hpart
      rw [← Except.ok.inj hpart]
      rfl
  have hsome : ∀ key, ∃ part, parsed py (content_kind config.content_type)
      (body key) = .ok part := by
    intro key
    by_cases hkey : key = obj.Key
    · exact ⟨[r], by rw [show body key = x from if_pos hkey, hx]⟩
    · exact ⟨[s], by rw [show body key = y from if_neg hkey, hy]⟩
  obtain ⟨out, hdirect⟩ : ∃ out, Delivers
      (fun obj part => fetch_object py (fun _ _ key => .ok (body key)) config resolved obj =
          .ok part) objects out :=
    exists_delivers fun obj _ => (hsome obj.Key).imp fun part hpart =>
      (fetch_object_iff hread).mpr ⟨_, rfl, hpart⟩
  have hplanned := ((halike _ out).mp hdirect).2
  simp only [fetch_object_iff hread, fetch_key_iff hread, Except.ok.injEq, exists_eq_left',
    ← hkind] at hdirect hplanned
  obtain ⟨part, hpart, text, htext, hpart'⟩ := hdirect.common_part 1 (fun o p hp => hone o.Key p hp)
    (fun o p ⟨text, _, hp⟩ => hone text p hp) hplanned obj hobj
  rw [show body obj.Key = x from if_pos rfl, hx] at hpart
  by_cases hkey : text = obj.Key
  · rw [htext, hkey]
  · rw [show body text = y from if_neg hkey, hy, ← Except.ok.inj hpart] at hpart'
    exact absurd (List.singleton_injective (Except.ok.inj hpart')).symm hrs

end Converse

-- Whatever the objects hold, the plan delivers what the source itself would iff nothing
-- matches, or contents are read, by the same client, bucket and kind as resolved, and
-- rendering the resolved settings once more succeeds and leaves every matching key as it is.
theorem split_agrees_iff (py : Parsers Data) (listings : Listings)
    (render : String → Except TemplateError String) (config : Config) (hkeys : config.keys = []) :
    (∀ get_object, Agrees py listings render config get_object) ↔
      ∀ resolved pages, resolve_parameters render config = .ok resolved →
        listings.paginate (get_client config) resolved.bucket resolved.Prefix
          resolved.page_size = .ok pages →
        matching py config pages = [] ∨
          (config.read_content = true ∧ SameReader config resolved ∧
            (∃ again, resolve_parameters render resolved = .ok again) ∧
            ∀ obj ∈ matching py config pages, ParameterResolver.resolve render obj.Key =
              .ok obj.Key) := by
  simp only [agrees_iff hkeys]
  constructor
  · intro hagrees resolved pages hres hpages
    by_cases hnone : matching py config pages = []
    · exact .inl hnone
    · have halike := fun get_object => hagrees get_object resolved pages hres hpages
      obtain ⟨hclient, hbucket⟩ := place_of_alike halike hnone
      refine .inr ⟨?_, ⟨hclient, hbucket, kind_of_alike halike hnone⟩,
        (rendered_of_alike halike hnone).1, ?_⟩
      · rw [← (resolve_parameters_eq hres).1]
        exact read_content_of_alike halike hnone
      · exact fun obj hobj => plain_of_alike halike hnone hobj
  · intro hcond get_object resolved pages hres hpages
    rcases hcond resolved pages hres hpages with hnone | ⟨hread, hsame, hagain, hplain⟩
    · intro out
      simp [hnone, delivers_nil_iff]
    · rw [← (resolve_parameters_eq hres).1] at hread
      exact alike_of_same_reader hread hsame hagain hplain

-- Enough of a parser for single digits and for tables of one of them.
def digits : Parsers (ℕ ⊕ List (String × String)) where
  loads text :=
    if text = "0" then .ok (.one (.parsed (.inl 0)))
    else if text = "1" then .ok (.one (.parsed (.inl 1)))
    else .error "Expecting value"
  DictReader text :=
    if text = "id\n0\n" then .ok [.parsed (.inr [("id", "0")])]
    else if text = "id\n1\n" then .ok [.parsed (.inr [("id", "1")])]
    else .ok []
  fnmatch name pattern := name = pattern
  loads_empty := ⟨_, rfl⟩
  loads_number := ⟨_, _, by simp, rfl, rfl⟩
  rows_empty := rfl
  rows_one := ⟨_, _, by simp, rfl, rfl⟩

def one_object : Listings where
  paginate _ _ _ _ := .ok [[⟨"0.json", 1, "2024-01-01T00:00:00+00:00", "etag"⟩]]
  paged _ _ _ _ _ := rfl

def plain_config (read_content : Bool) : Config where
  bucket := "bucket"
  Prefix := ""
  file_pattern := none
  page_size := 1000
  read_content := read_content
  content_type := "json"
  aws_access_key_id := none
  aws_secret_access_key := none
  region_name := "us-east-1"
  endpoint_url := none
  keys := []

def two_pages : Listings where
  paginate _ _ _ _ := .ok
    [[⟨"a/0.json", 1, "2024-01-01T00:00:00+00:00", "a0"⟩,
      ⟨"a/notes", 12, "2024-01-01T00:00:00+00:00", "an"⟩],
      [⟨"b/0.json", 1, "2024-01-02T00:00:00+00:00", "b0"⟩]]
  paged _ _ _ _ _ := rfl

def json_config : Config := { plain_config true with file_pattern := some "0.json", page_size := 2 }

def digit_of (_ : Client) (_ key : String) : Except String ByteArray :=
  .ok (if key = "a/0.json" then "0" else "1").toByteArray

-- One key of each page matches, and is a job of its own.
theorem split_agrees_digit : Agrees digits two_pages .ok json_config digit_of ∧
    split digits two_pages .ok json_config =
      .ok [{ json_config with keys := ["a/0.json"] }, { json_config with keys := ["b/0.json"] }] ∧
    fetch digits digit_of two_pages .ok json_config none =
      .ok [⟨.value (.parsed (.inl 0))⟩, ⟨.value (.parsed (.inl 1))⟩] := by
  have hresolved : resolve_parameters .ok json_config = .ok json_config := rfl
  refine ⟨(split_agrees_iff digits two_pages .ok json_config rfl).mpr
    (fun resolved pages hres hpages => .inr ?_) _,
    by decide, ?_⟩
  · obtain rfl : json_config = resolved := Except.ok.inj (hresolved.symm.trans hres)
    refine ⟨rfl, ⟨rfl, rfl, rfl⟩, ⟨_, hresolved⟩, fun obj hobj => ?_⟩
    have hkeys : ∀ obj ∈ pages.flatten, ParameterResolver.templated obj.Key = false := by
      rw [← Except.ok.inj hpages]
      decide
    exact ParameterResolver.resolve_plain (hkeys obj (List.mem_of_mem_filter hobj))
  · rfl

-- A plan without contents delivers the key alone, where the source gives size, date and etag.
theorem split_loses_metadata : ¬Agrees digits one_object .ok (plain_config false)
    (fun _ _ _ => .error "") := by
  intro hagrees
  have hdirect : fetch digits (fun _ _ _ => .error "") one_object .ok (plain_config false) none =
      .ok [⟨.object ⟨"0.json", 1, "2024-01-01T00:00:00+00:00", "etag"⟩⟩] := rfl
  obtain ⟨plan, hplan, hread⟩ := (hagrees _).mp hdirect
  have hone : split digits one_object .ok (plain_config false) =
    .ok [{ plain_config false with keys := ["0.json"] }] := rfl
  obtain rfl := Except.ok.inj (hone.symm.trans hplan)
  obtain ⟨part, rest, hpart, hrest, heq⟩ := delivers_cons_iff.mp hread
  have hkey : fetch digits (fun _ _ _ => .error "") one_object
    .ok { plain_config false with keys := ["0.json"] } none =
      .ok [⟨.key "0.json"⟩] := rfl
  rw [← Except.ok.inj (hkey.symm.trans hpart)] at heq
  simp at heq

end Agreement

end Reflowfy.S3Source
