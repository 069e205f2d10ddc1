import Reflowfy.Sources.Api

namespace Reflowfy.IDBasedAPISource

open ParameterResolver

-- What the service has to say to the request of one ID.
inductive Answer
  | missing
  | record (value : Value)
  | failed

section Spec

variable (service : Service) (render : Params → String → Except TemplateError String)
    (c : Config) (params : Params)

-- The reply to the request of an ID, if it can be made.
def reply (id_value : Value) : Except Raised Reply := do
  let endpoint ← service.format c.endpoint_template id_value
  let body ← body_by_id service c id_value
  pure (service.request ⟨get_client service c, c.method, endpoint, sent_body body, c.params⟩)

def answer (id_value : Value) : Answer :=
  match reply service c id_value with
  | .error _ | .ok (.RequestError _) => .failed
  | .ok (.response status_code _ json) =>
      if status_code = 404 then .missing
      else if 200 ≤ status_code ∧ status_code < 300 then
        match json with
        | .ok value => .record value
        | .error _ => .failed
      else .failed

def Answer.records : Answer → List Value
  | record value => [wrap_as_record value]
  | missing | failed => []

-- One record for each ID that there is, in the order of the IDs.
def id_list (ids : List Value) : List Value := ids.flatMap fun id_value =>
    (answer service c id_value).records

-- `fetch` over the sources that `split` plans, one after the other.
def fetch_split : Except Raised (List Value) := do
  let jobs ← split c params
  List.flatten <$> jobs.mapM fun job => fetch service render job params none

-- No ID is missing from what is fetched without a sign.
structure Complete (ids : List Value) : Prop where
  fails : (∃ id_value ∈ ids, answer service c id_value = .failed) →
    (∃ e, fetch service render c params none = .error e) ∧
      ∃ e, fetch_split service render c params = .error e
  fetches : (∀ id_value ∈ ids, answer service c id_value ≠ .failed) →
    fetch service render c params none = .ok (id_list service c ids) ∧
      fetch_split service render c params = .ok (id_list service c ids)

-- The templates of the configuration render, those in the IDs too.
def Renders (ids : List Value) : Prop := ∀ s ∈ strings (config { c with ids }), ∃ s',
    resolve (render params) s = .ok s'

end Spec

variable {service : Service} {render : Params → String → Except TemplateError String}
    {c : Config} {params : Params}
  {ids : List Value}

section Answers

-- What `_fetch_by_id` makes of an answer, where it returns.
def Answer.fetched : Answer → Option (Option Value)
  | missing => some none
  | record value => some (some value)
  | failed => none

theorem fetch_by_id_eq (id_value : Value) : (fetch_by_id service c id_value).toOption =
    (answer service c id_value).fetched := by
  unfold fetch_by_id answer reply
  cases service.format c.endpoint_template id_value with
  | error e => rfl
  | ok endpoint =>
      cases body_by_id service c id_value with
      | error e => rfl
      | ok body =>
          simp only [bind, Except.bind, pure, Except.pure]
          cases service.request
              ⟨get_client service c, c.method, endpoint, sent_body body, c.params⟩ with
          | RequestError e => rfl
          | response status_code text json =>
              simp only
              split
              · rfl
              · split
                · cases json <;> rfl
                · rfl

theorem fetch_by_id_ok_iff {id_value : Value} {record : Option Value} :
    fetch_by_id service c id_value = .ok record ↔
      (answer service c id_value).fetched = some record := by
  rw [← fetch_by_id_eq]
  cases fetch_by_id service c id_value <;> simp [Except.toOption]

theorem failed_iff {id_value : Value} : answer service c id_value = .failed ↔
    (answer service c id_value).fetched = none := by
  cases answer service c id_value <;> simp [Answer.fetched]

-- What `fetch` keeps of an answer.
def Answer.kept (a : Answer) : List Value := id_records (a.fetched.getD none)

theorem fetch_ids_ok (h : ∀ id_value ∈ ids, answer service c id_value ≠ .failed) :
    fetch_ids service c ids =
      .ok (ids.flatMap fun id_value => (answer service c id_value).kept) := by
  rw [fetch_ids_iff]
  have hparts : ∀ id_value ∈ ids, ∃ record, fetch_by_id service c id_value = .ok record ∧
      id_records record = (answer service c id_value).kept := by
    intro id_value hid
    obtain ⟨record, hrecord⟩ := Option.ne_none_iff_exists'.mp (mt failed_iff.mpr (h id_value hid))
    exact ⟨record, fetch_by_id_ok_iff.mpr hrecord, by rw [Answer.kept, hrecord]; rfl⟩
  have hdelivers : Paging.Delivers
    (fun id_value part => ∃ record, fetch_by_id service c id_value = .ok record ∧
      id_records record = part) (ids.map fun id_value => id_value) _ := Paging.delivers_map hparts
  rwa [List.map_id'] at hdelivers

theorem not_ok_of_failed (h : ∃ id_value ∈ ids, answer service c id_value = .failed)
    (records : List Value) :
    fetch_ids service c ids ≠ .ok records := by
  intro hok
  obtain ⟨id_value, hid, hfailed⟩ := h
  obtain ⟨part, record, hrecord, -⟩ := (fetch_ids_iff.mp hok).exists_part id_value hid
  rw [fetch_by_id_ok_iff, failed_iff.mp hfailed] at hrecord
  cases hrecord

-- What is kept of an answer is its record, unless that is a value like an empty object.
theorem kept_eq_iff (a : Answer) : a.kept = a.records ↔ ∀ value, a = .record value →
    value.truthy = true := by
  cases a with
  | record value => by_cases h : value.truthy <;> simp [Answer.kept, Answer.fetched,
      Answer.records, id_records, h]
  | _ => simp [Answer.kept, Answer.fetched, Answer.records, id_records]

theorem kept_length_le (a : Answer) : a.kept.length ≤ a.records.length := by
  cases a <;> simp [Answer.kept, Answer.fetched, Answer.records, id_records]

end Answers

section Lists

variable {α β : Type} {f g : α → List β} {l : List α}

-- Parts that are not longer come to the same list only if they are the same.
theorem flatMap_eq_iff (h : ∀ a ∈ l, (f a).length ≤ (g a).length) :
    l.flatMap f = l.flatMap g ↔ ∀ a ∈ l, f a = g a := by
  have hle : ∀ l : List α, (∀ a ∈ l, (f a).length ≤ (g a).length) →
      (l.flatMap f).length ≤ (l.flatMap g).length := by
    intro l h
    induction l with
    | nil => exact le_rfl
    | cons a l ih =>
        rw [List.flatMap_cons, List.flatMap_cons, List.length_append, List.length_append]
        exact Nat.add_le_add (h a List.mem_cons_self)
          (ih fun b hb => h b (List.mem_cons_of_mem a hb))
  refine ⟨fun heq => ?_, fun hall => List.flatMap_congr hall⟩
  induction l with
  | nil => exact nofun
  | cons a l ih =>
      have htail : ∀ b ∈ l, (f b).length ≤ (g b).length :=
        fun b hb => h b (List.mem_cons_of_mem a hb)
      rw [List.flatMap_cons, List.flatMap_cons] at heq
      have hlen := congrArg List.length heq
      rw [List.length_append, List.length_append] at hlen
      have hhead := h a List.mem_cons_self
      have hrest := hle l htail
      obtain ⟨hfirst, hlast⟩ := List.append_inj heq (by omega)
      intro b hb
      rcases List.mem_cons.mp hb with rfl | hb
      · exact hfirst
      · exact ih htail hlast b hb

end Lists

section Plans

theorem fetch_eq (hmode : is_per_id_mode c) (hids : get_all_ids c params = .ok ids)
    (records : List Value) :
    fetch service render c params none = .ok records ↔
      (∀ s ∈ strings (config c), ∃ s', resolve (render params) s = .ok s') ∧
      fetch_ids service c ids = .ok records := by
  rw [fetch, Paging.bind_eq_ok, ← renders_iff]
  simp only [hids, hmode, if_true]
  constructor
  · rintro ⟨v, hv, hfetch⟩
    exact ⟨⟨v, hv⟩, hfetch⟩
  · rintro ⟨⟨v, hv⟩, hfetch⟩
    exact ⟨v, hv, hfetch⟩

-- The IDs are among the strings of the configuration.
theorem renders_ids_iff : Renders render c params ids ↔
    (∀ s ∈ strings (config { c with ids := [] }), ∃ s', resolve (render params) s = .ok s') ∧
      ∀ id_value ∈ ids, ∀ s ∈ strings id_value, ∃ s', resolve (render params) s = .ok s' := by
  have hmem : ∀ s, s ∈ strings (config { c with ids }) ↔
      s ∈ strings (config { c with ids := [] }) ∨ ∃ id_value ∈ ids, s ∈ strings id_value := by
    intro s
    simp only [config, strings, entry_strings, item_strings, List.mem_append, mem_item_strings,
      List.not_mem_nil, or_false,
      false_or]
    generalize (∃ item, item ∈ ids ∧ s ∈ strings item) = of_ids
    tauto
  unfold Renders
  constructor
  · intro h
    exact ⟨fun s hs => h s ((hmem s).mpr (.inl hs)), fun id_value hid s hs =>
      h s ((hmem s).mpr (.inr ⟨id_value, hid, hs⟩))⟩
  · rintro ⟨hbase, hall⟩ s hs
    rcases (hmem s).mp hs with hs | ⟨id_value, hid, hs⟩
    · exact hbase s hs
    · exact hall id_value hid s hs

-- The source has these IDs itself, or has none and is given them.
theorem own_ids (hids : get_all_ids c params = .ok ids) : c.ids = [] ∨ c.ids = ids := by
  unfold get_all_ids at hids
  split at hids
  · exact .inl (List.isEmpty_iff.mp ‹_›)
  · exact .inr (Except.ok.inj hids)

theorem renders_own (hids : get_all_ids c params = .ok ids) (h : Renders render c params ids) :
    ∀ s ∈ strings (config c), ∃ s', resolve (render params) s = .ok s' := by
  rw [renders_ids_iff] at h
  refine renders_ids_iff.mpr ⟨h.1, fun id_value hid => h.2 id_value ?_⟩
  rcases own_ids hids with hnone | hsame
  · rw [hnone] at hid
    cases hid
  · rwa [hsame] at hid

-- Every planned child renders iff the source does with all the IDs.
theorem renders_slices_iff (hsize : 0 < c.batch_size) (hne : ids ≠ []) :
    (∀ part ∈ Paging.slices c.batch_size ids, Renders render c params part) ↔
    Renders render c params ids := by
  simp only [renders_ids_iff]
  constructor
  · intro h
    have hslices : Paging.slices c.batch_size ids ≠ [] := by
      intro hnil
      have hflat := Paging.slices_flatten hsize ids
      rw [hnil] at hflat
      exact hne hflat.symm
    obtain ⟨part, hpart⟩ := List.exists_mem_of_ne_nil _ hslices
    refine ⟨(h part hpart).1, fun id_value hid => ?_⟩
    rw [← Paging.slices_flatten hsize ids] at hid
    obtain ⟨part, hpart, hid⟩ := List.mem_flatten.mp hid
    exact (h part hpart).2 id_value hid
  · rintro ⟨hbase, hall⟩ part hpart
    refine ⟨hbase, fun id_value hid => hall id_value ?_⟩
    rw [← Paging.slices_flatten hsize ids]
    exact List.mem_flatten.mpr ⟨part, hpart, hid⟩

theorem fetch_split_eq (hmode : is_per_id_mode c) (hsize : 0 < c.batch_size)
    (hids : get_all_ids c params = .ok ids)
    (records : List Value) : fetch_split service render c params = .ok records ↔
      (ids ≠ [] → Renders render c params ids) ∧ fetch_ids service c ids = .ok records := by
  have hsplit : split c params =
      .ok ((Paging.slices c.batch_size ids).map fun part => { c with ids := part }) := by
    rw [split, if_pos hmode, hids]
    simp only [bind, Except.bind, if_neg hsize.ne']
    rfl
  have hchild : ∀ part ∈ Paging.slices c.batch_size ids, ∀ out,
      fetch service render { c with ids := part } params none = .ok out ↔
        Renders render c params part ∧ fetch_ids service c part = .ok out := by
    intro part hpart out
    have hne := Paging.mem_slices_ne_nil hsize part hpart
    have hall : get_all_ids { c with ids := part } params = .ok part := by simp [get_all_ids, hne]
    have hmode' : is_per_id_mode { c with ids := part } := hmode
    rw [fetch_eq hmode' hall, fetch_ids_iff, fetch_ids_iff]
    rfl
  have hjobs : fetch_split service render c params = .ok records ↔ Paging.Delivers
      (fun part out => Renders render c params part ∧ fetch_ids service c part = .ok out)
      (Paging.slices c.batch_size ids) records := by
    have hmapM : fetch_split service render c params = .ok records ↔ Paging.Delivers
        (fun job part => fetch service render job params none = .ok part)
        ((Paging.slices c.batch_size ids).map fun part => { c with ids := part }) records := by
      rw [fetch_split, hsplit]
      exact Paging.flatten_mapM_eq_ok
    rw [hmapM, Paging.delivers_map_iff, Paging.delivers_congr hchild]
  have hwhole : fetch_ids service c ids = .ok records ↔ Paging.Delivers
      (fun part out => fetch_ids service c part = .ok out)
          (Paging.slices c.batch_size ids) records := by
    simp only [fetch_ids_iff]
    rw [Paging.delivers_join, List.flatMap_id', Paging.slices_flatten hsize]
  rw [hjobs, hwhole]
  constructor
  · intro h
    refine ⟨fun hne => (renders_slices_iff hsize hne).mp fun part hpart => ?_, ?_⟩
    · obtain ⟨out, hrenders, -⟩ := h.exists_part part hpart
      exact hrenders
    · exact (Paging.delivers_congr fun part hpart out =>
        and_iff_right ((h.exists_part part hpart).choose_spec.1)).mp h
  · rintro ⟨hrenders, h⟩
    refine (Paging.delivers_congr fun part hpart out => and_iff_right ?_).mpr h
    obtain ⟨id_value, hid⟩ :=
      List.exists_mem_of_ne_nil part (Paging.mem_slices_ne_nil hsize part hpart)
    have hmem : id_value ∈ ids := by
      rw [← Paging.slices_flatten hsize ids]
      exact List.mem_flatten.mpr ⟨part, hpart, hid⟩
    have hne := List.ne_nil_of_mem hmem
    exact (renders_slices_iff hsize hne).mpr (hrenders hne) part hpart

end Plans

section Complete

theorem error_of_not_ok {α : Type} {x : Except Raised α} (h : ∀ a, x ≠ .ok a) :
    ∃ e, x = .error e := by
  cases x with
  | error e => exact ⟨e, rfl⟩
  | ok a => exact absurd rfl (h a)

theorem fails_of_failed (hmode : is_per_id_mode c) (hsize : 0 < c.batch_size)
    (hids : get_all_ids c params = .ok ids)
    (hfailed : ∃ id_value ∈ ids, answer service c id_value = .failed) :
    (∃ e, fetch service render c params none = .error e) ∧
    ∃ e, fetch_split service render c params = .error e := by
  refine ⟨error_of_not_ok fun records h => ?_, error_of_not_ok fun records h => ?_⟩
  · exact not_ok_of_failed hfailed records ((fetch_eq hmode hids records).mp h).2
  · exact not_ok_of_failed hfailed records ((fetch_split_eq hmode hsize hids records).mp h).2

-- Without a failure, everything is fetched iff every record is kept.
theorem fetch_ids_complete_iff (hgoes : ∀ id_value ∈ ids, answer service c id_value ≠ .failed) :
    fetch_ids service c ids = .ok (id_list service c ids) ↔
      ∀ id_value ∈ ids, ∀ value, answer service c id_value = .record value →
        value.truthy = true := by
  rw [fetch_ids_ok hgoes, Except.ok.injEq, id_list,
    flatMap_eq_iff fun id_value _ => kept_length_le _]
  exact forall₂_congr fun id_value _ => kept_eq_iff _

end Complete

-- In per-ID mode no ID is silently missing if and only if a request fails, or the templates
-- render and no ID's response is a value like an empty object or list.
theorem ids_complete_iff (hmode : is_per_id_mode c) (hsize : 1 ≤ c.batch_size)
    (hids : get_all_ids c params = .ok ids) :
    Complete service render c params ids ↔ (∃ id_value ∈ ids, answer service c id_value = .failed) ∨
      Renders render c params ids ∧
        ∀ id_value ∈ ids, ∀ value, answer service c id_value = .record value →
          value.truthy = true := by
  constructor
  · intro hcomplete
    rw [or_iff_not_imp_left]
    intro hnone
    have hgoes : ∀ id_value ∈ ids, answer service c id_value ≠
        .failed := fun id_value hid hfailed =>
      hnone ⟨id_value, hid, hfailed⟩
    obtain ⟨hfetch, hplan⟩ := hcomplete.fetches hgoes
    rw [fetch_eq hmode hids] at hfetch
    rw [fetch_split_eq hmode hsize hids] at hplan
    refine ⟨?_, (fetch_ids_complete_iff hgoes).mp hfetch.2⟩
    by_cases hne : ids = []
    · rw [hne] at hids ⊢
      have hown : c.ids = [] := (own_ids hids).elim (fun h => h) fun h => h
      have hsame : Renders render c params c.ids := hfetch.1
      rwa [hown] at hsame
    · exact hplan.1 hne
  · rintro (hfailed | ⟨hrenders, htruthy⟩)
    · refine ⟨fails_of_failed hmode hsize hids, fun hgoes => ?_⟩
      obtain ⟨id_value, hid, hbad⟩ := hfailed
      exact absurd hbad (hgoes id_value hid)
    · refine ⟨fails_of_failed hmode hsize hids, fun hgoes => ?_⟩
      have hall := (fetch_ids_complete_iff hgoes).mpr htruthy
      exact ⟨(fetch_eq hmode hids _).mpr ⟨renders_own hids hrenders, hall⟩,
        (fetch_split_eq hmode hsize hids _).mpr ⟨fun _ => hrenders, hall⟩⟩

-- A service that has the user 1, has not the user 2, and answers for 3 with an empty object.
def user_api : Service where
  format template id_value :=
    match template, id_value with
    | "/users/{id}", .str text => .ok ("/users/" ++ text)
    | _, _ => .ok template
  str _ := ""
  b64encode text := text
  request r :=
    if r.endpoint = "/users/1" then .response 200 "" (.ok (.dict [(.str "name", .str "Ann")]))
    else if r.endpoint = "/users/2" then .response 404 "" (.ok .None)
    else .response 200 "" (.ok (.dict []))

def user_source (ids : List Value) : Config :=
  ⟨"https://api", "/users/{id}", ids, "GET", [], none, none, 1, "30.0", none, .None, [], true⟩

theorem ids_complete_two :
    Complete user_api (fun _ text => .ok text) (user_source [.str "1", .str "2"]) .empty
    [.str "1", .str "2"] := by
  refine (ids_complete_iff (by decide) (by decide) rfl).mpr (.inr ⟨fun s _ => ?_, ?_⟩)
  · unfold resolve
    split
    · exact ⟨s, rfl⟩
    · exact ⟨s, rfl⟩
  · intro id_value hid value hvalue
    simp only [List.mem_cons, List.not_mem_nil, or_false] at hid
    rcases hid with rfl | rfl
    · cases hvalue
      rfl
    · cases hvalue

-- The user 3 is not there, and neither is a sign of it.
theorem empty_object_missing : ¬Complete user_api (fun _ text => .ok text)
    (user_source [.str "1", .str "3"]) .empty
    [.str "1", .str "3"] := by
  intro hcomplete
  have hfetch := (hcomplete.fetches ?_).1
  · have hlen := congrArg (fun r => (r.toOption.getD []).length) hfetch
    have htwo : 1 = 2 := hlen
    cases htwo
  · simp only [List.mem_cons, List.not_mem_nil, or_false]
    rintro id_value (rfl | rfl) <;> exact nofun

end Reflowfy.IDBasedAPISource
