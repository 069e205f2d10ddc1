import Reflowfy.ApiDestination

namespace Reflowfy.ApiDestination

open AsyncUtils BaseDestination TransformationRunner

variable {py : Python} {dest : ApiDestination} {record : Value}

-- What a template is made of, character by character.
abbrev Mark : Type := Char ⊕ List Char

def marks : Piece → List Mark
  | .text chars => chars.map .inl
  | .field field => [.inr field]

def template (py : Python) (dest : ApiDestination) : List Mark :=
  (pieces py.is_word dest.url.toList none).flatMap marks

def placeholders (py : Python) (dest : ApiDestination) : List (List Char) :=
  (template py dest).filterMap Sum.getRight?

def field_value (record : Value) (field : List Char) : Option Value :=
  (fields record).lookup (.str (String.ofList field))

-- The text of a field, if the record has it.
def shown (py : Python) (record : Value) (field : List Char) : String :=
  ((field_value record field).map py.str).getD ""

def filled (py : Python) (record : Value) : Mark → List Char
  | .inl c => [c]
  | .inr field => quote (shown py record field)

-- What a reader of the URL is meant to get.
def plain (py : Python) (record : Value) : Mark → List UInt8
  | .inl c => String.utf8EncodeChar c
  | .inr field => Uri.bytes (shown py record field).toList

def first_missing (py : Python) (dest : ApiDestination) (record : Value) : Option (List Char) :=
  (placeholders py dest).find? fun field => (field_value record field).isNone

-- The characters that a quoted text does not have.
def reserved (c : Char) : Bool := !c.isAlphanum && !(['%', '-', '.', '_', '~'].contains c)

-- The parts of the template between separators.
def parts (py : Python) (dest : ApiDestination) (q : Char → Bool) : List (List Mark) :=
  (template py dest).splitOnP (Sum.elim q fun _ => false)

section Quoting

theorem unreserved_ascii (b : UInt8) (h : unreserved b = true) : b.toNat < 128 ∧
    Char.ofNat b.toNat ≠ '%' := by
  have hall : ∀ n : Fin 256, unreserved (UInt8.ofNat n.val) = true → n.val < 128 ∧
    Char.ofNat n.val ≠ '%' := by decide +kernel
  have hb := hall ⟨b.toNat, b.toNat_lt⟩
  rw [UInt8.ofNat_toNat] at hb
  exact hb h

theorem not_reserved_of_unreserved (b : UInt8) (h : unreserved b = true) :
    reserved (Char.ofNat b.toNat) = false := by
  have hall : ∀ n : Fin 256, unreserved (UInt8.ofNat n.val) = true →
    reserved (Char.ofNat n.val) = false := by decide +kernel
  have hb := hall ⟨b.toNat, b.toNat_lt⟩
  rw [UInt8.ofNat_toNat] at hb
  exact hb h

theorem not_reserved_hexDigit {n : ℕ} (h : n < 16) : reserved (Uri.hexDigit n) = false :=
  (by decide +kernel : ∀ n : Fin 16, reserved (Uri.hexDigit n) = false) ⟨n, h⟩

theorem not_reserved_of_mem_quote {text : String} {c : Char} (h : c ∈ quote text) :
    reserved c = false := by
  rcases Uri.mem_encode h with rfl | ⟨n, hn, rfl⟩ | ⟨b, hb, rfl⟩
  · decide +kernel
  · exact not_reserved_hexDigit hn
  · exact not_reserved_of_unreserved b hb

theorem decode_quote (text : String) (rest : List Char) :
    Uri.decode (quote text ++ rest) = Uri.bytes text.toList ++ Uri.decode rest :=
  Uri.decode_encode unreserved_ascii _ rest

theorem quote_inj {text text' : String} (h : quote text = quote text') : text = text' := by
  have hdecode := decode_quote text []
  rw [h, decode_quote, List.append_cancel_right_eq] at hdecode
  exact String.toList_inj.mp (Uri.bytes_inj hdecode).symm

end Quoting

section Filling

variable {show_value : Value → List Char} {missing : List Char → SendError}

def fill (show_value : Value → List Char) (record : Value) : Piece → List Char
  | .text chars => chars
  | .field field => ((field_value record field).map show_value).getD []

def lacks (record : Value) : Piece → Option (List Char)
  | .text _ => none
  | .field field => if (field_value record field).isNone then some field else none

theorem substitute_field (field : List Char) : substitute show_value missing record (.field field) =
    match field_value record field with
    | some value => .ok (show_value value)
    | none => .error (missing field) := rfl

-- The pieces are filled, unless one names a field that is not there; the first one does for
-- the error.
theorem mapM_substitute (l : List Piece) :
    l.mapM (substitute show_value missing record) = match l.findSome? (lacks record) with
      | some field => .error (missing field)
      | none => .ok (l.map (fill show_value record)) := by
  induction l with
  | nil => rfl
  | cons piece l ih =>
      rw [List.mapM_cons, ih, List.findSome?_cons]
      cases piece with
      | text chars =>
          simp only [substitute, lacks, fill, List.map_cons]
          cases l.findSome? (lacks record) <;> rfl
      | field field =>
          simp only [substitute_field, lacks, fill, List.map_cons]
          cases field_value record field with
          | none => rfl
          | some value => cases l.findSome? (lacks record) <;> rfl

theorem pieces_append (is_word : Char → Bool) {front : List Char} (h : '{' ∉ front)
    (rest : List Char) :
    pieces is_word (front ++ rest) none = front.map (fun c => .text [c]) ++
      pieces is_word rest none := by
  induction front with
  | nil => rfl
  | cons c front ih =>
      have hc : c ≠ '{' := fun heq => h (heq ▸ List.mem_cons_self)
      rw [List.cons_append, pieces, if_neg hc, ih fun hmem => h (List.mem_cons_of_mem _ hmem)]
      rfl

theorem pieces_of_not_mem (is_word : Char → Bool) {text : List Char} (h : '{' ∉ text) :
    pieces is_word text none = text.map fun c => .text [c] := by
  have happend := pieces_append is_word h []
  rwa [List.append_nil, pieces, List.append_nil] at happend

theorem findSome?_lacks (l : List Piece) :
    l.findSome? (lacks record) =
      ((l.flatMap marks).filterMap Sum.getRight?).find? fun field =>
      (field_value record field).isNone := by
  induction l with
  | nil => rfl
  | cons piece l ih =>
      rw [List.findSome?_cons, List.flatMap_cons, List.filterMap_append, List.find?_append, ← ih]
      cases piece with
      | text chars =>
          have hnone : (chars.map (Sum.inl : Char → Mark)).filterMap Sum.getRight? = [] := by
            simp [List.filterMap_map, Function.comp_def]
          simp only [lacks, marks, hnone]
          rfl
      | field field =>
          simp only [lacks, marks]
          cases h : (field_value record field).isNone <;> simp [h]

theorem flatten_fill (l : List Piece) :
    (l.map (fill (fun value => quote (py.str value)) record)).flatten = (l.flatMap marks).flatMap
    (filled py record) := by
  induction l with
  | nil => rfl
  | cons piece l ih =>
      rw [List.map_cons, List.flatten_cons, ih, List.flatMap_cons, List.flatMap_append]
      congr 1
      cases piece with
      | text chars => simp [fill, marks, List.flatMap_map, filled]
      | field field =>
          simp only [fill, marks, List.flatMap_singleton, filled, shown]
          cases field_value record field <;> rfl

-- A URL is its template filled, unless a placeholder's field is missing.
theorem record_url_eq (index : ℕ) :
    record_url py dest record index = match first_missing py dest record with
      | some field => .error (url_missing index field)
      | none => .ok (String.ofList ((template py dest).flatMap (filled py record))) := by
  unfold record_url
  split
  · rename_i hplain
    have htemplate : template py dest = dest.url.toList.map .inl := by
      rw [template, pieces_of_not_mem py.is_word hplain, List.flatMap_map]
      exact List.map_eq_flatMap.symm
    have hnone : first_missing py dest record = none := by
      rw [first_missing, placeholders, htemplate]
      simp [List.filterMap_map, Function.comp_def]
    simp only [hnone, htemplate, List.flatMap_map, filled]
    simp
  · rw [mapM_substitute, findSome?_lacks]
    unfold first_missing placeholders template
    cases List.find? _ _ with
    | some field => rfl
    | none => exact congrArg (fun text => Except.ok (String.ofList text)) (flatten_fill _)

end Filling

section Parts

variable {q : Char → Bool}

theorem decode_filled (marks : List Mark) (h : .inl '%' ∉ marks) :
    Uri.decode (marks.flatMap (filled py record)) = marks.flatMap (plain py record) := by
  induction marks with
  | nil => rfl
  | cons mark marks ih =>
      have hrest := ih fun hmem => h (List.mem_cons_of_mem _ hmem)
      rw [List.flatMap_cons, List.flatMap_cons, ← hrest]
      cases mark with
      | inl c =>
          have hc : c ≠ '%' := fun heq => h (heq ▸ List.mem_cons_self)
          exact Uri.decode_cons_of_ne hc _
      | inr field => exact decode_quote _ _

-- With one placeholder at most, a part says what its field was.
theorem filled_inj {record' : Value} {marks : List Mark} (hone : marks.countP Sum.isRight ≤ 1)
    (h : marks.flatMap (filled py record) = marks.flatMap (filled py record')) {field : List Char}
    (hmem : .inr field ∈ marks) :
    shown py record field = shown py record' field := by
  induction marks with
  | nil => cases hmem
  | cons mark marks ih =>
      rw [List.flatMap_cons, List.flatMap_cons] at h
      cases mark with
      | inl c =>
          rcases List.mem_cons.mp hmem with heq | hmem
          · cases heq
          · rw [List.countP_cons_of_neg (by simp)] at hone
            exact ih hone (List.append_cancel_left h) hmem
      | inr field' =>
          rw [List.countP_cons_of_pos rfl] at hone
          have hchars : ∀ mark ∈ marks, ¬Sum.isRight mark = true :=
            List.countP_eq_zero.mp (by omega)
          rcases List.mem_cons.mp hmem with heq | hmem
          · cases heq
            have hsame : marks.flatMap (filled py record) = marks.flatMap (filled py record') := by
              refine List.flatMap_congr fun mark hmark => ?_
              cases mark with
              | inl c => rfl
              | inr _ => exact absurd rfl (hchars _ hmark)
            rw [hsame] at h
            exact quote_inj (List.append_cancel_right h)
          · exact absurd rfl (hchars _ hmem)

theorem splitOnP_url (hq : ∀ c, q c = true → reserved c = true) :
    ((template py dest).flatMap (filled py record)).splitOnP q = (parts py dest q).map
    (·.flatMap (filled py record)) := by
  refine Uri.splitOnP_flatMap ?_ ?_ _
  · intro mark hmark
    cases mark with
    | inl c => exact ⟨c, rfl, hmark⟩
    | inr _ => cases hmark
  · intro mark hmark c hc
    cases mark with
    | inl _ =>
        rw [List.mem_singleton.mp hc]
        exact hmark
    | inr field =>
        by_contra hsep
        have hreserved := hq c (by simpa using hsep)
        rw [not_reserved_of_mem_quote hc] at hreserved
        cases hreserved

end Parts

-- What becomes of a record's fields in its URL: they stay within their parts, between the
-- separators of the template, and can be read back there.
structure UrlParts (py : Python) (dest : ApiDestination) (q : Char → Bool) (record : Value)
    (url : String) : Prop where
  complete : first_missing py dest record = none
  parts : url.toList.splitOnP q = (parts py dest q).map (·.flatMap (filled py record))
  decoded : '%' ∉ dest.url.toList → (url.toList.splitOnP q).map Uri.decode = (dest.parts py q).map
    (·.flatMap (plain py record))
  probed : dest.health_url.toList <+: url.toList
  faithful : (∀ part ∈ dest.parts py q, part.countP Sum.isRight ≤ 1) → ∀ record' index' url',
    record_url py dest record' index' = .ok url' →
      (url = url' ↔ ∀ field ∈ placeholders py dest, shown py record field = shown py record' field)

theorem url_of_ok {index : ℕ} {url : String} (h : record_url py dest record index = .ok url) :
    first_missing py dest record = none ∧ url.toList = (template py dest).flatMap
      (filled py record) := by
  rw [record_url_eq] at h
  cases hmissing : first_missing py dest record with
  | some field =>
      rw [hmissing] at h
      cases h
  | none =>
      rw [hmissing] at h
      cases h
      exact ⟨rfl, String.toList_ofList⟩

def source : Piece → List Char
  | .text chars => chars
  | .field field => '{' :: field ++ ['}']

-- The pieces of a text are all of it.
theorem flatMap_source (is_word : Char → Bool) (text : List Char) (opened : Option (List Char)) :
    (pieces is_word text opened).flatMap source =
    (opened.map fun name => '{' :: name.reverse).getD [] ++ text := by
  induction text generalizing opened with
  | nil => cases opened <;> simp [pieces, source]
  | cons c text ih =>
      cases opened with
      | none =>
          rw [pieces]
          split
          · rename_i hc
            rw [ih, hc]
            rfl
          · rw [List.flatMap_cons, ih]
            rfl
      | some name =>
          rw [pieces]
          split
          · rw [ih]
            simp
          · split
            · rename_i hc
              rw [List.flatMap_cons, ih, hc.1]
              simp [source]
            · split
              · rename_i hc
                rw [List.flatMap_cons, ih, hc]
                simp [source]
              · rw [List.flatMap_cons, ih]
                simp [source]

theorem mem_url_of_mem_template {c : Char} (h : .inl c ∈ template py dest) :
    c ∈ dest.url.toList := by
  obtain ⟨piece, hpiece, hmark⟩ := List.mem_flatMap.mp h
  have hsource := flatMap_source py.is_word dest.url.toList none
  rw [show dest.url.toList = ((none : Option (List Char)).map fun name => '{' :: name.reverse).getD
    [] ++ dest.url.toList from rfl,
    ← hsource]
  refine List.mem_flatMap.mpr ⟨piece, hpiece, ?_⟩
  cases piece with
  | text chars => simpa [marks, source] using hmark
  | field field => simp [marks] at hmark

theorem probed_of_url {url : String}
    (h : url.toList = (template py dest).flatMap (filled py record)) :
    dest.health_url.toList <+: url.toList := by
  have hfront : '{' ∉ dest.url.toList.takeWhile (· ≠ '{') := fun hmem => by
    have hne := List.all_eq_true.mp (List.all_takeWhile ..) _ hmem
    simp at hne
  rw [h, template, ← List.takeWhile_append_dropWhile (p := (· ≠ '{')) (l := dest.url.toList),
    pieces_append _ hfront,
    List.flatMap_append, List.flatMap_append, List.flatMap_map, health_url, String.toList_ofList]
  refine ⟨_, congrArg (· ++ _) ?_⟩
  simp [marks, List.flatMap_assoc, filled]

theorem record_url_parts {q : Char → Bool} (hq : ∀ c, q c = true → reserved c = true) (index : ℕ) :
    (∀ error, record_url py dest record index = .error error ↔
      ∃ field, first_missing py dest record = some field ∧ error = url_missing index field) ∧
    ∀ url, record_url py dest record index = .ok url → UrlParts py dest q record url := by
  constructor
  · intro error
    rw [record_url_eq]
    cases first_missing py dest record with
    | none => simp
    | some field => simp [eq_comm]
  · intro url hurl
    obtain ⟨hcomplete, htext⟩ := url_of_ok hurl
    have hparts : url.toList.splitOnP q = (parts py dest q).map (·.flatMap (filled py record)) := by
      rw [htext]
      exact splitOnP_url hq
    refine ⟨hcomplete, hparts, fun hpercent => ?_, ?_, fun hone record' index' url' hurl' => ?_⟩
    · rw [hparts, List.map_map]
      refine List.map_congr_left fun part hpart => decode_filled part fun hmem => ?_
      exact hpercent (mem_url_of_mem_template (Uri.mem_of_mem_splitOnP hpart hmem))
    · exact probed_of_url htext
    · obtain ⟨_, htext'⟩ := url_of_ok hurl'
      constructor
      · rintro rfl field hfield
        obtain ⟨mark, hmark, hright⟩ := List.mem_filterMap.mp hfield
        obtain rfl : mark = .inr field := Sum.getRight?_eq_some_iff.mp hright
        obtain ⟨part, hpart, hmem⟩ :=
          Uri.exists_mem_splitOnP hmark (p := Sum.elim q fun _ => false) rfl
        rw [htext', splitOnP_url hq] at hparts
        exact filled_inj (hone part hpart) (List.map_inj_left.mp hparts.symm part hpart) hmem
      · intro hsame
        refine String.toList_inj.mp ?_
        rw [htext, htext']
        refine List.flatMap_congr fun mark hmark => ?_
        cases mark with
        | inl c => rfl
        | inr field =>
            rw [filled, filled, hsame field (List.mem_filterMap.mpr ⟨_, hmark, rfl⟩)]

def users_python : Python where
  str
    | .str text => text
    | .int n => toString n
    | _ => ""
  repr text := "'" ++ text ++ "'"
  type_name _ := "list"
  key_type_name _ := "int"
  is_word c := c.isAlphanum || c = '_'
  dumps _ := .ok ""

def users_api : ApiDestination where
  url := "https://api.example.com/users/{user_id}"
  method := "PUT"
  params := some [("version", .str "{version}")]
  body := .None
  per_record := true
  concurrency := 16
  params_field := some "query"
  body_field := some "payload"
  max_attempts := 3
  concurrency_pos := by decide
  single h := by cases h
  body_none _ := rfl
  differ _ := by decide

theorem record_url_parts_slash :
    record_url users_python users_api (.dict [(.str "user_id", .str "a/b")]) 0 =
      .ok "https://api.example.com/users/a%2Fb" ∧
    UrlParts users_python users_api (fun c => c = '/') (.dict [(.str "user_id", .str "a/b")])
      "https://api.example.com/users/a%2Fb" := by
  have hurl : record_url users_python users_api (.dict [(.str "user_id", .str "a/b")]) 0 =
      .ok "https://api.example.com/users/a%2Fb" := by decide +kernel
  refine ⟨hurl, (record_url_parts (fun c hc => ?_) 0).2 _ hurl⟩
  obtain rfl : c = '/' := by simpa using hc
  decide +kernel

end Reflowfy.ApiDestination
