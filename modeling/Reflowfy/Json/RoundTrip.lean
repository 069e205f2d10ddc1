import Reflowfy.Json.Text

namespace Json

section Strings

theorem hexVal_digitChar {d : ℕ} (h : d < 16) : hexVal (Nat.digitChar d) = some d := by
  revert d
  decide

theorem parseHex4_hex4 {n : ℕ} (h : n < 0x10000) (cs : List Char) :
    parseHex4 (hex4 n ++ cs) = some (n, cs) := by
  have h3 := hexVal_digitChar (d := n / 4096) (by omega)
  have h2 := hexVal_digitChar (d := n / 256 % 16) (by omega)
  have h1 := hexVal_digitChar (d := n / 16 % 16) (by omega)
  have h0 := hexVal_digitChar (d := n % 16) (by omega)
  simp only [hex4, List.cons_append, List.nil_append, parseHex4, h3, h2, h1, h0]
  congr 2
  omega

-- No character is the half of a pair.
theorem toNat_valid (c : Char) : c.toNat < 0xd800 ∨ 0xdfff < c.toNat ∧ c.toNat < 0x110000 := c.valid

theorem unescape_plane {c : Char} (h : c.toNat < 0x10000) (cs : List Char) :
    unescape ('u' :: (hex4 c.toNat ++ cs)) = some (c, cs) := by
  have hvalid : c.toNat < 0xd800 ∨ 0xdfff < c.toNat := (toNat_valid c).imp_right And.left
  simp only [unescape, parseHex4_hex4 h, if_pos hvalid, Char.ofNat_toNat]

theorem unescape_pair {c : Char} (h : ¬c.toNat < 0x10000) (cs : List Char) :
    unescape ('u' :: (hex4 (0xd800 + (c.toNat - 0x10000) / 1024) ++
      '\\' :: 'u' :: (hex4 (0xdc00 + (c.toNat - 0x10000) % 1024) ++ cs))) = some (c, cs) := by
  have hlt : c.toNat < 0x110000 := by
    have hvalid := toNat_valid c
    omega
  have hhigh : ¬(0xd800 + (c.toNat - 0x10000) / 1024 < 0xd800 ∨
    0xdfff < 0xd800 + (c.toNat - 0x10000) / 1024) := by omega
  have hlow : ¬0xdbff < 0xd800 + (c.toNat - 0x10000) / 1024 := by omega
  have hpair : 0xdc00 ≤ 0xdc00 + (c.toNat - 0x10000) % 1024 ∧ 0xdc00 + (c.toNat - 0x10000) % 1024 ≤
    0xdfff := by omega
  have hsum : 0x10000 + (0xd800 + (c.toNat - 0x10000) / 1024 - 0xd800) * 1024 +
      (0xdc00 + (c.toNat - 0x10000) % 1024 - 0xdc00) = c.toNat := by omega
  simp only [unescape, parseHex4_hex4 (n := 0xd800 + (c.toNat - 0x10000) / 1024) (by omega),
    parseHex4_hex4 (n := 0xdc00 + (c.toNat - 0x10000) % 1024) (by omega), if_neg hhigh, if_neg hlow,
      if_pos hpair, hsum,
    Char.ofNat_toNat]

theorem parseChars_escaped {c : Char} {n : ℕ} {cs rest : List Char}
    (h : unescape cs = some (c, rest)) :
    parseChars (n + 1) ('\\' :: cs) = (parseChars n rest).map fun p => (c :: p.1, p.2) := by
  simp [parseChars, h]

-- The kinds of escape, by what the parser makes of each.
theorem escape_cases (c : Char) :
    (∃ cs, escape c = '\\' :: cs ∧ ∀ rest, unescape (cs ++ rest) = some (c, rest)) ∨
      escape c = [c] ∧ c ≠ '"' ∧ c ≠ '\\' ∧ ¬c.toNat < 32 := by
  by_cases hnamed : c ∈ ['"', '\\', '\n', '\r', '\t', '\x0c', '\x08']
  · simp only [List.mem_cons, List.not_mem_nil, or_false] at hnamed
    rcases hnamed with rfl | rfl | rfl | rfl | rfl | rfl | rfl <;> exact .inl ⟨_, rfl, fun _ => rfl⟩
  · simp only [List.mem_cons, List.not_mem_nil, or_false, not_or] at hnamed
    obtain ⟨hquote, hslash, hn, hr, ht, hf, hb⟩ := hnamed
    rw [escape, if_neg hquote, if_neg hslash, if_neg hn, if_neg hr, if_neg ht, if_neg hf, if_neg hb]
    by_cases hplain : 32 ≤ c.toNat ∧ c.toNat ≤ 126
    · rw [if_pos hplain]
      exact .inr ⟨rfl, hquote, hslash, Nat.not_lt.mpr hplain.1⟩
    · rw [if_neg hplain]
      by_cases hplane : c.toNat < 0x10000
      · rw [if_pos hplane]
        exact .inl ⟨_, rfl, unescape_plane hplane⟩
      · rw [if_neg hplane]
        refine .inl ⟨_, List.cons_append, fun rest => ?_⟩
        simp only [List.cons_append, List.append_assoc]
        exact unescape_pair hplane rest

theorem parseChars_escape (c : Char) (n : ℕ) (cs : List Char) :
    parseChars (n + 1) (escape c ++ cs) = (parseChars n cs).map fun p => (c :: p.1, p.2) := by
  rcases escape_cases c with ⟨escaped, hescape, hback⟩ | ⟨hescape, hquote, hslash, hcontrol⟩
  · rw [hescape, List.cons_append]
    exact parseChars_escaped (hback cs)
  · rw [hescape]
    simp [parseChars, hquote, hslash, hcontrol]

theorem parseChars_flatMap (s : List Char) (n : ℕ) (rest : List Char) (h : s.length < n) :
    parseChars n (s.flatMap escape ++ '"' :: rest) = some (s, rest) := by
  induction s generalizing n with
  | nil =>
      obtain ⟨n, rfl⟩ := Nat.exists_eq_succ_of_ne_zero (Nat.ne_of_gt h)
      simp [parseChars]
  | cons c s ih =>
      obtain ⟨n, rfl⟩ := Nat.exists_eq_succ_of_ne_zero
        (Nat.ne_of_gt (Nat.lt_of_le_of_lt (Nat.zero_le _) h))
      rw [List.flatMap_cons, List.append_assoc, Nat.succ_eq_add_one, parseChars_escape,
        ih n (by simpa using h)]
      rfl

theorem length_escape_pos (c : Char) : 0 < (escape c).length := by
  rcases escape_cases c with ⟨_, hescape, _⟩ | ⟨hescape, _⟩ <;> rw [hescape] <;>
    exact Nat.succ_pos _

theorem length_le_flatMap (s : List Char) : s.length ≤ (s.flatMap escape).length := by
  induction s with
  | nil => simp
  | cons c s ih =>
      have hpos := length_escape_pos c
      simp only [List.flatMap_cons, List.length_append, List.length_cons]
      omega

theorem parseString_flatMap (s : String) (rest : List Char) :
    parseString (s.toList.flatMap escape ++ '"' :: rest) = some (s, rest) := by
  have hlen := length_le_flatMap s.toList
  rw [parseString, parseChars_flatMap _ _ _
    (by simp only [List.length_append, List.length_cons]; omega)]
  simp

end Strings

section Scalars

-- What follows a token.
def Delimited (cs : List Char) : Prop := ∀ c ∈ cs.head?, isTokenChar c = false

theorem delimited_nil : Delimited [] := by simp [Delimited]

theorem delimited_cons {c : Char} {cs : List Char} (h : isTokenChar c = false) :
    Delimited (c :: cs) := by
  simpa [Delimited] using h

theorem parseScalar_append {token rest : List Char} {j : Json}
    (htoken : ∀ c ∈ token, isTokenChar c = true)
    (hscalar : scalar token = some j) (hrest : Delimited rest) :
      parseScalar (token ++ rest) = some (j, rest) := by
  have htake : rest.takeWhile isTokenChar = [] := by
    cases rest with
    | nil => rfl
    | cons c cs => exact List.takeWhile_cons_of_neg (by simpa [Delimited] using hrest)
  have hdrop : rest.dropWhile isTokenChar = rest := by
    cases rest with
    | nil => rfl
    | cons c cs => exact List.dropWhile_cons_of_neg (by simpa [Delimited] using hrest)
  rw [parseScalar, List.takeWhile_append_of_pos htoken,
    List.dropWhile_append_of_pos htoken, htake, hdrop,
    List.append_nil, hscalar]
  rfl

theorem head_toDigits {n : ℕ} (h : 0 < n) : (Nat.toDigits 10 n).head? ≠ some '0' := by
  induction n using Nat.strongRecOn with
  | _ n ih =>
      rcases Nat.lt_or_ge n 10 with hlt | hge
      · have hdigit : ∀ d < 10, 0 < d → [Nat.digitChar d].head? ≠ some '0' := by decide
        rw [Nat.toDigits_of_lt_base hlt]
        exact hdigit n hlt h
      · rw [Nat.toDigits_of_base_le (by decide) hge]
        have hne : Nat.toDigits 10 (n / 10) ≠ [] := Nat.toDigits_ne_nil
        rw [List.head?_append_of_ne_nil _ hne]
        exact ih (n / 10) (by omega) (by omega)

theorem isNat_toDigits (n : ℕ) : isNat (Nat.toDigits 10 n) = true := by
  have hne : Nat.toDigits 10 n ≠ [] := Nat.toDigits_ne_nil
  have hall : (Nat.toDigits 10 n).all Char.isDigit = true :=
    List.all_eq_true.mpr fun c hc => Nat.isDigit_of_mem_toDigits (by decide) (by decide) hc
  rcases Nat.eq_zero_or_pos n with rfl | hpos
  · decide
  · simp [isNat, isDigits, hne, hall, head_toDigits hpos]

-- A number starts with its sign or a digit.
theorem unsigned_digits {ds : List Char} (h : isDigits ds = true) : unsigned ds = ds := by
  unfold unsigned
  split
  · simp [isDigits] at h
  · rfl

theorem takeWhile_digits {ds : List Char} (h : isDigits ds = true) :
    ds.takeWhile Char.isDigit = ds ∧ ds.dropWhile Char.isDigit = [] := by
  simp only [isDigits, Bool.decide_and, Bool.and_eq_true, decide_eq_true_eq, List.all_eq_true] at h
  exact ⟨List.takeWhile_eq_self_iff.mpr h.2, List.dropWhile_eq_nil_iff.mpr h.2⟩

theorem isDigits_of_isNat {ds : List Char} (h : isNat ds = true) : isDigits ds = true := by
  simp only [isNat, decide_eq_true_eq] at h
  exact h.1

-- What tells a token from a word of the format.
theorem ne_word {p : List Char → Bool} {token word : List Char} (h : p token = true)
    (hword : p word = false) :
    token ≠ word := by
  rintro rfl
  rw [hword] at h
  cases h

theorem scalar_number {token : List Char} (h : isNat (unsigned token) = true) :
    scalar token = some (int (intVal token)) := by
  have hdigits := isDigits_of_isNat h
  obtain ⟨htake, hdrop⟩ := takeWhile_digits hdigits
  have hne : ∀ word, isNat (unsigned word) = false → token ≠ word := fun word =>
    ne_word (p := fun cs => isNat (unsigned cs)) h
  have hnull := hne ['n', 'u', 'l', 'l'] (by decide)
  have htrue := hne ['t', 'r', 'u', 'e'] (by decide)
  have hfalse := hne ['f', 'a', 'l', 's', 'e'] (by decide)
  have hnan := hne ['N', 'a', 'N'] (by decide)
  have hinf : unsigned token ≠ ['I', 'n', 'f', 'i', 'n', 'i', 't', 'y'] := ne_word h (by decide)
  have hfloat : isFloat token = false := by
    simp [isFloat, hnan, hinf, hdrop, isFraction, isExponent]
  simp [scalar, hnull, htrue, hfalse, hfloat, h]

theorem scalar_renderInt (n : ℤ) : scalar (renderInt n) = some (int n) := by
  have hnat := isNat_toDigits n.natAbs
  have hsame := unsigned_digits (isDigits_of_isNat hnat)
  have hval : Nat.ofDigitChars 10 (Nat.toDigits 10 n.natAbs) 0 = n.natAbs :=
    Nat.ofDigitChars_ten_toDigits
  unfold renderInt
  split
  · have hminus : isNat (unsigned ('-' :: Nat.toDigits 10 n.natAbs)) = true := hnat
    rw [scalar_number hminus, intVal, hval]
    congr 2
    omega
  · rw [scalar_number (by rwa [hsame])]
    have hplus : intVal (Nat.toDigits 10 n.natAbs) = Nat.ofDigitChars 10
        (Nat.toDigits 10 n.natAbs) 0 := by
      unfold intVal
      split
      · rename_i cs heq
        rw [heq] at hsame
        exact absurd (congrArg List.length hsame) (by simp [unsigned])
      · rfl
    rw [hplus, hval]
    congr 2
    omega

theorem isTokenChar_digit {c : Char} (h : c.isDigit = true) : isTokenChar c = true := by
  simp [isTokenChar, Char.isAlphanum, h]

theorem isTokenChar_digits {ds : List Char} (h : isDigits ds = true) :
    ∀ c ∈ ds, isTokenChar c = true := by
  simp only [isDigits, decide_eq_true_eq, List.all_eq_true] at h
  exact fun c hc => isTokenChar_digit (h.2 c hc)

theorem isTokenChar_toDigits (n : ℕ) : ∀ c ∈ Nat.toDigits 10 n, isTokenChar c = true :=
  isTokenChar_digits (isDigits_of_isNat (isNat_toDigits n))

theorem isTokenChar_exponent {cs : List Char} (h : isExponent cs = true) :
    ∀ c ∈ cs, isTokenChar c = true := by
  unfold isExponent at h
  split at h <;> simp only [decide_eq_true_eq, Bool.false_eq_true] at h
  all_goals
    have hdigits := isTokenChar_digits h.2
    rcases h.1 with rfl | rfl <;> simpa [isTokenChar] using hdigits

theorem isTokenChar_fraction {cs : List Char} (h : isFraction cs = true) :
    ∀ c ∈ cs, isTokenChar c = true := by
  unfold isFraction at h
  split at h
  · rename_i cs
    simp only [decide_eq_true_eq] at h
    intro c hc
    rw [List.mem_cons, ← List.takeWhile_append_dropWhile (p := Char.isDigit) (l := cs),
      List.mem_append] at hc
    rcases hc with rfl | hc | hc
    · decide
    · exact isTokenChar_digits h.1 c hc
    · rcases h.2 with hnil | hexp
      · rw [hnil] at hc
        cases hc
      · exact isTokenChar_exponent hexp c hc
  · exact isTokenChar_exponent h

theorem isTokenChar_unsigned {cs : List Char} (h : ∀ c ∈ unsigned cs, isTokenChar c = true) :
    ∀ c ∈ cs, isTokenChar c = true := by
  unfold unsigned at h
  split at h
  · intro c hc
    rcases List.mem_cons.mp hc with rfl | hc
    · decide
    · exact h c hc
  · exact h

theorem isTokenChar_float {cs : List Char} (h : isFloat cs = true) :
    ∀ c ∈ cs, isTokenChar c = true := by
  simp only [isFloat, decide_eq_true_eq] at h
  rcases h with rfl | hinf | ⟨hnat, hfraction⟩
  · exact List.all_eq_true.mp (by decide)
  · exact isTokenChar_unsigned (List.all_eq_true.mp (by rw [hinf]; decide))
  · refine isTokenChar_unsigned fun c hc => ?_
    rw [← List.takeWhile_append_dropWhile (p := Char.isDigit) (l := unsigned cs),
      List.mem_append] at hc
    rcases hc with hc | hc
    · exact isTokenChar_digits (isDigits_of_isNat hnat) c hc
    · exact isTokenChar_fraction hfraction c hc

theorem scalar_float {token : List Char} (h : isFloat token = true) :
    scalar token = some (float (String.ofList token)) := by
  have hnull : token ≠ ['n', 'u', 'l', 'l'] := ne_word h (by decide)
  have htrue : token ≠ ['t', 'r', 'u', 'e'] := ne_word h (by decide)
  have hfalse : token ≠ ['f', 'a', 'l', 's', 'e'] := ne_word h (by decide)
  simp [scalar, hnull, htrue, hfalse, h]

theorem float_ne_nil {cs : List Char} (h : isFloat cs = true) : cs ≠ [] := ne_word h (by decide)

theorem isTokenChar_null : ∀ c ∈ ['n', 'u', 'l', 'l'], isTokenChar c = true :=
  List.all_eq_true.mp (by decide)

theorem isTokenChar_true : ∀ c ∈ ['t', 'r', 'u', 'e'], isTokenChar c = true :=
  List.all_eq_true.mp (by decide)

theorem isTokenChar_false : ∀ c ∈ ['f', 'a', 'l', 's', 'e'], isTokenChar c = true :=
  List.all_eq_true.mp (by decide)

theorem isTokenChar_renderInt (n : ℤ) : ∀ c ∈ renderInt n, isTokenChar c = true := by
  unfold renderInt
  split
  · intro c hc
    rcases List.mem_cons.mp hc with rfl | hc
    · decide
    · exact isTokenChar_toDigits _ c hc
  · exact isTokenChar_toDigits _

end Scalars

section Values

-- How the text of a value starts.
def Starts (c : Char) : Prop := c = '"' ∨ c = '[' ∨ c = '{' ∨ isTokenChar c = true

theorem starts_of_token {token : List Char} (htoken : ∀ c ∈ token, isTokenChar c = true)
    (hne : token ≠ []) :
    ∃ c cs, token = c :: cs ∧ Starts c := by
  obtain ⟨c, cs, rfl⟩ := List.exists_cons_of_ne_nil hne
  exact ⟨c, cs, rfl, .inr (.inr (.inr (htoken c List.mem_cons_self)))⟩

theorem renderInt_ne_nil (n : ℤ) : renderInt n ≠ [] := by
  unfold renderInt
  split
  · exact List.cons_ne_nil _ _
  · exact Nat.toDigits_ne_nil

theorem render_starts {j : Json} (h : j.Printable) : ∃ c cs, render j = c :: cs ∧ Starts c := by
  cases j with
  | null => exact starts_of_token isTokenChar_null (List.cons_ne_nil _ _)
  | bool b =>
      cases b with
      | false => exact starts_of_token isTokenChar_false (List.cons_ne_nil _ _)
      | true => exact starts_of_token isTokenChar_true (List.cons_ne_nil _ _)
  | int n => exact starts_of_token (isTokenChar_renderInt n) (renderInt_ne_nil n)
  | float text => exact starts_of_token (isTokenChar_float h) (float_ne_nil h)
  | str s => exact ⟨'"', _, rfl, .inl rfl⟩
  | list items => cases items <;> exact ⟨'[', _, rfl, .inr (.inl rfl)⟩
  | obj entries => cases entries <;> exact ⟨'{', _, rfl, .inr (.inr (.inl rfl))⟩

theorem skipSpace_of_starts {c : Char} (h : Starts c) (cs : List Char) :
    skipSpace (c :: cs) = c :: cs := by
  have hspace : isSpace c = false := by
    rcases h with rfl | rfl | rfl | htoken
    · decide
    · decide
    · decide
    · by_contra hspace
      simp only [Bool.not_eq_false, isSpace, decide_eq_true_eq] at hspace
      rcases hspace with rfl | rfl | rfl | rfl <;> exact absurd htoken (by decide)
  exact List.dropWhile_cons_of_neg (by simp [hspace])

-- A value starts neither as a list ends, nor as an object does.
theorem starts_not_closing {c : Char} (h : Starts c) : c ≠ ']' ∧ c ≠ '}' := by
  constructor <;> (rintro rfl; rcases h with h | h | h | h <;> exact absurd h (by decide))

theorem parseValue_token {token rest : List Char} {j : Json} {n : ℕ}
    (htoken : ∀ c ∈ token, isTokenChar c = true)
    (hne : token ≠ []) (hscalar : scalar token = some j) (hrest : Delimited rest) :
    parseValue (n + 1) (token ++ rest) = some (j, rest) := by
  obtain ⟨c, cs, rfl⟩ := List.exists_cons_of_ne_nil hne
  have hc := htoken c List.mem_cons_self
  have hparse := parseScalar_append htoken hscalar hrest
  rw [List.cons_append] at hparse ⊢
  unfold parseValue
  split
  · rename_i heq
    cases heq
    exact absurd hc (by decide)
  · rename_i heq
    cases heq
    exact absurd hc (by decide)
  · rename_i heq
    cases heq
    exact absurd hc (by decide)
  · exact hparse

-- How deep the parser goes for a value.
mutual

def size : Json → ℕ
  | null | bool _ | int _ | float _ | str _ => 1
  | list items => 1 + sizeItems items
  | obj entries => 1 + sizeEntries entries

def sizeItems : List Json → ℕ
  | [] => 0
  | item :: items => 1 + max (size item) (sizeItems items)

def sizeEntries : List (String × Json) → ℕ
  | [] => 0
  | (_, v) :: entries => 1 + max (size v) (sizeEntries entries)

end

theorem size_pos (j : Json) : 0 < size j := by
  cases j <;> simp only [size] <;> omega

theorem delimited_renderItems (items : List Json) (rest : List Char) :
    Delimited (renderItems items ++ rest) := by
  cases items <;> exact delimited_cons (by decide)

theorem delimited_renderEntries (entries : List (String × Json)) (rest : List Char) :
    Delimited (renderEntries entries ++ rest) := by
  cases entries <;> exact delimited_cons (by decide)

-- The parser reads the text of a value back, whatever follows. One case per kind of value; the
-- fuel goes down with the depth.
mutual

theorem parseValue_render : (j : Json) → (n : ℕ) → (rest : List Char) → j.Printable →
    size j ≤ n → Delimited rest →
    parseValue n (render j ++ rest) = some (j, rest)
  | j, 0, _, _, hn, _ => absurd (size_pos j) (by omega)
  | null, n + 1, rest, _, _, hrest =>
      parseValue_token isTokenChar_null (List.cons_ne_nil _ _)
        (rfl : scalar (render null) = _) hrest
  | bool true, n + 1, rest, _, _, hrest =>
      parseValue_token isTokenChar_true (List.cons_ne_nil _ _)
        (rfl : scalar (render (bool true)) = _) hrest
  | bool false, n + 1, rest, _, _, hrest =>
      parseValue_token isTokenChar_false (List.cons_ne_nil _ _)
        (rfl : scalar (render (bool false)) = _) hrest
  | int m, n + 1, rest, _, _, hrest =>
      parseValue_token (isTokenChar_renderInt m) (renderInt_ne_nil m) (scalar_renderInt m) hrest
  | float text, n + 1, rest, hj, _, hrest => by
      have hscalar := scalar_float hj
      rw [String.ofList_toList] at hscalar
      exact parseValue_token (isTokenChar_float hj) (float_ne_nil hj) hscalar hrest
  | str s, n + 1, rest, _, _, _ => by
      simp only [render, renderString, List.cons_append, List.append_assoc,
        List.nil_append, parseValue,
        parseString_flatMap, Option.map_some]
  | list [], n + 1, rest, _, _, _ => rfl
  | list (item :: items), n + 1, rest, hj, hn, _ => by
      have hitems := parseItems_render item items n rest hj (by simp only [size] at hn; omega)
      obtain ⟨c, cs, hc, hstarts⟩ := render_starts hj.1
      rw [hc, List.cons_append] at hitems
      simp only [render, List.cons_append, List.append_assoc, hc, parseValue,
        skipSpace_of_starts hstarts]
      split
      · rename_i heq
        cases heq
        exact absurd rfl (starts_not_closing hstarts).1
      · rw [hitems]
        rfl
  | obj [], n + 1, rest, _, _, _ => rfl
  | obj ((k, v) :: entries), n + 1, rest, hj, hn, _ => by
      have hentries := parseEntries_render k v entries n rest hj (by simp only [size] at hn; omega)
      rw [renderString, List.cons_append] at hentries
      simp only [render, renderString, List.cons_append, List.append_assoc, parseValue,
        skipSpace_of_starts (c := '"') (.inl rfl)] at hentries ⊢
      split
      · rename_i heq
        simp at heq
      · rw [hentries]
        rfl

theorem parseItems_render : (item : Json) → (items : List Json) → (n : ℕ) → (rest : List Char) →
    PrintableItems (item :: items) → sizeItems (item :: items) ≤ n →
    parseItems n (render item ++ (renderItems items ++ rest)) = some (item :: items, rest)
  | _, _, 0, _, _, hn => absurd hn (by simp only [sizeItems]; omega)
  | item, [], n + 1, rest, hitems, hn => by
      have hitem := parseValue_render item n (renderItems [] ++ rest) hitems.1
        (by simp only [sizeItems] at hn; omega)
        (delimited_renderItems [] rest)
      rw [parseItems, hitem]
      rfl
  | item, next :: items, n + 1, rest, hitems, hn => by
      have hitem := parseValue_render item n (renderItems (next :: items) ++ rest) hitems.1
        (by simp only [sizeItems] at hn; omega) (delimited_renderItems (next :: items) rest)
      have hrest := parseItems_render next items n rest hitems.2
        (by simp only [sizeItems] at hn ⊢; omega)
      obtain ⟨c, cs, hc, hstarts⟩ := render_starts hitems.2.1
      have hcomma (tail : List Char) : skipSpace (',' :: tail) = ',' :: tail := rfl
      have hspace : skipSpace (' ' :: (render next ++ (renderItems items ++ rest))) =
          render next ++ (renderItems items ++ rest) := by
        rw [hc]
        exact skipSpace_of_starts hstarts _
      rw [parseItems, hitem]
      simp only [renderItems, List.cons_append, List.append_assoc, hcomma, hspace,
        hrest, Option.map_some]

theorem parseEntries_render : (k : String) → (v : Json) →
    (entries : List (String × Json)) → (n : ℕ) →
    (rest : List Char) → PrintableEntries ((k, v) :: entries) →
    sizeEntries ((k, v) :: entries) ≤ n →
    parseEntries n (renderString k ++
      (':' :: ' ' :: (render v ++ (renderEntries entries ++ rest)))) =
      some ((k, v) :: entries, rest)
  | _, _, _, 0, _, _, hn => absurd hn (by simp only [sizeEntries]; omega)
  | k, v, [], n + 1, rest, hentries, hn => by
      have hvalue := parseValue_render v n (renderEntries [] ++ rest) hentries.1
        (by simp only [sizeEntries] at hn; omega)
        (delimited_renderEntries [] rest)
      obtain ⟨c, cs, hc, hstarts⟩ := render_starts hentries.1
      have hcolon (tail : List Char) : skipSpace (':' :: tail) = ':' :: tail := rfl
      have hspace (tail : List Char) : skipSpace (' ' :: (render v ++ tail)) =
          render v ++ tail := by
        rw [hc]
        exact skipSpace_of_starts hstarts _
      simp only [renderString, List.cons_append, List.append_assoc, List.nil_append, parseEntries,
        parseString_flatMap,
        hcolon, hspace, hvalue]
      rfl
  | k, v, (k', v') :: entries, n + 1, rest, hentries, hn => by
      have hvalue := parseValue_render v n (renderEntries ((k', v') :: entries) ++ rest) hentries.1
        (by simp only [sizeEntries] at hn; omega)
          (delimited_renderEntries ((k', v') :: entries) rest)
      have hrest := parseEntries_render k' v' entries n rest hentries.2
        (by simp only [sizeEntries] at hn ⊢; omega)
      obtain ⟨c, cs, hc, hstarts⟩ := render_starts hentries.1
      have hcolon (tail : List Char) : skipSpace (':' :: tail) = ':' :: tail := rfl
      have hspace (tail : List Char) : skipSpace (' ' :: (render v ++ tail)) =
          render v ++ tail := by
        rw [hc]
        exact skipSpace_of_starts hstarts _
      have hcomma (tail : List Char) : skipSpace (',' :: tail) = ',' :: tail := rfl
      have hquote (tail : List Char) : skipSpace (' ' :: '"' :: tail) = '"' :: tail := rfl
      simp only [renderString, renderEntries, List.cons_append, List.append_assoc,
        List.nil_append] at hrest hvalue
      simp only [renderString, renderEntries, List.cons_append, List.append_assoc,
        List.nil_append, parseEntries,
        parseString_flatMap, hcolon, hspace, hvalue, hcomma, hquote, hrest, Option.map_some]

end

-- A text is long enough to serve as fuel.
mutual

theorem size_le_length : (j : Json) → j.Printable → size j ≤ (render j).length
  | null, _ => by decide
  | bool true, _ => by decide
  | bool false, _ => by decide
  | int n, _ => List.length_pos_iff.mpr (renderInt_ne_nil n)
  | float _, h => List.length_pos_iff.mpr (float_ne_nil h)
  | str s, _ => by simp [size, render, renderString]
  | list [], _ => by decide
  | list (item :: items), h => by
      have hitem := size_le_length item h.1
      have hitems := sizeItems_lt_length items h.2
      simp only [size, sizeItems, render, List.length_cons, List.length_append]
      omega
  | obj [], _ => by decide
  | obj ((k, v) :: entries), h => by
      have hvalue := size_le_length v h.1
      have hentries := sizeEntries_lt_length entries h.2
      simp only [size, sizeEntries, render, List.length_cons, List.length_append]
      omega

theorem sizeItems_lt_length : (items : List Json) → PrintableItems items →
    sizeItems items < (renderItems items).length
  | [], _ => by decide
  | item :: items, h => by
      have hitem := size_le_length item h.1
      have hitems := sizeItems_lt_length items h.2
      simp only [sizeItems, renderItems, List.length_cons, List.length_append]
      omega

theorem sizeEntries_lt_length : (entries : List (String × Json)) → PrintableEntries entries →
    sizeEntries entries < (renderEntries entries).length
  | [], _ => by decide
  | (k, v) :: entries, h => by
      have hvalue := size_le_length v h.1
      have hentries := sizeEntries_lt_length entries h.2
      simp only [sizeEntries, renderEntries, List.length_cons, List.length_append]
      omega

end

-- Parsing inverts printing, so a text is the text of one tree.
theorem parse_render {j : Json} (h : j.Printable) : parse (render j) = some j := by
  obtain ⟨c, cs, hc, hstarts⟩ := render_starts h
  have hspace : skipSpace (render j) = render j := by
    rw [hc]
    exact skipSpace_of_starts hstarts cs
  have hvalue := parseValue_render j ((render j).length + 1) [] h
    (Nat.le_succ_of_le (size_le_length j h)) delimited_nil
  rw [List.append_nil] at hvalue
  rw [parse, hspace, hvalue]
  rfl

theorem render_inj {j j' : Json} (h : j.Printable) (h' : j'.Printable) :
    render j = render j' ↔ j = j' := by
  refine ⟨fun heq => ?_, congrArg render⟩
  have hparse := parse_render h
  rw [heq, parse_render h'] at hparse
  exact (Option.some.inj hparse).symm

end Values

section Canonical

theorem printableEntries_iff {entries : List (String × Json)} :
    PrintableEntries entries ↔ ∀ entry ∈ entries, Printable entry.2 := by
  induction entries with
  | nil => simp [PrintableEntries]
  | cons entry entries ih => simp [PrintableEntries, ih]

mutual

theorem printable_sorted : (j : Json) → j.Printable → j.sorted.Printable
  | null, h | bool _, h | int _, h | float _, h | str _, h => by simpa only [sorted] using h
  | list items, h => by
      simp only [sorted, Printable] at h ⊢
      exact printable_sortedItems items h
  | obj entries, h => by
      simp only [sorted, Printable] at h ⊢
      rw [printableEntries_iff]
      intro entry hentry
      exact printableEntries_iff.mp (printable_sortedEntries entries h) entry
        ((List.mem_insertionSort _).mp hentry)

theorem printable_sortedItems : (items : List Json) → PrintableItems items →
    PrintableItems (sortedItems items)
  | [], _ => trivial
  | item :: items, h => ⟨printable_sorted item h.1, printable_sortedItems items h.2⟩

theorem printable_sortedEntries : (entries : List (String × Json)) → PrintableEntries entries →
    PrintableEntries (sortedEntries entries)
  | [], _ => trivial
  | (_, v) :: entries, h => ⟨printable_sorted v h.1, printable_sortedEntries entries h.2⟩

end

-- The text with sorted keys tells apart just the trees that differ as values.
theorem render_sorted_eq_iff {a b : Json} (ha : a.WellFormed) (hb : b.WellFormed)
    (ha' : a.Printable) (hb' : b.Printable) : render a.sorted = render b.sorted ↔ Same a b := by
  rw [render_inj (printable_sorted a ha') (printable_sorted b hb'), sorted_eq_iff a b ha hb]

end Canonical

end Json
