import Mathlib.Data.Nat.Notation
import Mathlib.Data.List.Basic

-- Percent-encoding of texts, and the parts of a text between separators.
namespace Uri

def hexDigit (n : ℕ) : Char := if n < 10 then Char.ofNat (48 + n) else Char.ofNat (55 + n)

def hexValue (c : Char) : Option ℕ :=
  if '0' ≤ c ∧ c ≤ '9' then some (c.toNat - 48)
  else if 'A' ≤ c ∧ c ≤ 'F' then some (c.toNat - 55)
  else if 'a' ≤ c ∧ c ≤ 'f' then some (c.toNat - 87)
  else none

def encodeByte (safe : UInt8 → Bool) (b : UInt8) : List Char :=
  if safe b then [Char.ofNat b.toNat] else ['%', hexDigit (b.toNat / 16), hexDigit (b.toNat % 16)]

def encode (safe : UInt8 → Bool) (bytes : List UInt8) : List Char := bytes.flatMap (encodeByte safe)

-- The bytes that a reader gets; a percent sign without two digits stands for itself.
def decode : List Char → List UInt8
  | '%' :: h :: l :: rest => match hexValue h, hexValue l with
      | some x, some y => UInt8.ofNat (16 * x + y) :: decode rest
      | _, _ => String.utf8EncodeChar '%' ++ decode (h :: l :: rest)
  | c :: rest => String.utf8EncodeChar c ++ decode rest
  | [] => []

def bytes (text : List Char) : List UInt8 := text.flatMap String.utf8EncodeChar

section RoundTrip

variable {safe : UInt8 → Bool}

theorem hexValue_hexDigit {n : ℕ} (h : n < 16) : hexValue (hexDigit n) = some n :=
  (by decide : ∀ n : Fin 16, hexValue (hexDigit n) = some n.val) ⟨n, h⟩

theorem decode_cons_of_ne {c : Char} (h : c ≠ '%') (rest : List Char) :
    decode (c :: rest) = String.utf8EncodeChar c ++ decode rest := by
  rw [decode.eq_def]
  split
  · rename_i heq
    exact absurd (List.cons.inj heq).1 h
  · rename_i heq
    cases heq
    rfl
  · rename_i heq
    cases heq

theorem utf8EncodeChar_ascii {b : UInt8} (h : b.toNat < 128) :
    String.utf8EncodeChar (Char.ofNat b.toNat) = [b] := by
  have hall : ∀ n : Fin 128, String.utf8EncodeChar (Char.ofNat n.val) =
    [UInt8.ofNat n.val] := by decide +kernel
  rw [hall ⟨b.toNat, h⟩]
  simp

theorem decode_encodeByte (hsafe : ∀ b, safe b = true → b.toNat < 128 ∧
    Char.ofNat b.toNat ≠ '%') (b : UInt8)
    (rest : List Char) : decode (encodeByte safe b ++ rest) = b :: decode rest := by
  unfold encodeByte
  by_cases hb : safe b = true
  · obtain ⟨hascii, hne⟩ := hsafe b hb
    rw [if_pos hb, List.singleton_append, decode_cons_of_ne hne, utf8EncodeChar_ascii hascii]
    rfl
  · have hlt := b.toNat_lt
    have hhigh : hexValue (hexDigit (b.toNat / 16)) = some (b.toNat / 16) :=
      hexValue_hexDigit (by omega)
    have hlow : hexValue (hexDigit (b.toNat % 16)) = some (b.toNat % 16) :=
      hexValue_hexDigit (by omega)
    rw [if_neg hb]
    simp only [List.cons_append, List.nil_append, decode, hhigh, hlow, Nat.div_add_mod]
    simp

theorem decode_encode (hsafe : ∀ b, safe b = true → b.toNat < 128 ∧ Char.ofNat b.toNat ≠ '%')
    (bytes : List UInt8)
    (rest : List Char) : decode (encode safe bytes ++ rest) = bytes ++ decode rest := by
  induction bytes with
  | nil => rfl
  | cons b bytes ih =>
      rw [encode, List.flatMap_cons, List.append_assoc, decode_encodeByte hsafe]
      exact congrArg (b :: ·) ih

-- What an encoded text is made of.
theorem mem_encode {bytes : List UInt8} {c : Char} (h : c ∈ encode safe bytes) :
    c = '%' ∨ (∃ n < 16, c = hexDigit n) ∨ ∃ b, safe b = true ∧ c = Char.ofNat b.toNat := by
  obtain ⟨b, _, hc⟩ := List.mem_flatMap.mp h
  unfold encodeByte at hc
  split at hc
  · rename_i hb
    exact .inr (.inr ⟨b, hb, List.mem_singleton.mp hc⟩)
  · have hlt := b.toNat_lt
    simp only [List.mem_cons, List.not_mem_nil, or_false] at hc
    rcases hc with rfl | rfl | rfl
    · exact .inl rfl
    · exact .inr (.inl ⟨b.toNat / 16, by omega, rfl⟩)
    · exact .inr (.inl ⟨b.toNat % 16, by omega, rfl⟩)

theorem bytes_inj {text text' : List Char} (h : bytes text = bytes text') : text = text' := by
  have henc : text.utf8Encode = text'.utf8Encode := by
    unfold List.utf8Encode
    exact congrArg List.toByteArray h
  have hdec := congrArg ByteArray.utf8Decode? henc
  rw [List.utf8Decode?_utf8Encode, List.utf8Decode?_utf8Encode, Option.some.injEq] at hdec
  simpa using congrArg Array.toList hdec

end RoundTrip

section Segments

variable {α β : Type} {f : α → List β} {p : α → Bool} {q : β → Bool}

theorem splitOnP_append_of_forall {front : List β} (h : ∀ b ∈ front, q b = false) (rest : List β) :
    (front ++ rest).splitOnP q = (rest.splitOnP q).modifyHead (front ++ ·) := by
  induction front with
  | nil =>
      rw [List.nil_append]
      cases rest.splitOnP q <;> rfl
  | cons b front ih =>
      obtain ⟨hb, hfront⟩ := List.forall_mem_cons.mp h
      rw [List.cons_append, List.splitOnP_cons_eq_if_modifyHead, hb, ih hfront,
        List.modifyHead_modifyHead]
      simp [Function.comp_def]

-- Where separators stand for separators and nothing else for any, the parts of a text are
-- those of what it was made of.
theorem splitOnP_flatMap (hsep : ∀ a, p a = true → ∃ b, f a = [b] ∧ q b = true)
    (hother : ∀ a, p a = false → ∀ b ∈ f a, q b = false) (l : List α) :
    (l.flatMap f).splitOnP q = (l.splitOnP p).map (·.flatMap f) := by
  induction l with
  | nil => rfl
  | cons a l ih =>
      rw [List.flatMap_cons, List.splitOnP_cons_eq_if_modifyHead]
      cases ha : p a with
      | true =>
          obtain ⟨b, hf, hb⟩ := hsep a ha
          rw [hf, List.singleton_append, List.splitOnP_cons_eq_if_modifyHead, hb, ih]
          rfl
      | false =>
          rw [splitOnP_append_of_forall (hother a ha), ih]
          cases l.splitOnP p <;> simp

theorem exists_mem_splitOnP {l : List α} {a : α} (hmem : a ∈ l) (ha : p a = false) :
    ∃ part ∈ l.splitOnP p, a ∈ part := by
  induction l with
  | nil => cases hmem
  | cons b l ih =>
      rw [List.splitOnP_cons_eq_if_modifyHead]
      obtain ⟨part, rest, heq⟩ := List.exists_cons_of_ne_nil (List.splitOnP_ne_nil p l)
      rcases List.mem_cons.mp hmem with rfl | hmem
      · rw [ha, heq]
        exact ⟨a :: part, by simp, List.mem_cons_self⟩
      · obtain ⟨found, hfound, hin⟩ := ih hmem
        cases hb : p b with
        | true => exact ⟨found, by simp [hfound], hin⟩
        | false =>
            rw [heq] at hfound ⊢
            rcases List.mem_cons.mp hfound with rfl | hfound
            · exact ⟨b :: found, by simp, List.mem_cons_of_mem _ hin⟩
            · exact ⟨found, by simp [hfound], hin⟩

theorem mem_of_mem_splitOnP {l part : List α} {a : α} (hpart : part ∈ l.splitOnP p)
    (ha : a ∈ part) : a ∈ l := by
  induction l generalizing part with
  | nil =>
      rw [List.splitOnP_nil, List.mem_singleton] at hpart
      rwa [hpart] at ha
  | cons b l ih =>
      rw [List.splitOnP_cons_eq_if_modifyHead] at hpart
      obtain ⟨first, rest, heq⟩ := List.exists_cons_of_ne_nil (List.splitOnP_ne_nil p l)
      cases hb : p b with
      | true =>
          rw [hb, if_pos rfl] at hpart
          rcases List.mem_cons.mp hpart with rfl | hpart
          · cases ha
          · exact List.mem_cons_of_mem _ (ih hpart ha)
      | false =>
          rw [hb, if_neg Bool.false_ne_true, heq] at hpart
          rcases List.mem_cons.mp hpart with rfl | hpart
          · rcases List.mem_cons.mp ha with rfl | ha
            · exact List.mem_cons_self
            · exact List.mem_cons_of_mem _ (ih (heq ▸ List.mem_cons_self) ha)
          · exact List.mem_cons_of_mem _ (ih (heq ▸ List.mem_cons_of_mem _ hpart) ha)

end Segments

end Uri
