import Reflowfy.TransformationRunner

namespace Reflowfy

open TransformationRunner

-- What Python says of values: `str`, the `repr` of a str, the name of a type, `\w`, `json.dumps`.
structure Python where
  str : Value → String
  repr : String → String
  type_name : Value → String
  key_type_name : Key → String
  is_word : Char → Bool
  dumps : Value → Except Thrown String

-- What `send_with_retry` raises.
inductive SendError
  | DestinationError (destination_type message : String) (original_error : Thrown)
  | ValueError (message : String)
  | other (error : Thrown)
  deriving DecidableEq, Repr

namespace BaseDestination

def retried : SendError → Bool
  | .DestinationError _ _ _ => true
  | _ => false

-- `send_with_retry` from its attempt number `n` on, in terms of what a call of `send` may do:
-- what each attempt has sent, and how it has ended.
inductive SendWithRetry {β : Type} (sends : List β → Option (Except SendError Unit) → Prop)
    (max_attempts : Int) :
    Int → List (List β) → Option (Except SendError Unit) → Prop
  | running {n : Int} {made : List β} (h : sends made none) :
      SendWithRetry sends max_attempts n [made] none
  | sent {n : Int} {made : List β} (h : sends made (some (.ok ()))) :
      SendWithRetry sends max_attempts n [made] (some (.ok ()))
  | raised {n : Int} {made : List β} {e : SendError} (h : sends made (some (.error e)))
      (hlast : retried e = false ∨ max_attempts ≤ n) : SendWithRetry sends max_attempts n
        [made] (some (.error e))
  | again {n : Int} {made : List β} {rest : List (List β)} {e : SendError}
      {out : Option (Except SendError Unit)}
      (h : sends made (some (.error e))) (hretried : retried e = true) (hn : n < max_attempts)
      (hrest : SendWithRetry sends max_attempts (n + 1) rest out) :
      SendWithRetry sends max_attempts n (made :: rest) out

-- What a template's placeholder pattern finds in it, and the text around.
inductive Piece
  | text (chars : List Char)
  | field (name : List Char)
  deriving DecidableEq, Repr

-- The scan of `re.sub` for `\{(\w+)\}`; `opened` is what follows the last `{`, backwards.
def pieces (is_word : Char → Bool) : List Char → Option (List Char) → List Piece
  | [], none => []
  | [], some opened => [.text ('{' :: opened.reverse)]
  | c :: cs, none => if c = '{' then pieces is_word cs (some [])
      else .text [c] :: pieces is_word cs none
  | c :: cs, some opened =>
      if is_word c then pieces is_word cs (some (c :: opened))
      else if c = '}' ∧ opened ≠ [] then .field opened.reverse :: pieces is_word cs none
      else if c = '{' then .text ('{' :: opened.reverse) :: pieces is_word cs (some [])
      else .text ('{' :: opened.reverse ++ [c]) :: pieces is_word cs none

-- The fields of a dict record.
def fields : Value → Entries
  | .dict entries => entries
  | _ => []

-- A piece with its field's value; `missing` is the error of a field that the record lacks.
def substitute (show_value : Value → List Char) (missing : List Char → SendError) (record : Value) :
    Piece → Except SendError (List Char)
  | .text chars => .ok chars
  | .field field => match (fields record).lookup (.str (String.ofList field)) with
      | some value => .ok (show_value value)
      | none => .error (missing field)

section Attempts

variable {β : Type} {sends : List β → Option (Except SendError Unit) → Prop}
    {max_attempts n : Int} {made : List β}
  {attempts : List (List β)} {out : Option (Except SendError Unit)}

-- Where no error leads to another attempt there is one.
theorem SendWithRetry.single (hlast : ∀ made e, sends made (some (.error e)) →
    retried e = false ∨ max_attempts ≤ n)
    (h : SendWithRetry sends max_attempts n attempts out) : ∃ made, attempts = [made] ∧
      sends made out := by
  cases h with
  | running h => exact ⟨_, rfl, h⟩
  | sent h => exact ⟨_, rfl, h⟩
  | raised h _ => exact ⟨_, rfl, h⟩
  | again h hretried hn _ =>
      rcases hlast _ _ h with hnot | hle
      · rw [hretried] at hnot
        cases hnot
      · omega

-- Every attempt is a call of `send`.
theorem SendWithRetry.of_mem (h : SendWithRetry sends max_attempts n attempts out) {made : List β}
    (hmade : made ∈ attempts) : ∃ out, sends made out := by
  induction h with
  | running h => exact ⟨_, List.mem_singleton.mp hmade ▸ h⟩
  | sent h => exact ⟨_, List.mem_singleton.mp hmade ▸ h⟩
  | raised h _ => exact ⟨_, List.mem_singleton.mp hmade ▸ h⟩
  | again h _ _ _ ih =>
      rcases List.mem_cons.mp hmade with rfl | hmade
      · exact ⟨_, h⟩
      · exact ih hmade

-- It ends as its last attempt does.
theorem SendWithRetry.exists_last (h : SendWithRetry sends max_attempts n attempts out) :
    ∃ last, sends last out := by
  induction h with
  | running h => exact ⟨_, h⟩
  | sent h => exact ⟨_, h⟩
  | raised h _ => exact ⟨_, h⟩
  | again _ _ _ _ ih => exact ih

-- From an attempt that raises, to the last one by repeating it.
theorem SendWithRetry.repeats {e : SendError} (h : sends made (some (.error e))) (n : Int) :
    ∃ more, SendWithRetry sends max_attempts n (made :: more) (some (.error e)) := by
  induction hleft : (max_attempts - n).toNat generalizing n with
  | zero => exact ⟨[], .raised h (.inr (by omega))⟩
  | succ left ih =>
      cases hretried : retried e with
      | false => exact ⟨[], .raised h (.inl hretried)⟩
      | true =>
          obtain ⟨more, hmore⟩ := ih (n + 1) (by omega)
          exact ⟨_, .again h hretried (by omega) hmore⟩

theorem SendWithRetry.ends_with {result : Except SendError Unit}
    (h : sends made (some result)) (n : Int) :
    ∃ more, SendWithRetry sends max_attempts n (made :: more) (some result) := by
  cases result with
  | ok _ => exact ⟨[], .sent h⟩
  | error e => exact SendWithRetry.repeats h n

-- Where every attempt can be brought to its end, so can the whole.
theorem SendWithRetry.exists_end
    (hend : ∀ made, sends made none → ∃ made' result, sends made' (some result) ∧ made <+: made')
    (h : SendWithRetry sends max_attempts n attempts none) :
    ∃ attempts' result, SendWithRetry sends max_attempts n attempts' (some result) ∧
      attempts.flatten <+: attempts'.flatten := by
  generalize hout : (none : Option (Except SendError Unit)) = out at h
  induction h with
  | @running n made h =>
      obtain ⟨made', result, hmade', hextends⟩ := hend _ h
      obtain ⟨rest, hrest⟩ := SendWithRetry.ends_with hmade' n
      refine ⟨_, result, hrest, ?_⟩
      rw [List.flatten_singleton, List.flatten_cons]
      exact hextends.trans (List.prefix_append ..)
  | sent _ => cases hout
  | raised _ _ => cases hout
  | again h hretried hn _ ih =>
      obtain ⟨rest, result, hrest, hextends⟩ := ih hout
      refine ⟨_, result, .again h hretried hn hrest, ?_⟩
      rw [List.flatten_cons, List.flatten_cons]
      exact (List.prefix_append_right_inj _).mpr hextends

end Attempts

end BaseDestination

end Reflowfy
