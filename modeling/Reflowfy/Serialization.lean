import Reflowfy.Value

namespace Reflowfy

-- The escapes of `repr(bytes)`. A byte is given by the character with its code.
def bytes_char (quote c : Char) : String :=
  if c = quote ∨ c = '\\' then "\\" ++ c.toString
  else if c = '\t' then "\\t"
  else if c = '\n' then "\\n"
  else if c = '\r' then "\\r"
  else if c.toNat < 32 ∨ 127 ≤ c.toNat then
    "\\x" ++ (Nat.digitChar (c.toNat / 16)).toString ++ (Nat.digitChar (c.toNat % 16)).toString
  else c.toString

-- `str(b"...")`. Double quotes stand around bytes with a single quote and no double one.
def bytes_repr (text : String) : String :=
  let quote := if text.toList.contains '\'' ∧ ¬text.toList.contains '"' then '"' else '\''
  "b" ++ quote.toString ++ String.join (text.toList.map (bytes_char quote)) ++ quote.toString

-- `to_json_safe`; the keys of a dict stay as they are.
mutual

def to_json_safe : Value → Value
  | .None => .None
  | .bool b => .bool b
  | .int n => .int n
  | .float text => .float text
  | .str s => .str s
  | .dict entries => .dict (safe_entries entries)
  | .list items => .list (safe_items items)
  | .tuple items => .list (safe_items items)
  | .object attributes => to_json_safe attributes
  | .bytes text => .str (bytes_repr text)
  | .other text => .str text

def safe_items : List Value → List Value
  | [] => []
  | item :: items => to_json_safe item :: safe_items items

def safe_entries : List (Key × Value) → List (Key × Value)
  | [] => []
  | (k, v) :: entries => (k, to_json_safe v) :: safe_entries entries

end

end Reflowfy
