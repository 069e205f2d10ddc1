import Mathlib.Data.Int.Notation
import Mathlib.Data.Nat.Notation

namespace Reflowfy

-- A key of a dict. A float is given by its text in JSON; `other` is any other hashable value.
inductive Key
  | None
  | bool (b : Bool)
  | int (n : ℤ)
  | float (text : String)
  | str (s : String)
  | other (text : String)
  deriving DecidableEq, Repr

-- What a config, a param or a record is made of. `object` has a `to_dict` or a `__dict__` with
-- these attributes; of any `other` value (a datetime, a Decimal) only its text is known here.
inductive Value
  | None
  | bool (b : Bool)
  | int (n : ℤ)
  | float (text : String)
  | str (s : String)
  | bytes (text : String)
  | list (items : List Value)
  | tuple (items : List Value)
  | dict (entries : List (Key × Value))
  | object (attributes : Value)
  | other (text : String)
  deriving Repr

abbrev Entries := List (Key × Value)

-- `None`, or a text.
def optional : Option String → Value
  | none => .None
  | some s => .str s

-- `bool(value)`.
def Value.truthy : Value → Bool
  | .None => false
  | .bool b => b
  | .int n => n ≠ 0
  | .float text => text ≠ "0.0" ∧ text ≠ "-0.0"
  | .str text => text ≠ ""
  | .bytes text => text ≠ ""
  | .list items => !items.isEmpty
  | .tuple items => !items.isEmpty
  | .dict entries => !entries.isEmpty
  | .object _ => true
  | .other _ => true

end Reflowfy
