import Reflowfy.Json.Text
import Reflowfy.Serialization

-- `json.dumps` and `json.loads`, with their default arguments.
namespace Reflowfy.PyJson

-- What `int` accepts for its text, and gives: `sys.get_int_max_str_digits()`.
def int_max_str_digits : ℕ := 4300

@[irreducible] def printable_int (n : ℤ) : Bool := n.natAbs < 10 ^ int_max_str_digits

inductive DumpsError
  -- a value, or a key, that is not serializable
  | TypeError
  -- an integer of too many digits
  | ValueError
  deriving DecidableEq, Repr

-- A key as it is printed.
def dumps_key : Key → Except DumpsError String
  | .str s => .ok s
  | .None => .ok "null"
  | .bool b => .ok (if b then "true" else "false")
  | .int n => if printable_int n then .ok (String.ofList (Json.renderInt n)) else .error .ValueError
  | .float text => .ok text
  | .other _ => .error .TypeError

-- The tree that is printed.
mutual

def encode : Value → Except DumpsError Json
  | .None => .ok .null
  | .bool b => .ok (.bool b)
  | .int n => if printable_int n then .ok (.int n) else .error .ValueError
  | .float text => .ok (.float text)
  | .str s => .ok (.str s)
  | .list items => Json.list <$> encode_items items
  | .tuple items => Json.list <$> encode_items items
  | .dict entries => Json.obj <$> encode_entries entries
  | .bytes _ | .object _ | .other _ => .error .TypeError

def encode_items : List Value → Except DumpsError (List Json)
  | [] => .ok []
  | item :: items => do
      let item ← encode item
      let items ← encode_items items
      pure (item :: items)

def encode_entries : List (Key × Value) → Except DumpsError (List (String × Json))
  | [] => .ok []
  | (k, v) :: entries => do
      let k ← dumps_key k
      let v ← encode v
      let entries ← encode_entries entries
      pure ((k, v) :: entries)

end

def dumps (v : Value) : Except DumpsError (List Char) := Json.render <$> encode v

-- `d[k] = v`.
def put (d : List (Key × Value)) (entry : Key × Value) : List (Key × Value) :=
  if d.any (·.1 = entry.1) then d.map fun other => if other.1 = entry.1 then entry else other
  else d ++ [entry]

-- `dict(pairs)`.
def dict_of (pairs : List (Key × Value)) : List (Key × Value) := pairs.foldl put []

mutual

def decode : Json → Option Value
  | .null => some .None
  | .bool b => some (.bool b)
  | .int n => if printable_int n then some (.int n) else none
  | .float text => some (.float text)
  | .str s => some (.str s)
  | .list items => Value.list <$> decode_items items
  | .obj entries => (fun pairs => Value.dict (dict_of pairs)) <$> decode_entries entries

def decode_items : List Json → Option (List Value)
  | [] => some []
  | item :: items => do
      let item ← decode item
      let items ← decode_items items
      pure (item :: items)

def decode_entries : List (String × Json) → Option (List (Key × Value))
  | [] => some []
  | (k, v) :: entries => do
      let v ← decode v
      let entries ← decode_entries entries
      pure ((.str k, v) :: entries)

end

def loads (text : List Char) : Option Value := (Json.parse text).bind decode

-- `==`, of values of the same kind: NaN is not equal to itself, and dicts are equal whatever
-- the order of their keys.
inductive Equal : Value → Value → Prop
  | None : Equal .None .None
  | bool (b : Bool) : Equal (.bool b) (.bool b)
  | int (n : ℤ) : Equal (.int n) (.int n)
  | float {text : String} (h : text ≠ "NaN") : Equal (.float text) (.float text)
  | str (s : String) : Equal (.str s) (.str s)
  | list {xs ys : List Value} (h : List.Forall₂ Equal xs ys) : Equal (.list xs) (.list ys)
  | dict {xs ys : List (Key × Value)} (hkeys : ∀ k, k ∈ xs.map Prod.fst ↔ k ∈ ys.map Prod.fst)
      (hvalues : ∀ k a b, (k, a) ∈ xs → (k, b) ∈ ys → Equal a b) : Equal (.dict xs) (.dict ys)

end Reflowfy.PyJson
