import Reflowfy.Json.Tree
import Mathlib.Data.List.TakeWhile

-- The text of a tree, as a printer with escapes to ASCII writes it, and the parser that reads
-- it back.
namespace Json

section Printing

def hex4 (n : ℕ) : List Char :=
  [Nat.digitChar (n / 4096), Nat.digitChar (n / 256 % 16), Nat.digitChar (n / 16 % 16),
    Nat.digitChar (n % 16)]

-- A character above the first plane takes two escapes.
def escape (c : Char) : List Char :=
  if c = '"' then ['\\', '"']
  else if c = '\\' then ['\\', '\\']
  else if c = '\n' then ['\\', 'n']
  else if c = '\r' then ['\\', 'r']
  else if c = '\t' then ['\\', 't']
  else if c = '\x0c' then ['\\', 'f']
  else if c = '\x08' then ['\\', 'b']
  else if 32 ≤ c.toNat ∧ c.toNat ≤ 126 then [c]
  else if c.toNat < 0x10000 then '\\' :: 'u' :: hex4 c.toNat
  else '\\' :: 'u' :: hex4 (0xd800 + (c.toNat - 0x10000) / 1024) ++
    '\\' :: 'u' :: hex4 (0xdc00 + (c.toNat - 0x10000) % 1024)

def renderString (s : String) : List Char := '"' :: (s.toList.flatMap escape ++ ['"'])

def renderInt (n : ℤ) : List Char :=
  if n < 0 then '-' :: Nat.toDigits 10 n.natAbs else Nat.toDigits 10 n.natAbs

mutual

def render : Json → List Char
  | null => ['n', 'u', 'l', 'l']
  | bool true => ['t', 'r', 'u', 'e']
  | bool false => ['f', 'a', 'l', 's', 'e']
  | int n => renderInt n
  | float text => text.toList
  | str s => renderString s
  | list [] => ['[', ']']
  | list (item :: items) => '[' :: (render item ++ renderItems items)
  | obj [] => ['{', '}']
  | obj ((k, v) :: entries) =>
      '{' :: (renderString k ++ ':' :: ' ' :: (render v ++ renderEntries entries))

def renderItems : List Json → List Char
  | [] => [']']
  | item :: items => ',' :: ' ' :: (render item ++ renderItems items)

def renderEntries : List (String × Json) → List Char
  | [] => ['}']
  | (k, v) :: entries =>
      ',' :: ' ' :: (renderString k ++ ':' :: ' ' :: (render v ++ renderEntries entries))

end

end Printing

section Parsing

def isSpace (c : Char) : Bool := c = ' ' ∨ c = '\t' ∨ c = '\n' ∨ c = '\r'

def skipSpace (cs : List Char) : List Char := cs.dropWhile isSpace

def hexVal (c : Char) : Option ℕ :=
  if '0' ≤ c ∧ c ≤ '9' then some (c.toNat - 48)
  else if 'a' ≤ c ∧ c ≤ 'f' then some (c.toNat - 87)
  else if 'A' ≤ c ∧ c ≤ 'F' then some (c.toNat - 55)
  else none

def parseHex4 : List Char → Option (ℕ × List Char)
  | a :: b :: c :: d :: cs =>
      match hexVal a, hexVal b, hexVal c, hexVal d with
      | some a, some b, some c, some d => some (a * 4096 + b * 256 + c * 16 + d, cs)
      | _, _, _, _ => none
  | _ => none

-- What follows a backslash. The half of a pair alone is no character.
def unescape : List Char → Option (Char × List Char)
  | '"' :: cs => some ('"', cs)
  | '\\' :: cs => some ('\\', cs)
  | '/' :: cs => some ('/', cs)
  | 'b' :: cs => some ('\x08', cs)
  | 'f' :: cs => some ('\x0c', cs)
  | 'n' :: cs => some ('\n', cs)
  | 'r' :: cs => some ('\r', cs)
  | 't' :: cs => some ('\t', cs)
  | 'u' :: cs =>
      match parseHex4 cs with
      | none => none
      | some (v, cs) =>
          if v < 0xd800 ∨ 0xdfff < v then some (Char.ofNat v, cs)
          else if 0xdbff < v then none
          else
            match cs with
            | '\\' :: 'u' :: cs =>
                match parseHex4 cs with
                | some (w, cs) =>
                    if 0xdc00 ≤ w ∧ w ≤ 0xdfff then
                      some (Char.ofNat (0x10000 + (v - 0xd800) * 1024 + (w - 0xdc00)), cs)
                    else none
                | none => none
            | _ => none
  | _ => none

-- The characters up to the closing quote.
def parseChars : ℕ → List Char → Option (List Char × List Char)
  | 0, _ => none
  | _ + 1, [] => none
  | n + 1, c :: cs =>
      if c = '"' then some ([], cs)
      else if c = '\\' then
        match unescape cs with
        | some (d, cs) => (parseChars n cs).map fun p => (d :: p.1, p.2)
        | none => none
      else if c.toNat < 32 then none
      else (parseChars n cs).map fun p => (c :: p.1, p.2)

def parseString (cs : List Char) : Option (String × List Char) :=
  (parseChars cs.length cs).map fun p => (String.ofList p.1, p.2)

def isDigits (cs : List Char) : Bool := cs ≠ [] ∧ cs.all Char.isDigit

-- Digits without a leading zero.
def isNat (cs : List Char) : Bool := isDigits cs ∧ (cs = ['0'] ∨ cs.head? ≠ some '0')

def unsigned : List Char → List Char
  | '-' :: cs => cs
  | cs => cs

def isExponent : List Char → Bool
  | c :: '+' :: cs => (c = 'e' ∨ c = 'E') ∧ isDigits cs
  | c :: '-' :: cs => (c = 'e' ∨ c = 'E') ∧ isDigits cs
  | c :: cs => (c = 'e' ∨ c = 'E') ∧ isDigits cs
  | [] => false

-- What makes a number a float: a fraction, an exponent, or both.
def isFraction : List Char → Bool
  | '.' :: cs => isDigits (cs.takeWhile Char.isDigit) ∧
      (cs.dropWhile Char.isDigit = [] ∨ isExponent (cs.dropWhile Char.isDigit))
  | cs => isExponent cs

def isFloat (cs : List Char) : Bool :=
  cs = ['N', 'a', 'N'] ∨ unsigned cs = ['I', 'n', 'f', 'i', 'n', 'i', 't', 'y'] ∨
    (isNat ((unsigned cs).takeWhile Char.isDigit) ∧
      isFraction ((unsigned cs).dropWhile Char.isDigit))

def intVal : List Char → ℤ
  | '-' :: cs => -(Nat.ofDigitChars 10 cs 0 : ℤ)
  | cs => Nat.ofDigitChars 10 cs 0

def isTokenChar (c : Char) : Bool := c.isAlphanum ∨ c = '+' ∨ c = '-' ∨ c = '.'

def scalar (token : List Char) : Option Json :=
  if token = ['n', 'u', 'l', 'l'] then some null
  else if token = ['t', 'r', 'u', 'e'] then some (bool true)
  else if token = ['f', 'a', 'l', 's', 'e'] then some (bool false)
  else if isFloat token then some (float (String.ofList token))
  else if isNat (unsigned token) then some (int (intVal token))
  else none

def parseScalar (cs : List Char) : Option (Json × List Char) :=
  (scalar (cs.takeWhile isTokenChar)).map fun j => (j, cs.dropWhile isTokenChar)

mutual

def parseValue : ℕ → List Char → Option (Json × List Char)
  | 0, _ => none
  | n + 1, cs =>
      match cs with
      | '"' :: cs => (parseString cs).map fun p => (str p.1, p.2)
      | '[' :: cs =>
          match skipSpace cs with
          | ']' :: cs => some (list [], cs)
          | cs => (parseItems n cs).map fun p => (list p.1, p.2)
      | '{' :: cs =>
          match skipSpace cs with
          | '}' :: cs => some (obj [], cs)
          | cs => (parseEntries n cs).map fun p => (obj p.1, p.2)
      | cs => parseScalar cs

def parseItems : ℕ → List Char → Option (List Json × List Char)
  | 0, _ => none
  | n + 1, cs =>
      match parseValue n cs with
      | none => none
      | some (item, cs) =>
          match skipSpace cs with
          | ']' :: cs => some ([item], cs)
          | ',' :: cs => (parseItems n (skipSpace cs)).map fun p => (item :: p.1, p.2)
          | _ => none

def parseEntries : ℕ → List Char → Option (List (String × Json) × List Char)
  | 0, _ => none
  | n + 1, cs =>
      match cs with
      | '"' :: cs =>
          match parseString cs with
          | none => none
          | some (k, cs) =>
              match skipSpace cs with
              | ':' :: cs =>
                  match parseValue n (skipSpace cs) with
                  | none => none
                  | some (v, cs) =>
                      match skipSpace cs with
                      | '}' :: cs => some ([(k, v)], cs)
                      | ',' :: cs => (parseEntries n (skipSpace cs)).map fun p =>
                          ((k, v) :: p.1, p.2)
                      | _ => none
              | _ => none
      | _ => none

end

-- A whole text.
def parse (text : List Char) : Option Json :=
  match parseValue (text.length + 1) (skipSpace text) with
  | some (j, cs) => if skipSpace cs = [] then some j else none
  | none => none

end Parsing

-- Its floats are the texts of floats.
mutual

def Printable : Json → Prop
  | null | bool _ | int _ | str _ => True
  | float text => isFloat text.toList
  | list items => PrintableItems items
  | obj entries => PrintableEntries entries

def PrintableItems : List Json → Prop
  | [] => True
  | item :: items => Printable item ∧ PrintableItems items

def PrintableEntries : List (String × Json) → Prop
  | [] => True
  | (_, v) :: entries => Printable v ∧ PrintableEntries entries

end

end Json
