import Mathlib.Data.List.Infix
import Mathlib.Data.Nat.Notation

namespace Reflowfy

-- `if limit and len(records) >= limit: return records[:limit]`.
def sample {α : Type} (limit : Option ℕ) (records : List α) : Option (List α) :=
  match limit with
  | some n => if n ≠ 0 ∧ n ≤ records.length then some (records.take n) else none
  | none => none

-- What a source raises, with its message.
inductive Raised
  | SourceError (source_type message : String)
  | ValueError (message : String)
  | ClientError (message : String)
  | other (message : String)
  deriving DecidableEq, Repr

-- What rendering a template raises.
inductive TemplateError
  | TemplateSyntaxError (message : String)
  | UndefinedError (message : String)
  | other (message : String)
  deriving DecidableEq, Repr

namespace ParameterResolver

-- `"{{" in obj or "{%" in obj`.
def templated (obj : String) : Bool := "\x7b\x7b".toList <:+: obj.toList ∨
    "\x7b%".toList <:+: obj.toList

-- A string of the configuration; `render` is the template engine with the runtime params.
def resolve (render : String → Except TemplateError String) (obj : String) : Except Raised String :=
  if templated obj then
    match render obj with
    | .ok text => .ok text
    | .error (.TemplateSyntaxError e) => .error (.ValueError ("Invalid template syntax: " ++ e))
    | .error (.UndefinedError e) => .error (.ValueError ("Missing required parameter: " ++ e))
    | .error (.other e) => .error (.other e)
  else .ok obj

theorem resolve_plain {render : String → Except TemplateError String} {obj : String}
    (h : templated obj = false) :
    resolve render obj = .ok obj := by simp [resolve, h]

end ParameterResolver

end Reflowfy
