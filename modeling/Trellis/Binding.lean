import Trellis.Path
import Trellis.Value

/-!
# Bindings

The value of a marked key is a binding: a literal, a path into the scopes, or an expression. Which
of the three it is, is settled when a schema is loaded and not looked at again.
-/

namespace Trellis

/-- The mark in front of a bound key. -/
def bindingMark : Char := ':'

/-- A key without its mark, and whether it had one. -/
def splitMark (key : String) : String × Bool :=
  match key.toList with
  | c :: cs => if c = bindingMark then (String.ofList cs, true) else (key, false)
  | [] => (key, false)

/-- The text behind the mark of an expression, `|>`, if a text begins with it, blanks apart. -/
def expressionBody? (raw : String) : Option (List Char) :=
  match Text.trimStart raw.toList with
  | '|' :: '>' :: body => some body
  | _ => none

/-- The source of an expression: what stands behind the mark, without blanks around it. A text
without the mark is all source. -/
def expressionSource (raw : String) : String :=
  String.ofList (Text.trim ((expressionBody? raw).getD raw.toList))

/-- A literal, a path, or an expression with its mark as it was written. -/
inductive Binding where
  | literal (value : Value)
  | path (path : Path)
  | expression (raw : String)

namespace Binding

/-- The binding a value under a marked key stands for. -/
def ofJson : Json → Except Fault Binding
  | .string s =>
    if (expressionBody? s).isSome then .ok (expression s) else (Path.parse s).map path
  | j => .ok (literal (Value.ofJson j))

end Binding

end Trellis
