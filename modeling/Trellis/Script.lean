import Trellis.Binding
import Trellis.Script.Lowering
import Trellis.Script.Names

/-!
# Compiled scripts

A script is a source with the expression it stands for and the namespaces it depends on.

* `Script.compile`: from a source, with a fault for a source that is malformed or holds a form that
  is not ours.
-/

namespace Trellis

/-- A source, its expression and the namespaces it depends on. -/
structure Script where
  source : String
  expr : Expr
  dependencies : List String

namespace Script

/-- The characters of a source between two positions. -/
def Span.text (span : Span) (source : String) : String :=
  String.ofList ((source.toList.drop span.start).take (span.stop - span.start))

/-- Compiles a source. -/
def compile (source : String) : Except Fault Script :=
  match Syntax.parse? source with
  | none => .error (.malformedExpression source)
  | some tree =>
    match tree.lower with
    | .ok expr => .ok ⟨source, expr, tree.dependencies⟩
    | .error span => .error (.unsupported (span.text source))

end Script

end Trellis
