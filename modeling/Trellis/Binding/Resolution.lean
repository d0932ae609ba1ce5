import Trellis.Binding
import Trellis.Config
import Trellis.Script.Calls

/-!
# The value of a binding

A literal stands for itself, a path for what it leads to from the scope, and an expression for its
value there; with expressions switched off, for its own text.
-/

namespace Trellis

/-- The value of a binding in a scope. -/
def Binding.resolve (config : Config) (scope : ScopeId) : Binding → Act Value
  | literal v => return v
  | path p => Act.scopes (·.get scope p)
  | expression raw =>
    if config.expressions then do
      let script ← Act.ofExcept (Script.compile (expressionSource raw))
      script.run scope
    else return .string raw

end Trellis
