import Trellis.Binding.Resolution
import Trellis.Schema

/-!
# Listeners

What a node does on an event. A bound listener is resolved when it is fired and not when the node
is built, so it sees the scopes as they are by then.
-/

namespace Trellis

/-- A handler together with the event it listens to and the scope it is resolved in. -/
structure Listener where
  event : String
  handler : Schema.Handler
  scope : ScopeId

namespace Listener

/-- What a binding gives a fired listener: a function is called; otherwise an expression has done
its work and gives its value, and a path or a literal has failed to be a function. -/
def deliver (event : String) (b : Binding) (args : List Value) (v : Value) : Act Value :=
  match v, b with
  | .function f, _ => f.call args
  | v, .expression _ => return v
  | _, .path p => throw (.notCallable p.text)
  | _, .literal _ => throw (.notCallable ("listener for `" ++ event ++ "`"))

/-- Fires a listener. -/
def fire (config : Config) (l : Listener) (args : List Value) : Act Value :=
  match l.handler with
  | .callback f => f.call args
  | .binding b => do
    deliver l.event b args (← b.resolve config l.scope)

/-- The handlers of a node as listeners in its scope. -/
def ofHandlers (scope : ScopeId) (handlers : Members Schema.Handler) : Members Listener :=
  handlers.map fun h => (h.1, ⟨h.1, h.2, scope⟩)

end Listener

end Trellis
