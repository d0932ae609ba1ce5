import Trellis.Build

/-!
# Views

A view is a schema together with its session: it is rendered as often as one likes, and it knows
whether anything was written since. A render pass drops the frames it did not reach; one that fails
leaves the scopes as they were built so far, and the view as dirty as it was.

* `View.render`: one pass.
* `View.isDirty`: nothing was rendered yet, or something was written since.
* `View.perform`: anything else that is done to the session.
-/

namespace Trellis

/-- A schema, its builder and session, the view's own subscription to writes, and how many writes
it had heard of when it was last rendered. -/
structure View (N C : Type) where
  schema : Schema.Node
  builder : Builder N C
  session : Session
  subscriber : Nat
  settled : Option Nat

namespace View

variable {N C : Type}

/-- A view of a schema that is not rendered yet; functions made in its session are numbered from
`nextFunction`. -/
def mount (schema : Schema.Node) (builder : Builder N C) (nextFunction : Nat) : View N C :=
  let (subscriber, handle) := Handle.new.subscribe
  ⟨schema, builder, { Session.new with handle := handle, nextFunction := nextFunction },
    subscriber, none⟩

variable (v : View N C)

/-- How many writes the view has heard of. -/
def heard : Nat :=
  (v.session.handle.heard v.subscriber).length

/-- Whether the view has not been rendered since the last write. -/
def isDirty : Bool :=
  match v.settled with
  | none => true
  | some n => n < v.heard

/-- Does something to the session. -/
def perform {α : Type} (act : Act α) : Except Fault α × View N C :=
  let (outcome, session) := act.runOn v.session
  (outcome, { v with session := session })

/-- A render pass. -/
def pass (schema : Schema.Node) (builder : Builder N C) : Act (Option N) := do
  Act.beginPass
  let node ← builder.root schema
  let _ ← Act.opening fun s => .ok s.finishPass
  return node

/-- Renders the view. -/
def render : Except Fault (Option N) × View N C :=
  let (outcome, v) := v.perform (pass v.schema v.builder)
  match outcome with
  | .ok node => (.ok node, { v with settled := some v.heard })
  | .error e => (.error e, v)

end View

end Trellis
