import Trellis.Binding

/-!
# Schemas

A schema is a tree of nodes. What a node says about itself are its directives; below it are its
children and the contents of its scoped slots. Every marked key has been classified already.
-/

namespace Trellis.Schema

/-- What a node is made of: a component by name, or a definition given in place. -/
inductive Component where
  | named (name : String)
  | inline (definition : Value)

/-- What an event does: call a function, or whatever a binding resolves to by then. -/
inductive Handler where
  | callback (f : Callable)
  | binding (b : Binding)

/-- A switch with a static and a bound form. -/
structure Toggle where
  literal : Option Bool
  bound : Option Binding

/-- Named bindings, and a binding whose members are added to them. -/
structure Entries where
  named : Members Binding
  spread : Option Binding

/-- A switch that nobody has set. -/
def Toggle.unset : Toggle := ⟨none, none⟩

/-- No entries. -/
def Entries.none : Entries := ⟨[], .none⟩

/-- What a node says about itself. -/
structure Directives where
  component : Component
  ns : Option String
  data : Option (Members Value)
  condition : Toggle
  visible : Toggle
  classes : Option Value
  boundClasses : Option Binding
  style : Entries
  attrs : Entries
  props : Entries
  domProps : Entries
  text : Option String
  boundText : Option Binding
  html : Option Binding
  loop : Option Binding
  key : Option Binding
  on : Members Handler
  nativeOn : Members Handler
  slot : Option String
  reference : Option String
  refInFor : Bool

/-- A component and nothing else. -/
def Directives.plain (component : Component) : Directives where
  component := component
  ns := none
  data := none
  condition := .unset
  visible := .unset
  classes := none
  boundClasses := none
  style := .none
  attrs := .none
  props := .none
  domProps := .none
  text := none
  boundText := none
  html := none
  loop := none
  key := none
  on := []
  nativeOn := []
  slot := none
  reference := none
  refInFor := false

/-- A node: its directives, its children if it lists any, and the contents of its slots. -/
inductive Node where
  | mk (self : Directives) (children : Option (List Node)) (slots : List (String × Node))

namespace Node

/-- What a node says about itself. -/
def self : Node → Directives
  | mk d _ _ => d

/-- The children, if the node lists any. -/
def children : Node → Option (List Node)
  | mk _ kids _ => kids

/-- The contents of the scoped slots. -/
def slots : Node → Members Node
  | mk _ _ contents => contents

/-- The same node with other directives. -/
def update (f : Directives → Directives) : Node → Node
  | mk d kids contents => mk (f d) kids contents

/-- The node in the given namespace. -/
def withNamespace (ns : String) : Node → Node :=
  update fun d => { d with ns := some ns }

/-- The node with a function as the listener of an event. -/
def withListener (event : String) (f : Callable) : Node → Node :=
  update fun d => { d with on := d.on.assign event (.callback f) }

/-- The node with a function as the native listener of an event. -/
def withNativeListener (event : String) (f : Callable) : Node → Node :=
  update fun d => { d with nativeOn := d.nativeOn.assign event (.callback f) }

end Node

/-- How faults name a component. -/
def Component.label : Component → String
  | named name => name
  | inline _ => "inline component"

/-- The rules for a node without a namespace: no loop, no slots and no data. -/
def Directives.check (d : Directives) (hasSlots : Bool) : Except Fault Unit :=
  if d.ns.isSome then .ok ()
  else if d.loop.isSome then
    .error (.invalidSchema ("`" ++ d.component.label ++ "` carries `for` but declares no namespace"))
  else if hasSlots then
    .error (.invalidSchema
      ("`" ++ d.component.label ++ "` declares scoped slots but no namespace"))
  else if d.data.isSome then
    .error (.invalidSchema ("`" ++ d.component.label ++ "` declares data but no namespace"))
  else .ok ()

namespace Node

mutual

/-- Checks a node, then its children, then the contents of its slots. -/
def validate : Node → Except Fault Unit
  | mk d none contents => do
    d.check (!contents.isEmpty)
    validateSlots contents
  | mk d (some kids) contents => do
    d.check (!contents.isEmpty)
    validateAll kids
    validateSlots contents

/-- Checks nodes in order. -/
def validateAll : List Node → Except Fault Unit
  | [] => .ok ()
  | n :: rest => do
    validate n
    validateAll rest

/-- Checks slot contents in order, none of which may be a loop. -/
def validateSlots : List (String × Node) → Except Fault Unit
  | [] => .ok ()
  | (name, n) :: rest => do
    if n.self.loop.isSome then
      throw (.invalidSchema ("content of scoped slot `" ++ name ++ "` cannot carry `for`"))
    validate n
    validateSlots rest

end

end Node

end Trellis.Schema
