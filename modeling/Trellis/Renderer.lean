import Trellis.ClassList
import Trellis.Listener

/-!
# Renderers

A renderer makes a node of what a schema node amounts to: what it is made of, its payload and its
content. The kind `N` of the nodes and the kind `C` of the components are the renderer's own.
-/

namespace Trellis

/-- What a node is made of: a component the registry knows, a definition given in place, or a tag. -/
inductive Subject (C : Type) where
  | registered (name : String) (component : C)
  | inline (definition : Value)
  | tag (name : String)

/-- The contents of scoped slots: each builds a node, or nothing, for what it is given. -/
abbrev Slots (N : Type) : Type := Members (Value → Act (Option N))

/-- What a node carries besides its content and its slots. -/
structure Traits where
  classes : ClassList
  style : Members Value
  attrs : Members Value
  props : Members Value
  domProps : Members Value
  on : Members Listener
  nativeOn : Members Listener
  key : Option Value
  reference : Option String
  refInFor : Bool
  slot : Option String

/-- What a node carries besides its content. -/
structure Payload (N : Type) where
  traits : Traits
  slots : Slots N

/-- What is in a node: nothing, text, markup, or nodes. -/
inductive Content (N : Type) where
  | none
  | text (s : String)
  | markup (s : String)
  | nodes (ns : List N)

/-- Makes nodes. -/
structure Renderer (N C : Type) where
  create : Subject C → Payload N → Content N → Act N

/-- Components by name. -/
abbrev Registry (C : Type) : Type := String → Option C

/-- The registry that knows no component. -/
def Registry.empty {C : Type} : Registry C := fun _ => none

/-- What a schema's component is: a name nobody registered is a tag. -/
def Registry.resolve {C : Type} (known : Registry C) : Schema.Component → Subject C
  | .named name =>
    match known name with
    | some c => .registered name c
    | none => .tag name
  | .inline definition => .inline definition

end Trellis
