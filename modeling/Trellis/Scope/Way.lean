import Trellis.Scope.Frame

/-!
# Ways

The way through a schema to a frame, from the outside in. Each step is one frame further: to a node
with a namespace, to one turn of a loop, or into the content of a slot. A frame's address is its way
written out.

* `Step.segment`, `Step.kind`: what a step adds to an address, and what the frame there stands for.
* `Way.address`: the address of the frame at the end of a way.
-/

namespace Trellis

/-- From a frame to the next one inside it. A node is reached at its positions among children,
those of nodes without a frame on the way first. -/
inductive Step where
  | space (positions : List Nat) (ns : String)
  | turn (index : Nat) (ns : String)
  | slot (ns name : String)
  deriving DecidableEq, Repr

namespace Step

/-- What a step adds to an address. -/
def segment : Step → String
  | space positions ns => ".".intercalate (positions.map toString) ++ ":" ++ ns
  | turn index _ => "[" ++ toString index ++ "]"
  | slot ns name => "#" ++ ns ++ "/" ++ name

/-- What the frame behind a step stands for. -/
def kind : Step → FrameKind
  | space _ ns => .space ns
  | turn _ ns => .space ns
  | slot ns name => .slot ns name

end Step

/-- The steps from the root to a frame. -/
abbrev Way := List Step

/-- The address of the frame at the end of a way. -/
def Way.address (w : Way) : String :=
  w.foldl (fun path step => path ++ "/" ++ step.segment) ""

/-- A frame that was entered, and the way to it. -/
structure Visit where
  way : Way
  scope : ScopeId
  deriving DecidableEq, Repr

end Trellis
