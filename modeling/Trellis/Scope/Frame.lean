import Trellis.Value

/-!
# Frames

A frame is a place in which names are looked up: the root, a namespace with its members, or what a
scoped slot was given. Its address spells the way to it from the root.
-/

namespace Trellis

/-- What a frame stands for. -/
inductive FrameKind where
  | root
  | space (ns : String)
  | slot (ns slot : String)
  deriving DecidableEq, Repr

/-- A frame: its address, the frame around it, what it stands for, its data and the pass that
touched it last. -/
structure Frame where
  path : String
  parent : Option ScopeId
  kind : FrameKind
  data : Value
  epoch : Nat

/-- The member of a namespace that a loop sets. -/
def loopKey : String := "$for"

namespace Frame

/-- The frame everything else is in. -/
def root : Frame := ⟨"", none, .root, .null, 0⟩

/-- The address of a frame in this one. -/
def address (f : Frame) (segment : String) : String :=
  f.path ++ "/" ++ segment

/-- The frame with further members; a frame without members gets them all. -/
def extend (f : Frame) (members : Members Value) : Frame :=
  match f.data with
  | .object old => { f with data := .object (Members.extend old members) }
  | _ => { f with data := .object members }

end Frame

end Trellis
