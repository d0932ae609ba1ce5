import Trellis.Path
import Trellis.Scope.Way
import Trellis.Value.Update

/-!
# The store of scopes

Frames under their numbers, and the numbers under the frames' addresses. A frame is opened once;
opening its address again enters it and keeps its data, unless it stands for something else now.
Numbers are never given twice.

* `Store.chain`: a scope and the scopes around it, innermost first. Names are looked up along it,
  so a scope sees what is around it and nothing beside it.
* `Store.openSpace`, `Store.openSlot`: open or enter a frame.
* `Store.get`, `Store.write`: read and write at a path.
* `Store.beginPass`, `Store.finishPass`: a pass drops the frames it did not touch.

An operation that fails returns no store: the old one stands.
-/

namespace Trellis

/-- The frames, the index of their addresses, the next number and the pass. -/
structure Store where
  frames : List (ScopeId × Frame)
  addresses : Members ScopeId
  nextId : ScopeId
  epoch : Nat

namespace Store

/-- The root's number. -/
def rootId : ScopeId := 0

/-- The root and nothing else. -/
def new : Store where
  frames := [(rootId, .root)]
  addresses := [("", rootId)]
  nextId := 1
  epoch := 0

variable (s : Store)

/-- How many frames are live. -/
def size : Nat := s.frames.length

/-- Whether no frame but the root is live. -/
def isEmpty : Bool := s.size ≤ 1

/-- A live frame. -/
def frame? (id : ScopeId) : Option Frame := s.frames.lookup id

/-- The address of a live frame. -/
def pathOf? (id : ScopeId) : Option String := (s.frame? id).map Frame.path

/-- The frame at an address. -/
def scopeAt? (path : String) : Option ScopeId := Members.get? s.addresses path

/-- The store with one frame changed. -/
def modify (id : ScopeId) (f : Frame → Frame) : Store :=
  { s with frames := s.frames.map fun e => if e.1 = id then (e.1, f e.2) else e }

/-- The scopes from `id` outwards as far as they are live, at most `fuel` of them, and whether the
last one is the outermost. -/
def chainFrom (s : Store) : Nat → ScopeId → List (ScopeId × Frame) × Bool
  | 0, _ => ([], false)
  | fuel + 1, id =>
    match s.frame? id with
    | none => ([], false)
    | some f =>
      match f.parent with
      | none => ([(id, f)], true)
      | some parent =>
        let (outer, whole) := s.chainFrom fuel parent
        ((id, f) :: outer, whole)

/-- A scope and the scopes around it, innermost first, and whether the chain is whole. A scope is
younger than the one around it, so a chain is not longer than its first number allows. -/
def chain (id : ScopeId) : List (ScopeId × Frame) × Bool :=
  s.chainFrom (id + 1) id

/-- The nearest frame of a kind on the chain of a scope. A chain that breaks off first is a
fault. -/
def nearest? (scope : ScopeId) (kind : FrameKind) : Except Fault (Option (ScopeId × Frame)) :=
  let (frames, whole) := s.chain scope
  match frames.find? (fun e => e.2.kind = kind) with
  | some e => .ok (some e)
  | none => if whole then .ok none else .error .released

/-- The nearest frame of a namespace. -/
def space (scope : ScopeId) (ns : String) : Except Fault (ScopeId × Frame) := do
  match ← s.nearest? scope (.space ns) with
  | some e => .ok e
  | none => .error (.namespaceMissing ns)

/-- The nearest frame of a slot. -/
def slotFrame (scope : ScopeId) (ns slot : String) : Except Fault (ScopeId × Frame) := do
  match ← s.nearest? scope (.slot ns slot) with
  | some e => .ok e
  | none => .error (.slotMissing ns slot)

/-- Opens or enters the frame at a segment of `parent`, and says whether its data is new. A frame
that stood for something else starts over. -/
def openFrame (parent : ScopeId) (segment : String) (kind : FrameKind) :
    Except Fault ((ScopeId × Bool) × Store) :=
  match s.frame? parent with
  | none => .error .released
  | some outer =>
    let path := outer.address segment
    match s.scopeAt? path with
    | some id =>
      match s.frame? id with
      | none => .error .released
      | some f =>
        if f.kind = kind then
          .ok ((id, false), s.modify id fun f => { f with epoch := s.epoch })
        else
          .ok ((id, true),
            s.modify id fun f => { f with epoch := s.epoch, kind := kind, data := .empty })
    | none =>
      let f : Frame := ⟨path, some parent, kind, .empty, s.epoch⟩
      .ok ((s.nextId, true),
        { s with
          frames := (s.nextId, f) :: s.frames
          addresses := Members.assign s.addresses path s.nextId
          nextId := s.nextId + 1 })

/-- Opens or enters the frame of a namespace. -/
def openSpace (parent : ScopeId) (segment ns : String) :
    Except Fault ((ScopeId × Bool) × Store) :=
  s.openFrame parent segment (.space ns)

/-- Opens or enters the frame of a slot and gives it its data. -/
def openSlot (owner : ScopeId) (ns slot : String) (data : Value) :
    Except Fault (ScopeId × Store) := do
  let ((id, _), s) ← s.openFrame owner (Step.slot ns slot).segment (.slot ns slot)
  return (id, s.modify id fun f => { f with data := data })

/-- Assigns members to the nearest frame of a namespace. -/
def addData (scope : ScopeId) (ns : String) (members : Members Value) : Except Fault Store := do
  let (id, _) ← s.space scope ns
  return s.modify id (Frame.extend · members)

/-- Sets the loop member of a namespace's own frame. -/
def setLoop (scope : ScopeId) (binding : Value) : Except Fault Store :=
  match s.frame? scope with
  | none => .error .released
  | some f =>
    match f.kind, f.data with
    | .space _, .object members =>
      .ok (s.modify scope fun f =>
        { f with data := .object (Members.assign members loopKey binding) })
    | _, _ => .error (.invalidSchema "loop bindings require a namespaced node")

/-- What a path leads to from a scope. -/
def get (scope : ScopeId) (path : Path) : Except Fault Value := do
  let (_, f) ← match path.slot with
    | none => s.space scope path.ns
    | some slot => s.slotFrame scope path.ns slot
  match f.data.at? path.keys with
  | .ok v => .ok v
  | .error key => .error (.keyMissing path.root key)

/-- The data of the nearest frame of a namespace, if there is one. -/
def spaceData? (scope : ScopeId) (ns : String) : Except Fault (Option Value) := do
  let found ← s.nearest? scope (.space ns)
  return found.map fun e => e.2.data

/-- The fault of a write that has no place. -/
def writeFault (ns : String) : Misplaced → Fault
  | .absent key => .keyMissing ns key
  | .outside index => .keyMissing ns index
  | .noContainer key kind => .wrongType ("cannot set member `" ++ key ++ "` on " ++ kind)

/-- The address of a member of a frame. -/
def memberAddress (f : Frame) (ns : String) (keys : List String) : String :=
  f.path ++ ":" ++ ns ++ "." ++ ".".intercalate keys

/-- Writes a member of the nearest frame of a namespace, and returns the member's address. -/
def write (scope : ScopeId) (ns : String) (keys : List String) (value : Value) :
    Except Fault (String × Store) :=
  if keys.isEmpty then .error (.wrongType ("cannot reassign namespace `" ++ ns ++ "`"))
  else do
    let (id, f) ← s.space scope ns
    match f.data.replace keys value with
    | .ok data => .ok (memberAddress f ns keys, s.modify id fun f => { f with data := data })
    | .error e => .error (writeFault ns e)

/-- Begins a pass: frames opened or entered from now on are touched by it. -/
def beginPass : Store :=
  { s with epoch := s.epoch + 1 }.modify rootId fun f => { f with epoch := s.epoch + 1 }

/-- Drops the frames the pass has not touched, and says how many. -/
def finishPass : Nat × Store :=
  let live := s.frames.filter fun e => e.2.epoch = s.epoch
  let ids := live.map Prod.fst
  (s.size - live.length,
    { s with frames := live, addresses := s.addresses.filter fun e => ids.contains e.2 })

end Store

end Trellis
