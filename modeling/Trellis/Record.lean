import Trellis.Renderer

/-!
# Records

The renderer that writes down what it was asked for: for each node what it is made of, what it
carries and what its content is. It asks every slot as often as the node's property `slotProps`
says, and keeps what the slots build behind the children.

* `Record.renderer`: the renderer.
* `Record.trigger`: calls the listener of an event.
-/

namespace Trellis

/-- What a node was asked to hold. -/
inductive Held where
  | nothing
  | text (s : String)
  | markup (s : String)
  | nodes (count : Nat)

/-- What came of a slot: how often it was asked, and how often it built nothing. -/
structure SlotCount where
  slot : String
  asked : Nat
  omitted : Nat

/-- What the renderer was asked for. -/
structure Request where
  subject : Subject String
  traits : Traits
  held : Held
  slots : List SlotCount

/-- A request with the records of the nodes below it. -/
inductive Record where
  | mk (request : Request) (nodes : List Record)

namespace Record

/-- The request at the root. -/
def request : Record → Request
  | mk r _ => r

/-- The records below the root. -/
def nodes : Record → List Record
  | mk _ ns => ns

/-- What content holds. -/
def held : Content Record → Held
  | .none => .nothing
  | .text s => .text s
  | .markup s => .markup s
  | .nodes ns => .nodes ns.length

/-- The nodes content holds. -/
def heldNodes : Content Record → List Record
  | .nodes ns => ns
  | _ => []

/-- What a slot is asked with: the entries under its name in the property `slotProps`, or once with
nothing. -/
def asked (t : Traits) (slot : String) : Except Fault (List Value) :=
  match (Members.get? t.props "slotProps").bind (·.member? slot) with
  | none => .ok [.empty]
  | some (.array entries) => .ok entries
  | some _ => .error (.wrongType "slotProps entries must be arrays")

/-- Asks a slot with each of some values. -/
def askSlot (build : Value → Act (Option Record)) : List Value → Act (List (Option Record))
  | [] => return []
  | given :: rest => do
    let node ← build given
    return node :: (← askSlot build rest)

/-- Asks every slot in order: what came of each, and all that was built. -/
def askSlots (t : Traits) : Slots Record → Act (List SlotCount × List Record)
  | [] => return ([], [])
  | (slot, build) :: rest => do
    let built ← askSlot build (← Act.ofExcept (asked t slot))
    let nodes := built.filterMap id
    let (counts, more) ← askSlots t rest
    return (⟨slot, built.length, built.length - nodes.length⟩ :: counts, nodes ++ more)

/-- Writes down a request. -/
def create (subject : Subject String) (p : Payload Record) (content : Content Record) :
    Act Record := do
  let (counts, slotted) ← askSlots p.traits p.slots
  return mk ⟨subject, p.traits, held content, counts⟩ (heldNodes content ++ slotted)

/-- The renderer that writes down requests. -/
def renderer : Renderer Record String := ⟨create⟩

/-- The listener of an event, native or not. -/
def listener? (n : Record) (event : String) (native : Bool) : Option Listener :=
  Members.get? (if native then n.request.traits.nativeOn else n.request.traits.on) event

/-- Calls the listener of an event. -/
def trigger (config : Config) (n : Record) (event : String) (native : Bool) (args : List Value) :
    Act Value :=
  match n.listener? event native with
  | some l => l.fire config args
  | none => throw (.notCallable ("no listener " ++ event))

/-- A registry with one component. -/
def sample : Registry String := fun name =>
  if name = "panel" then some "Panel!" else none

end Record

end Trellis
