import Trellis.Rendered

/-!
# Sample components

Components of every kind there is to a component: one that forwards what it carries, one that
sorts its children, one that passes an event on, and two that ask their slots.
-/

namespace Trellis

namespace Rendered

/-- A tag with children and nothing else. -/
def box (tag : String) (kids : List Rendered) : Rendered :=
  mk (.plain tag) kids

/-- A `div` with everything it carries, and its label as text. -/
def labelled : Component := fun _ p _ =>
  return element "div" p.traits (.text (((Members.get? p.traits.props "label").map Value.text).getD ""))

/-- Whether a child wants to be in the header. -/
def isHeader (n : Rendered) : Bool :=
  match Members.get? n.self.attrs "slot" with
  | some (.string s) => s = "header"
  | _ => false

/-- A `section` whose children for the header come first, inside a `header`. -/
def layout : Component := fun _ _ content =>
  match content with
  | .nodes kids =>
    let (header, body) := kids.partition isHeader
    return box "section" (box "header" header :: body)
  | _ => return box "section" []

/-- A `button` that passes clicks on. -/
def emitter : Component := fun name p _ =>
  let e := { Element.plain "button" with text := some name }
  match Members.get? p.traits.on "click" with
  | some l => return mk (e.listen "click" l) []
  | none => return mk e []

/-- What the default slot builds for each of some values, in order. -/
def askDefault (slots : Slots Rendered) : List Value → Act (List Rendered)
  | [] => return []
  | given :: rest =>
    match Members.get? slots "default" with
    | none => return []
    | some build => do
      let node ← build given
      return node.toList ++ (← askDefault slots rest)

/-- A property under another name, if it is there. -/
def renamed (props : Members Value) (name other : String) : Members Value :=
  ((Members.get? props name).map fun v => (other, v)).toList

/-- A `div` with what its default slot builds for its data and its event. -/
def panel : Component := fun _ p _ => do
  let props := p.traits.props
  let given := .object (renamed props "data" "scopedData" ++ renamed props "onEvent" "event")
  return box "div" (← askDefault p.slots [given])

/-- A `div` with what its default slot builds for two texts. -/
def pair : Component := fun _ p _ => do
  let given := ["A", "B"].map fun s => Value.object [("scopedData", .string s)]
  return box "div" (← askDefault p.slots given)

/-- The sample components by name. -/
def samples : Registry Component := fun name =>
  List.lookup name
    [("labelled", labelled), ("layout", layout), ("emitter", emitter), ("panel", panel),
      ("pair", pair)]

end Rendered

end Trellis
