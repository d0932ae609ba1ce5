import Trellis.Renderer

/-!
# Rendered trees

The renderer that makes plain trees: elements with a tag, what they carry, and text, markup or
children. A component is a function that makes such a tree; a definition given in place names its
tag and what its slots are given.

* `Rendered.renderer`: the renderer.
* `Rendered.trigger`: fires the listeners of a node.
* `Rendered.toJson`: the tree as a document, without its listeners.
-/

namespace Trellis

/-- An element without its children. The listeners of an event are in the order of their
registration, the events in the order of their first listener. -/
structure Element where
  tag : String
  key : Option Value
  reference : Option String
  classes : List String
  style : Members Value
  attrs : Members Value
  props : Members Value
  domProps : Members Value
  text : Option String
  markup : Option String
  listeners : Members (List Listener)

/-- A tag and nothing else. -/
def Element.plain (tag : String) : Element where
  tag := tag
  key := none
  reference := none
  classes := []
  style := []
  attrs := []
  props := []
  domProps := []
  text := none
  markup := none
  listeners := []

namespace Element

/-- Registers a listener behind those the event has already. -/
def listen (e : Element) (event : String) (l : Listener) : Element :=
  let known := (Members.get? e.listeners event).getD []
  { e with listeners := Members.assign e.listeners event (known ++ [l]) }

/-- Registers listeners in order. -/
def listenAll (e : Element) (ls : Members Listener) : Element :=
  ls.foldl (fun e l => e.listen l.1 l.2) e

/-- The events that have listeners. -/
def events (e : Element) : List String :=
  Members.names e.listeners

/-- An element that carries the given traits; native listeners come after the others. -/
def ofTraits (tag : String) (t : Traits) : Element :=
  { plain tag with
    key := t.key
    reference := t.reference
    classes := ClassList.active t.classes
    style := t.style
    attrs := t.attrs
    props := t.props
    domProps := t.domProps : Element }.listenAll t.on |>.listenAll t.nativeOn

/-- An element without content of its own shows what its properties say: markup first, then
text. -/
def reflect (e : Element) : Element :=
  match Members.get? e.domProps "innerHTML", Members.get? e.domProps "textContent" with
  | some v, _ => { e with markup := some v.text }
  | none, some v => { e with text := some v.text }
  | none, none => e

end Element

/-- A tree of elements. -/
inductive Rendered where
  | mk (self : Element) (children : List Rendered)

namespace Rendered

/-- The element at the root. -/
def self : Rendered → Element
  | mk e _ => e

/-- The trees below the root. -/
def children : Rendered → List Rendered
  | mk _ kids => kids

/-- The tree of an element with some content. -/
def withContent (e : Element) : Content Rendered → Rendered
  | .none => mk e.reflect []
  | .text s => mk { e with text := some s } []
  | .markup s => mk { e with markup := some s } []
  | .nodes kids => mk e kids

/-- An element that carries a payload, its slots apart. -/
def element (tag : String) (t : Traits) (content : Content Rendered) : Rendered :=
  withContent (.ofTraits tag t) content

/-- The same tree with further listeners at the root. -/
def listenAll (ls : Members Listener) : Rendered → Rendered
  | mk e kids => mk (e.listenAll ls) kids

/-- Fires listeners in order; the outcome is that of the last. -/
def fireAll (config : Config) (args : List Value) (v : Value) : List Listener → Act Value
  | [] => return v
  | l :: rest => do
    let w ← l.fire config args
    fireAll config args w rest

/-- Fires the listeners of an event. Where there is none, nothing happens and null comes out. -/
def trigger (config : Config) (n : Rendered) (event : String) (args : List Value) : Act Value :=
  fireAll config args .null ((Members.get? n.self.listeners event).getD [])

/-- What a component makes a tree from: its name, a payload and content. -/
abbrev Component : Type := String → Payload Rendered → Content Rendered → Act Rendered

/-- The tag of a definition given in place. -/
def inlineTag (definition : Value) : String :=
  match definition.member? "tag" with
  | some (.string tag) => tag
  | _ => "div"

/-- What a definition given in place gives one of its slots. -/
def inlineProps (definition : Value) (slot : String) : Value :=
  (((definition.member? "slotProps").bind (·.member? slot))).getD .empty

/-- Asks every slot once, and keeps what it builds. -/
def fillSlots (given : String → Value) : Slots Rendered → Act (List Rendered)
  | [] => return []
  | (slot, build) :: rest => do
    let node ← build (given slot)
    return node.toList ++ (← fillSlots given rest)

/-- Content with further nodes behind it; nodes take the place of content of another kind. -/
def appended (slotted : List Rendered) : Content Rendered → Content Rendered
  | .nodes kids => .nodes (kids ++ slotted)
  | content => if slotted.isEmpty then content else .nodes slotted

/-- Makes a tree. Native listeners of a component go to the root of what it makes. -/
def create : Subject Component → Payload Rendered → Content Rendered → Act Rendered
  | .tag tag, p, content => return element tag p.traits content
  | .inline definition, p, content => do
    let slotted ← fillSlots (inlineProps definition) p.slots
    return element (inlineTag definition) p.traits (appended slotted content)
  | .registered name make, p, content => do
    let tree ← make name { p with traits := { p.traits with nativeOn := [] } } content
    return tree.listenAll p.traits.nativeOn

/-- The renderer of plain trees. -/
def renderer : Renderer Rendered Component := ⟨create⟩

/-- A field that is there unless it is empty. -/
def field (name : String) (items : List Json) : List (String × Json) :=
  if items.isEmpty then [] else [(name, .array items)]

/-- Named values as a field that is there unless it is empty. -/
def valueField (name : String) (values : Members Value) : List (String × Json) :=
  if values.isEmpty then [] else [(name, (Value.object values).toJson)]

/-- A field that may be missing. -/
def optional (name : String) (j : Option Json) : List (String × Json) :=
  (j.map fun j => (name, j)).toList

/-- The members of an element, given its children as documents. -/
def elementMembers (e : Element) (kids : List Json) : List (String × Json) :=
  [("tag", .string e.tag)] ++ optional "key" (e.key.map Value.toJson) ++
    optional "ref" (e.reference.map .string) ++ field "class" (e.classes.map .string) ++
    valueField "style" e.style ++ valueField "attrs" e.attrs ++ valueField "props" e.props ++
    valueField "domProps" e.domProps ++ optional "text" (e.text.map .string) ++
    optional "html" (e.markup.map .string) ++ field "children" kids ++
    field "events" (e.events.map .string)

mutual

/-- The tree as a document. -/
def toJson : Rendered → Json
  | mk e kids => .object (elementMembers e (jsonTrees kids))

/-- Each tree as a document. -/
def jsonTrees : List Rendered → List Json
  | [] => []
  | n :: rest => toJson n :: jsonTrees rest

end

end Rendered

end Trellis
