import Trellis.Schema
import Trellis.Json.Reader

/-!
# Loading schemas

* `Node.ofJson`: a schema from a document.
* `Node.parse`: a schema from the text of one.

The members of a node are read in the order in which they stand, and the first that is wrong is
the fault. Members of unknown names may hold anything.
-/

namespace Trellis.Schema

/-- The names a node's members may have; a marked member of one of them has to have a bound
form. -/
def knownKeys : List String :=
  ["component", "namespace", "data", "if", "show", "class", "style", "attrs", "props", "domProps",
    "text", "html", "children", "for", "key", "on", "nativeOn", "scopedSlots", "slot", "ref",
    "refInFor"]

/-- The text a directive holds. -/
def loadText (key : String) : Json → Except Fault String
  | .string s => .ok s
  | _ => .error (.invalidSchema ("`" ++ key ++ "` must be a string"))

/-- The members a directive holds. -/
def loadObject (key : String) : Json → Except Fault (List (String × Json))
  | .object members => .ok members
  | _ => .error (.invalidSchema ("`" ++ key ++ "` must be an object"))

/-- One entry: the binding of a marked key, the literal of any other. -/
def loadEntry (key : String) (value : Json) : Except Fault (String × Binding) :=
  match splitMark key with
  | (name, true) => (Binding.ofJson value).map fun b => (name, b)
  | (name, false) => .ok (name, .literal (.ofJson value))

/-- The entries of a directive. -/
def loadEntries (key : String) (value : Json) : Except Fault (Members Binding) := do
  let members ← loadObject key value
  let entries ← members.mapM fun m => loadEntry m.1 m.2
  return Members.ofList entries

/-- The handlers of a directive. -/
def loadHandlers (key : String) (value : Json) : Except Fault (Members Handler) := do
  let entries ← loadEntries key value
  return entries.mapValues .binding

/-- What a node is made of. -/
def loadComponent (members : List (String × Json)) : Except Fault Component :=
  match Members.get? members "component" with
  | some (.string name) => .ok (.named name)
  | some (.object definition) => .ok (.inline (.ofJson (.object definition)))
  | some _ => .error (.invalidSchema "`component` must be a name or an inline definition")
  | none => .error (.invalidSchema "schema node is missing `component`")

namespace Directives

/-- Takes up a directive in its static form. -/
def loadStatic (d : Directives) (key : String) (value : Json) : Except Fault Directives :=
  match key with
  | "namespace" => do return { d with ns := some (← loadText key value) }
  | "data" => do
    let members ← loadObject key value
    return { d with data := some (Value.ofJsonMembers members) }
  | "if" => .ok { d with condition := { d.condition with literal := (Value.ofJson value).truthy } }
  | "show" => .ok { d with visible := { d.visible with literal := (Value.ofJson value).truthy } }
  | "class" => .ok { d with classes := some (.ofJson value) }
  | "style" => do return { d with style := { d.style with named := ← loadEntries key value } }
  | "attrs" => do return { d with attrs := { d.attrs with named := ← loadEntries key value } }
  | "props" => do return { d with props := { d.props with named := ← loadEntries key value } }
  | "domProps" => do
    return { d with domProps := { d.domProps with named := ← loadEntries key value } }
  | "text" => .ok { d with text := some (Value.ofJson value).text }
  | "html" =>
    -- A bound form stays, wherever it stands.
    if d.html.isSome then .ok d
    else .ok { d with html := some (.literal (.string (Value.ofJson value).text)) }
  | "for" => .ok { d with loop := some (.literal (.ofJson value)) }
  | "key" => .ok { d with key := some (.literal (.ofJson value)) }
  | "on" => do return { d with on := ← loadHandlers key value }
  | "nativeOn" => do return { d with nativeOn := ← loadHandlers key value }
  | "slot" => do return { d with slot := some (← loadText key value) }
  | "ref" => do return { d with reference := some (← loadText key value) }
  | "refInFor" => .ok { d with refInFor := (Value.ofJson value).truthy }
  | _ => .ok d

/-- Takes up a directive in its bound form. -/
def loadBound (d : Directives) (key : String) (value : Json) : Except Fault Directives :=
  let bound := Binding.ofJson value
  match key with
  | "if" => do return { d with condition := { d.condition with bound := some (← bound) } }
  | "show" => do return { d with visible := { d.visible with bound := some (← bound) } }
  | "class" => do return { d with boundClasses := some (← bound) }
  | "style" => do return { d with style := { d.style with spread := some (← bound) } }
  | "attrs" => do return { d with attrs := { d.attrs with spread := some (← bound) } }
  | "props" => do return { d with props := { d.props with spread := some (← bound) } }
  | "domProps" => do return { d with domProps := { d.domProps with spread := some (← bound) } }
  | "text" => do return { d with boundText := some (← bound) }
  | "html" => do return { d with html := some (← bound) }
  | "for" => do return { d with loop := some (← bound) }
  | "key" => do return { d with key := some (← bound) }
  | _ =>
    if knownKeys.contains key then
      .error (.invalidSchema ("`" ++ key ++ "` has no bound form"))
    else .ok d

end Directives

namespace Node

/-- Takes up a member that holds no nodes. -/
def loadDirective (node : Node) (key : String) (value : Json) : Except Fault Node := do
  let (name, bound) := splitMark key
  let d ← if bound then node.self.loadBound name value else node.self.loadStatic name value
  return node.update fun _ => d

/-- The node with other children. -/
def withChildren : Node → List Node → Node
  | mk d _ contents, kids => mk d (some kids) contents

/-- The node with other slot contents. -/
def withSlots : Node → Members Node → Node
  | mk d kids _, contents => mk d kids contents

mutual

/-- A node from a document, its rules unchecked. -/
def load : Json → Except Fault Node
  | .object members => do
    let component ← loadComponent members
    loadMembers members (mk (.plain component) none [])
  | _ => .error (.invalidSchema "schema node must be an object")

/-- Takes up a node's members in order. -/
def loadMembers : List (String × Json) → Node → Except Fault Node
  | [], node => .ok node
  | (key, value) :: rest, node => do
    let node ← (
      if key = "children" then
        match value with
        | .array items => (loadAll items).map node.withChildren
        | single => (load single).map fun n => node.withChildren [n]
      else if key = "scopedSlots" then
        match value with
        | .object contents => (loadSlots contents).map fun ns => node.withSlots (Members.ofList ns)
        | _ => .error (.invalidSchema "`scopedSlots` must be an object")
      else node.loadDirective key value)
    loadMembers rest node

/-- Nodes from documents in order. -/
def loadAll : List Json → Except Fault (List Node)
  | [] => .ok []
  | j :: rest => do
    let n ← load j
    let ns ← loadAll rest
    return n :: ns

/-- Slot contents from documents in order. -/
def loadSlots : List (String × Json) → Except Fault (List (String × Node))
  | [] => .ok []
  | (name, j) :: rest => do
    let n ← load j
    let ns ← loadSlots rest
    return (name, n) :: ns

end

/-- A schema from a document. -/
def ofJson (j : Json) : Except Fault Node := do
  let node ← load j
  node.validate
  return node

/-- A schema from the text of a document. -/
def parse (text : String) : Except Fault Node :=
  match Json.parse? text with
  | some j => ofJson j
  | none => .error .invalidJson

end Node

end Trellis.Schema
