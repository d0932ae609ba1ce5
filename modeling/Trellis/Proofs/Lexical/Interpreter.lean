import Trellis.Iteration
import Trellis.Rendered
import Trellis.Resolved

/-!
# Schemas without a store

What a schema comes to when it is walked with the layers around a node in hand, innermost first, and
nothing else: no frames, no addresses and no passes. Expressions are text, every component that has
a name is a tag, and listeners are all in the root's scope.

* `Env`: the layers around a node. `Env.get` reads a path in the first layer it fits.
* `Lexical.draw`: a node in its layers. The recursion follows the schema.
* `Lexical.render`: a whole schema.
-/

namespace Trellis

open Schema

/-- One layer around a node: a namespace or a slot, and what it holds. -/
structure Layer where
  kind : FrameKind
  data : Value

/-- The layers around a node, innermost first. -/
abbrev Env : Type := List Layer

namespace Env

variable (env : Env)

/-- What the innermost layer of a kind holds. -/
def find (kind : FrameKind) : Option Value :=
  (env.find? fun l => l.kind = kind).map Layer.data

/-- What the layer a path names holds. -/
def root (path : Path) : Except Fault Value :=
  match path.slot with
  | none =>
    match env.find (.space path.ns) with
    | some data => .ok data
    | none => .error (.namespaceMissing path.ns)
  | some slot =>
    match env.find (.slot path.ns slot) with
    | some data => .ok data
    | none => .error (.slotMissing path.ns slot)

/-- What a path leads to. -/
def get (path : Path) : Except Fault Value := do
  match (← env.root path).at? path.keys with
  | .ok v => .ok v
  | .error key => .error (.keyMissing path.root key)

/-- The value of a binding; an expression is its own text. -/
def value : Binding → Except Fault Value
  | .literal v => .ok v
  | .path p => env.get p
  | .expression raw => .ok (.string raw)

/-- The layers inside a node: one more if it has a namespace, which holds some members. -/
def enter (d : Directives) (members : Members Value) : Env :=
  match d.ns with
  | some ns => ⟨.space ns, .object (Members.ofList members)⟩ :: env
  | none => env

/-- The layers inside a node, the namespace of which holds its data. -/
def enterNode (d : Directives) : Env :=
  env.enter d (d.data.getD [])

/-- The layers inside one turn of a loop, the namespace of which holds the data of the node and the
turn: its number, its value and the name of its member. -/
def enterTurn (d : Directives) (turn : Iteration) : Env :=
  env.enter d (d.data.getD [] ++
    [(loopKey, .object [("index", .ofNat turn.index), ("value", turn.value), ("key", turn.key)])])

/-- The layers inside the content of a slot. -/
def enterSlot (d : Directives) (slot : String) (given : Value) : Env :=
  match d.ns with
  | some ns => ⟨.slot ns slot, given⟩ :: env
  | none => env

end Env

namespace Lexical

/-- A way to draw a node in its layers: it makes a tree, or nothing. -/
abbrev Drawing : Type := Env → Except Fault (Option Rendered)

/-- Draws a node unless it is switched off for good. -/
def place (d : Directives) (draw : Drawing) : Drawing := fun env =>
  if d.condition.literal = some false then return none else draw (env.enterNode d)

/-- Draws the turns of a loop. -/
def turns (d : Directives) (draw : Drawing) (env : Env) :
    List Iteration → Except Fault (List Rendered)
  | [] => return []
  | next :: rest => do
    let node ← draw (env.enterTurn d next)
    return node.toList ++ (← turns d draw env rest)

/-- Draws a loop: its source is read in the layer of its node. -/
def loop (d : Directives) (source : Binding) (draw : Drawing) (env : Env) :
    Except Fault (List Rendered) :=
  if d.condition.literal = some false then return []
  else do
    let anchor := env.enterNode d
    turns d draw anchor (← Iteration.ofSource (← anchor.value source))

/-- Draws a child: once, or as often as its loop says. -/
def child (d : Directives) (draw : Drawing) (env : Env) : Except Fault (List Rendered) :=
  match d.loop with
  | some source => loop d source draw env
  | none => do
    return (← place d draw env).toList

mutual

/-- Draws a node in its layers. A definition given in place asks each of its slots once, a tag
none. -/
def draw : Node → Drawing
  | .mk d kids contents, env => do
    if !(← d.present env.value) then return none
    let traits ← d.traits env.value Store.rootId
    let content ← if contents.isEmpty then d.content env.value (drawKids kids env) else pure .none
    match d.component with
    | .named tag => return some (.element tag traits content)
    | .inline definition =>
      let slotted ← drawSlots d (Rendered.inlineProps definition) contents env
      return some (.element (Rendered.inlineTag definition) traits
        (Rendered.appended slotted content))

/-- Draws the children, if the node lists any. -/
def drawKids : Option (List Node) → Env → Except Fault (Content Rendered)
  | none, _ => return .none
  | some kids, env => do
    return .nodes (← drawAll kids env)

/-- Draws children in order. -/
def drawAll : List Node → Env → Except Fault (List Rendered)
  | [], _ => return []
  | n :: rest, env => do
    let nodes ← child n.self (fun env => draw n env) env
    return nodes ++ (← drawAll rest env)

/-- Draws the contents of slots in order, each for what it is given. -/
def drawSlots (d : Directives) (given : String → Value) :
    List (String × Node) → Env → Except Fault (List Rendered)
  | [], _ => return []
  | (slot, n) :: rest, env => do
    let node ← place n.self (fun env => draw n env) (env.enterSlot d slot (given slot))
    return node.toList ++ (← drawSlots d given rest env)

end

/-- Draws a whole schema. -/
def render (n : Node) : Except Fault (Option Rendered) :=
  place n.self (draw n) []

end Lexical

end Trellis
