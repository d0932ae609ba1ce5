import Trellis.Iteration
import Trellis.Resolved

/-!
# Building

A schema is built depth first and in order. A node with a namespace opens its frame at its place
and seeds it when the frame is new; a node without one is built in the frame it is in, and only
its place is longer. A loop is built once for each turn over its source as it was before the first
turn, each turn in a frame of its own inside the loop's. The content of a scoped slot is built when
the slot is asked for, inside a frame that holds what the slot was given.

* `Site.place`: a node that is switched off for good opens no frame, any other opens its frame
  before anything else happens.
* `Site.enter`: the frame of a node.
* `Schema.Node.build`: a node in its frame. The recursion follows the schema.
* `Builder.root`: a whole schema.
-/

namespace Trellis

open Schema

/-- A renderer, the components it may use, and the options. -/
structure Builder (N C : Type) where
  renderer : Renderer N C
  registry : Registry C
  config : Config

/-- Where a node is built: in the frame at the end of a way, at the positions walked since the frame
was entered. -/
structure Site where
  way : Way
  scope : ScopeId
  walked : List Nat

namespace Site

/-- The beginning of the root. -/
def root : Site := ⟨[], Store.rootId, []⟩

/-- The place of a child without a frame of its own. -/
def child (site : Site) (position : Nat) : Site :=
  { site with walked := site.walked ++ [position] }

/-- The step to the frame of a child. -/
def step (site : Site) (position : Nat) (ns : String) : Step :=
  .space (site.walked ++ [position]) ns

/-- The beginning of a frame that is one step further; it has been entered. -/
def arrive (site : Site) (step : Step) (scope : ScopeId) : Act Site := do
  Act.visit ⟨site.way ++ [step], scope⟩
  return ⟨site.way ++ [step], scope, []⟩

/-- Gives the frame of a namespace its first members, if it is new. -/
def fill (scope : ScopeId) (ns : String) (created : Bool) (seed : Option (Members Value)) :
    Act Unit :=
  match created, seed with
  | true, some members => Act.opening fun s => (s.addData scope ns members).map ((), ·)
  | _, _ => pure ()

/-- Enters the frame of a namespace one step further, and seeds it if it is new. -/
def enterSpace (site : Site) (step : Step) (ns : String) (seed : Option (Members Value)) :
    Act Site := do
  let opened ← Act.opening (·.openSpace site.scope step.segment ns)
  fill opened.1 ns opened.2 seed
  site.arrive step opened.1

/-- Enters the frame of a node at a position. -/
def enter (site : Site) (d : Directives) (position : Nat) : Act Site :=
  match d.ns with
  | none => return site.child position
  | some ns => site.enterSpace (site.step position ns) ns d.data

/-- Builds a node at a position, given how it is built in its frame. -/
def place {N : Type} (site : Site) (position : Nat) (d : Directives)
    (build : Site → Act (Option N)) : Act (Option N) := do
  if d.condition.literal = some false then return none
  build (← site.enter d position)

/-- Enters the frame of one turn of a loop, inside the loop's. -/
def enterTurn (anchor : Site) (ns : String) (seed : Option (Members Value)) (turn : Iteration) :
    Act Site := do
  let site ← anchor.enterSpace (.turn turn.index ns) ns seed
  Act.opening fun s => (s.setLoop site.scope turn.toValue).map ((), ·)
  return site

/-- Builds the turns of a loop. -/
def turns {N : Type} (anchor : Site) (ns : String) (seed : Option (Members Value))
    (build : Site → Act (Option N)) : List Iteration → Act (List N)
  | [] => return []
  | next :: rest => do
    let node ← build (← anchor.enterTurn ns seed next)
    return node.toList ++ (← turns anchor ns seed build rest)

/-- Enters the frame of a slot, which holds what the slot is given. -/
def enterSlot (owner : Site) (ns slot : String) (given : Value) : Act Site := do
  let scope ← Act.opening (·.openSlot owner.scope ns slot given)
  owner.arrive (.slot ns slot) scope

/-- Builds the content of a slot for what the slot is given. -/
def slotContent {N : Type} (owner : Site) (ns slot : String) (d : Directives)
    (build : Site → Act (Option N)) (given : Value) : Act (Option N) := do
  (← owner.enterSlot ns slot given).place 0 d build

end Site

namespace Builder

variable {N C : Type} (b : Builder N C)

/-- The value of a binding at a site. -/
def value (site : Site) (binding : Binding) : Act Value :=
  binding.resolve b.config site.scope

/-- Builds a loop at a position. Its own frame is open when its source is resolved. -/
def loop (site : Site) (position : Nat) (d : Directives) (source : Binding)
    (build : Site → Act (Option N)) : Act (List N) := do
  if d.condition.literal = some false then return []
  match d.ns with
  | none => throw (.invalidSchema "a node carrying `for` must declare a namespace")
  | some ns =>
    let anchor ← site.enter d position
    let turns ← Act.ofExcept (Iteration.ofSource (← b.value anchor source))
    anchor.turns ns d.data build turns

/-- Builds a child: once, or as often as its loop says. -/
def child (site : Site) (position : Nat) (d : Directives) (build : Site → Act (Option N)) :
    Act (List N) :=
  match d.loop with
  | some source => b.loop site position d source build
  | none => do
    return (← site.place position d build).toList

/-- The namespace that slots are addressed under. -/
def slotSpace (d : Directives) : Act String :=
  match d.ns with
  | some ns => return ns
  | none => throw (.invalidSchema "a node declaring scoped slots must declare a namespace")

end Builder

namespace Schema.Node

variable {N C : Type}

mutual

/-- Builds a node in its frame. -/
def build (b : Builder N C) : Node → Site → Act (Option N)
  | mk d kids contents, site => do
    if !(← d.present (b.value site)) then return none
    let subject := b.registry.resolve d.component
    let traits ← d.traits (b.value site) site.scope
    if contents.isEmpty then
      let content ← d.content (b.value site) (buildKids b kids site)
      return some (← b.renderer.create subject ⟨traits, []⟩ content)
    else
      let ns ← Builder.slotSpace d
      let slots := buildSlots b ns site contents
      return some (← b.renderer.create subject ⟨traits, slots⟩ .none)

/-- Builds the children, if the node lists any. -/
def buildKids (b : Builder N C) : Option (List Node) → Site → Act (Content N)
  | none, _ => return .none
  | some kids, site => do
    return .nodes (← buildAll b kids site 0)

/-- Builds children in order, the first one at a position. -/
def buildAll (b : Builder N C) : List Node → Site → Nat → Act (List N)
  | [], _, _ => return []
  | n :: rest, site, position => do
    let nodes ← b.child site position n.self (fun s => build b n s)
    return nodes ++ (← buildAll b rest site (position + 1))

/-- The contents of slots, each to be built when it is asked for. -/
def buildSlots (b : Builder N C) (ns : String) (owner : Site) :
    List (String × Node) → Slots N
  | [] => []
  | (slot, n) :: rest =>
    (slot, Site.slotContent owner ns slot n.self (fun s => build b n s)) ::
      buildSlots b ns owner rest

end

end Schema.Node

/-- Builds a schema in the root frame. -/
def Builder.root {N C : Type} (b : Builder N C) (n : Node) : Act (Option N) := do
  if n.self.loop.isSome then throw (.invalidSchema "the root node cannot carry `for`")
  Site.root.place 0 n.self (n.build b)

end Trellis
