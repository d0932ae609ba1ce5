import Trellis.Proofs.Schema.Loading
import Trellis.Build

/-!
# No loop is ignored

A node that carries `for` is built turn by turn wherever it is reached: whatever else were done with
one that is to be built in one place, a loaded schema would be built the same.

* `Schema.Node.buildInstead`: building in which something else is done with such nodes.
* `Schema.Node.build_instead`: an orderly schema is built the same. The induction follows the schema.
* `Builder.root_instead`: so is a whole one.
-/

namespace Trellis

open Schema

section Instead

variable {N C : Type} (b : Builder N C) (instead : Act (Option N))

/-- Builds a node in one place, if it is no loop; something else is done with a loop. -/
def Site.placeInstead (site : Site) (position : Nat) (d : Directives)
    (build : Site → Act (Option N)) : Act (Option N) :=
  if d.loop.isSome then instead else site.place position d build

/-- Builds a child: as often as its loop says, or in one place. -/
def Builder.childInstead (site : Site) (position : Nat) (d : Directives)
    (build : Site → Act (Option N)) : Act (List N) :=
  match d.loop with
  | some source => b.loop site position d source build
  | none => do
    return (← site.placeInstead instead position d build).toList

namespace Schema.Node

mutual

/-- Builds a node in its frame, with something else done with loops that are to be built in one
place. -/
def buildInstead : Node → Site → Act (Option N)
  | mk d kids contents, site => do
    if !(← d.present (b.value site)) then return none
    let subject := b.registry.resolve d.component
    let traits ← d.traits (b.value site) site.scope
    if contents.isEmpty then
      let content ← d.content (b.value site) (buildKidsInstead kids site)
      return some (← b.renderer.create subject ⟨traits, []⟩ content)
    else
      let ns ← Builder.slotSpace d
      let slots := buildSlotsInstead ns site contents
      return some (← b.renderer.create subject ⟨traits, slots⟩ .none)

/-- Builds the children, if the node lists any. -/
def buildKidsInstead : Option (List Node) → Site → Act (Content N)
  | none, _ => return .none
  | some kids, site => do
    return .nodes (← buildAllInstead kids site 0)

/-- Builds children in order. -/
def buildAllInstead : List Node → Site → Nat → Act (List N)
  | [], _, _ => return []
  | n :: rest, site, position => do
    let nodes ← b.childInstead instead site position n.self (fun s => buildInstead n s)
    return nodes ++ (← buildAllInstead rest site (position + 1))

/-- The contents of slots, each to be built when it is asked for. -/
def buildSlotsInstead (ns : String) (owner : Site) : List (String × Node) → Slots N
  | [] => []
  | (slot, n) :: rest =>
    (slot, fun given => do
        (← owner.enterSlot ns slot given).placeInstead instead 0 n.self (fun s => buildInstead n s)) ::
      buildSlotsInstead ns owner rest

end

mutual

/-- **An orderly schema** is built the same whatever is done with a loop that is to be built in one
place. -/
theorem build_instead : ∀ n : Node, n.All Orderly → n.buildInstead b instead = n.build b
  | mk d kids contents, h => by
    funext site
    rw [buildInstead, build, buildKids_instead kids h.kids]
    simp only [buildSlots_instead contents h.contents h.self.once]

/-- Children are. -/
theorem buildKids_instead : ∀ kids : Option (List Node), AllKids Orderly (kids.getD []) →
    buildKidsInstead b instead kids = buildKids b kids
  | none, _ => by
    funext site
    rw [buildKidsInstead, buildKids]
  | some kids, h => by
    funext site
    rw [buildKidsInstead, buildKids, buildAll_instead kids h]

theorem buildAll_instead : ∀ kids : List Node, AllKids Orderly kids →
    buildAllInstead b instead kids = buildAll b kids
  | [], _ => by
    funext site i
    rw [buildAllInstead, buildAll]
  | n :: rest, h => by
    funext site i
    rw [buildAllInstead, buildAll, build_instead n h.1, buildAll_instead rest h.2]
    -- a child that is a loop is built turn by turn
    unfold Builder.childInstead Builder.child Site.placeInstead
    cases n.self.loop <;> rfl

/-- The contents of slots are, which are no loops. -/
theorem buildSlots_instead : ∀ contents : List (String × Node), AllContents Orderly contents →
    (∀ c ∈ contents, c.2.self.loop = none) → ∀ (ns : String) (owner : Site),
      buildSlotsInstead b instead ns owner contents = buildSlots b ns owner contents
  | [], _, _, _, _ => by rw [buildSlotsInstead, buildSlots]
  | (name, n) :: rest, h, honce, ns, owner => by
    have hloop : n.self.loop = none := honce (name, n) List.mem_cons_self
    rw [buildSlotsInstead, buildSlots, build_instead n h.1,
      buildSlots_instead rest h.2 (fun c hc => honce c (List.mem_cons_of_mem _ hc))]
    unfold Site.placeInstead Site.slotContent
    simp only [hloop, Option.isSome_none, Bool.false_eq_true, if_false]

end

end Schema.Node

/-- Builds a schema in the root frame, with something else done with loops that are to be built in
one place. -/
def Builder.rootInstead (n : Node) : Act (Option N) := do
  if n.self.loop.isSome then throw (.invalidSchema "the root node cannot carry `for`")
  Site.root.placeInstead instead 0 n.self (n.buildInstead b instead)

/-- **A whole schema** that is orderly is built the same whatever is done with a loop that is to be
built in one place. -/
theorem Builder.root_instead {n : Node} (h : n.All Node.Orderly) :
    b.rootInstead instead n = b.root n := by
  unfold Builder.rootInstead Builder.root Site.placeInstead
  rw [Node.build_instead b instead n h]
  cases n.self.loop <;> rfl

end Instead

end Trellis
