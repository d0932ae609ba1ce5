import Trellis.Build
import Trellis.Proofs.Resolved

/-!
# What building is made of

Building reads bindings, opens frames, sets their data and takes down where it went, one after the
other; the renderer makes nodes from what comes of it. So what goes through sequences and holds of
each of these holds of building, at any site of any schema.

* `Builder.Parts`: a relation between acts that the parts of building have to themselves.
* `Schema.Node.build_parts`: so does building. The induction follows the schema.
-/

namespace Trellis

open Schema Act

variable {N C : Type} {b : Builder N C}

/-- A relation between acts that goes through sequences, and that the parts of building have to
themselves: bindings, changes of the store, and nodes made from slots that have it. -/
structure Builder.Parts (b : Builder N C) (rel : ∀ {α : Type}, Act α → Act α → Prop) : Prop where
  goes : Corresponds (m := Act) (n := Act) @rel
  value : ∀ site binding, rel (b.value site binding) (b.value site binding)
  visit : ∀ v, rel (Act.visit v) (Act.visit v)
  openSpace : ∀ parent segment ns,
    rel (opening (·.openSpace parent segment ns)) (opening (·.openSpace parent segment ns))
  openSlot : ∀ owner ns slot given,
    rel (opening (·.openSlot owner ns slot given)) (opening (·.openSlot owner ns slot given))
  addData : ∀ scope ns members, rel (opening fun s => (s.addData scope ns members).map ((), ·))
    (opening fun s => (s.addData scope ns members).map ((), ·))
  setLoop : ∀ scope v, rel (opening fun s => (s.setLoop scope v).map ((), ·))
    (opening fun s => (s.setLoop scope v).map ((), ·))
  create : ∀ c traits (slots : Slots N) content,
    (∀ slot ∈ slots, ∀ given, rel (slot.2 given) (slot.2 given)) →
    rel (b.renderer.create (b.registry.resolve c) ⟨traits, slots⟩ content)
      (b.renderer.create (b.registry.resolve c) ⟨traits, slots⟩ content)

variable {rel : ∀ {α : Type}, Act α → Act α → Prop} (h : b.Parts @rel)

include h

namespace Builder.Parts

theorem ofExcept {α : Type} (x : Except Fault α) : rel (Act.ofExcept x) (Act.ofExcept x) := by
  cases x with
  | ok a => exact h.goes.pure a
  | error e => exact h.goes.throw e

variable {build : Site → Act (Option N)}

theorem arrive (site : Site) (step : Step) (scope : ScopeId) :
    rel (site.arrive step scope) (site.arrive step scope) :=
  h.goes.bind (h.visit _) fun _ => h.goes.pure _

theorem enterSpace (site : Site) (step : Step) (ns : String) (seed : Option (Members Value)) :
    rel (site.enterSpace step ns seed) (site.enterSpace step ns seed) := by
  unfold Site.enterSpace
  refine h.goes.bind (h.openSpace _ _ _) fun opened => ?_
  refine h.goes.bind ?_ fun _ => h.arrive site step _
  unfold Site.fill
  split
  · exact h.addData _ _ _
  · exact h.goes.pure _

theorem place (hb : ∀ site, rel (build site) (build site)) (site : Site) (position : Nat)
    (d : Directives) : rel (site.place position d build) (site.place position d build) := by
  unfold Site.place
  split
  · exact h.goes.pure _
  refine h.goes.bind ?_ hb
  unfold Site.enter
  split
  · exact h.goes.pure _
  · exact h.enterSpace _ _ _ _

theorem turns (hb : ∀ site, rel (build site) (build site)) (anchor : Site) (ns : String)
    (seed : Option (Members Value)) (turns : List Iteration) :
    rel (anchor.turns ns seed build turns) (anchor.turns ns seed build turns) := by
  induction turns with
  | nil => exact h.goes.pure _
  | cons next rest ih =>
    have henter : rel (anchor.enterTurn ns seed next) (anchor.enterTurn ns seed next) :=
      h.goes.bind (h.enterSpace _ _ _ _) fun _ => h.goes.bind (h.setLoop _ _) fun _ => h.goes.pure _
    refine h.goes.bind henter fun site => h.goes.bind (hb site) fun node => ?_
    exact h.goes.bind ih fun _ => h.goes.pure _

theorem slotContent (hb : ∀ site, rel (build site) (build site)) (owner : Site) (ns slot : String)
    (d : Directives) (given : Value) :
    rel (owner.slotContent ns slot d build given) (owner.slotContent ns slot d build given) := by
  have henter : rel (owner.enterSlot ns slot given) (owner.enterSlot ns slot given) :=
    h.goes.bind (h.openSlot _ _ _ _) fun _ => h.arrive _ _ _
  exact h.goes.bind henter fun site => h.place hb site 0 d

theorem child (hb : ∀ site, rel (build site) (build site)) (site : Site) (position : Nat)
    (d : Directives) : rel (b.child site position d build) (b.child site position d build) := by
  unfold Builder.child
  split
  · unfold Builder.loop
    split
    · exact h.goes.pure _
    split
    · exact h.goes.throw _
    · refine h.goes.bind ?_ fun anchor => ?_
      · unfold Site.enter
        split
        · exact h.goes.pure _
        · exact h.enterSpace _ _ _ _
      · refine h.goes.bind (h.value _ _) fun v => h.goes.bind (h.ofExcept _) fun turns => ?_
        exact h.turns hb anchor _ _ turns
  · exact h.goes.bind (h.place hb _ _ _) fun _ => h.goes.pure _

end Builder.Parts

mutual

/-- **Building a node** has the relation to itself if its parts have. -/
theorem Schema.Node.build_parts : ∀ (n : Node) (site : Site), rel (n.build b site) (n.build b site)
  | .mk d kids contents, site => by
    have hvalue := h.value site
    rw [Node.build]
    refine h.goes.bind (d.present_corresponds h.goes hvalue) fun present => ?_
    split
    · exact h.goes.pure _
    refine h.goes.bind (d.traits_corresponds h.goes hvalue site.scope) fun traits => ?_
    split
    · refine h.goes.bind (d.content_corresponds h.goes hvalue (Node.buildKids_parts kids site))
        fun content => ?_
      exact h.goes.bind (h.create _ _ _ _ nofun) fun _ => h.goes.pure _
    · refine h.goes.bind ?_ fun ns => ?_
      · unfold Builder.slotSpace
        split
        · exact h.goes.pure _
        · exact h.goes.throw _
      · exact h.goes.bind (h.create _ _ _ _ (Node.buildSlots_parts contents ns site))
          fun _ => h.goes.pure _

/-- Building children. -/
theorem Schema.Node.buildKids_parts : ∀ (kids : Option (List Node)) (site : Site),
    rel (Node.buildKids b kids site) (Node.buildKids b kids site)
  | none, site => by
    rw [Node.buildKids]
    exact h.goes.pure _
  | some kids, site => by
    rw [Node.buildKids]
    exact h.goes.bind (Node.buildAll_parts kids site 0) fun _ => h.goes.pure _

/-- Building nodes in order. -/
theorem Schema.Node.buildAll_parts : ∀ (kids : List Node) (site : Site) (i : Nat),
    rel (Node.buildAll b kids site i) (Node.buildAll b kids site i)
  | [], site, i => by
    rw [Node.buildAll]
    exact h.goes.pure _
  | n :: rest, site, i => by
    rw [Node.buildAll]
    refine h.goes.bind (h.child (fun site => Node.build_parts n site) site i n.self) fun _ => ?_
    exact h.goes.bind (Node.buildAll_parts rest site (i + 1)) fun _ => h.goes.pure _

/-- Building the contents of slots, each when it is asked for. -/
theorem Schema.Node.buildSlots_parts : ∀ (contents : List (String × Node)) (ns : String)
    (owner : Site), ∀ slot ∈ Node.buildSlots b ns owner contents, ∀ given,
      rel (slot.2 given) (slot.2 given)
  | [], ns, owner => by
    rw [Node.buildSlots]
    exact nofun
  | (name, n) :: rest, ns, owner => by
    rw [Node.buildSlots]
    intro slot hslot given
    rcases List.mem_cons.1 hslot with rfl | hslot
    · exact h.slotContent (fun site => Node.build_parts n site) owner ns name n.self given
    · exact Node.buildSlots_parts rest ns owner slot hslot given

end

/-- So has building a whole schema. -/
theorem Builder.Parts.root (n : Node) : rel (b.root n) (b.root n) := by
  unfold Builder.root
  split
  · exact h.goes.throw _
  · exact h.place (fun site => Node.build_parts h n site) _ _ _

end Trellis
