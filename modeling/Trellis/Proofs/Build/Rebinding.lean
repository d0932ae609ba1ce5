import Trellis.Build
import Trellis.Proofs.Rendered.Listeners

/-!
# Exchanging bindings and handlers

A schema is built the same with other bindings that stand for the same values, and with other
handlers the nodes it is built to carry those. So the renderer of plain trees makes the same tree
with other listeners, if the components it may use look into no listener
(`Rendered.Component.Blind`).

* `Schema.Node.rebind`: a schema with other bindings and handlers.
* `Schema.Node.build_rebind`: what it is built to. The induction follows the schema.
-/

namespace Trellis

open Schema

namespace Schema

/-- A switch with another binding. -/
def Toggle.rebind (β : Binding → Binding) (t : Toggle) : Toggle :=
  { t with bound := t.bound.map β }

/-- Entries with other bindings. -/
def Entries.rebind (β : Binding → Binding) (e : Entries) : Entries :=
  ⟨e.named.mapValues β, e.spread.map β⟩

/-- What a node says about itself, with other bindings and handlers. -/
def Directives.rebind (β : Binding → Binding) (ψ : Handler → Handler) (d : Directives) :
    Directives :=
  { d with
    condition := d.condition.rebind β
    visible := d.visible.rebind β
    boundClasses := d.boundClasses.map β
    style := d.style.rebind β
    attrs := d.attrs.rebind β
    props := d.props.rebind β
    domProps := d.domProps.rebind β
    boundText := d.boundText.map β
    html := d.html.map β
    loop := d.loop.map β
    key := d.key.map β
    on := d.on.mapValues ψ
    nativeOn := d.nativeOn.mapValues ψ }

namespace Node

mutual

/-- A schema with other bindings and handlers. -/
def rebind (β : Binding → Binding) (ψ : Handler → Handler) : Node → Node
  | mk d none contents => mk (d.rebind β ψ) none (rebindContents β ψ contents)
  | mk d (some kids) contents =>
    mk (d.rebind β ψ) (some (rebindAll β ψ kids)) (rebindContents β ψ contents)

/-- Schemas with other bindings and handlers. -/
def rebindAll (β : Binding → Binding) (ψ : Handler → Handler) : List Node → List Node
  | [] => []
  | n :: rest => rebind β ψ n :: rebindAll β ψ rest

/-- The contents of slots with other bindings and handlers. -/
def rebindContents (β : Binding → Binding) (ψ : Handler → Handler) :
    List (String × Node) → List (String × Node)
  | [] => []
  | (name, n) :: rest => (name, rebind β ψ n) :: rebindContents β ψ rest

end

variable {β : Binding → Binding} {ψ : Handler → Handler}

theorem rebind_mk (d : Directives) (kids : Option (List Node)) (contents : List (String × Node)) :
    (mk d kids contents).rebind β ψ =
      mk (d.rebind β ψ) (kids.map (rebindAll β ψ)) (rebindContents β ψ contents) := by
  cases kids <;> rw [rebind] <;> rfl

theorem self_rebind (n : Node) : (n.rebind β ψ).self = n.self.rebind β ψ := by
  obtain ⟨d, kids, contents⟩ := n
  rw [rebind_mk]
  rfl

theorem isEmpty_rebindContents (contents : List (String × Node)) :
    (rebindContents β ψ contents).isEmpty = contents.isEmpty := by
  cases contents <;> rfl

end Node

end Schema

/-- The listener with another handler. -/
def Listener.rehandle (ψ : Handler → Handler) (l : Listener) : Listener :=
  { l with handler := ψ l.handler }

theorem Listener.ofHandlers_mapValues (ψ : Handler → Handler) (scope : ScopeId)
    (handlers : Members Handler) :
    ofHandlers scope (handlers.mapValues ψ) =
      (ofHandlers scope handlers).mapValues (rehandle ψ) := by
  unfold ofHandlers Members.mapValues
  rw [List.map_map, List.map_map]
  rfl

/-- The tree with other handlers. -/
abbrev Rendered.rehandle (ψ : Handler → Handler) : Rendered → Rendered :=
  mapListeners (Listener.rehandle ψ)

/-! ### Directives -/

namespace Schema

variable {value : Binding → Act Value} {β : Binding → Binding} (hβ : ∀ b, value (β b) = value b)
  {ψ : Handler → Handler}

include hβ

theorem assignAll_rebind (bindings : Members Binding) (target : Members Value) :
    assignAll value target (bindings.mapValues β) = assignAll value target bindings := by
  induction bindings generalizing target with
  | nil => rfl
  | cons e bindings ih =>
    obtain ⟨name, b⟩ := e
    rw [Members.mapValues, List.map_cons, assignAll, assignAll, hβ]
    exact bind_congr fun v => ih _

theorem Entries.resolve_rebind (field : String) (e : Entries) :
    (e.rebind β).resolve value field = e.resolve value field := by
  unfold Entries.resolve Entries.rebind
  rw [assignAll_rebind hβ]
  cases e.spread with
  | none => rfl
  | some b => simp only [Option.map_some, hβ]

theorem Toggle.shown_rebind (t : Toggle) : (t.rebind β).shown value = t.shown value := by
  obtain ⟨literal, bound⟩ := t
  unfold Toggle.shown Toggle.rebind
  simp only
  cases literal.getD true with
  | false => rfl
  | true =>
    cases bound with
    | none => rfl
    | some b => simp only [Option.map_some, hβ]

namespace Directives

theorem present_rebind (d : Directives) : (d.rebind β ψ).present value = d.present value := by
  unfold present rebind Toggle.rebind
  simp only
  cases d.condition.bound with
  | none => rfl
  | some b => simp only [Option.map_some, hβ]

theorem classList_rebind (d : Directives) : (d.rebind β ψ).classList value = d.classList value := by
  unfold classList rebind
  simp only
  cases d.boundClasses with
  | none => rfl
  | some b => simp only [Option.map_some, hβ]

theorem keyValue_rebind (d : Directives) : (d.rebind β ψ).keyValue value = d.keyValue value := by
  unfold keyValue rebind
  simp only
  cases d.key with
  | none => rfl
  | some b => simp only [Option.map_some, hβ]

/-- **What a node carries** is the same but for its listeners. -/
theorem traits_rebind (scope : ScopeId) (d : Directives) :
    (d.rebind β ψ).traits value scope =
      Traits.mapListeners (Listener.rehandle ψ) <$> d.traits value scope := by
  unfold traits
  rw [d.classList_rebind hβ, d.keyValue_rebind hβ]
  unfold rebind
  simp only [Entries.resolve_rebind hβ, Toggle.shown_rebind hβ, Listener.ofHandlers_mapValues,
    map_bind, map_pure]
  rfl

theorem ownContent_rebind {N : Type} (d : Directives) :
    (d.rebind β ψ).ownContent value = (d.ownContent value : Act (Option (Content N))) := by
  unfold ownContent rebind
  simp only
  cases d.boundText with
  | some b => simp only [Option.map_some, hβ]
  | none =>
    cases d.html with
    | some b => simp only [Option.map_some, Option.map_none, hβ]
    | none => rfl

/-- **What is in a node** is the same but for the nodes. -/
theorem content_rebind {N M : Type} (f : N → M) (d : Directives) (children : Act (Content N)) :
    (d.rebind β ψ).content value (Content.map f <$> children) =
      Content.map f <$> d.content value children := by
  unfold content
  rw [d.ownContent_rebind hβ, ← d.map_ownContent f value, bind_map_left, map_bind]
  refine bind_congr fun own => ?_
  cases own with
  | none => rfl
  | some content => simp only [Option.map_some, map_pure]

end Directives

end Schema

/-! ### Places -/

section Places

variable {N M : Type} {f : N → M} {β : Binding → Binding} {ψ : Handler → Handler}
  {build : Site → Act (Option N)} {build' : Site → Act (Option M)}
  (hb : ∀ site, build' site = Option.map f <$> build site)

include hb

theorem Site.place_rebind (site : Site) (i : Nat) (d : Directives) :
    site.place i (d.rebind β ψ) build' = Option.map f <$> site.place i d build := by
  have henter : site.enter (d.rebind β ψ) i = site.enter d i := rfl
  have hcond : (d.rebind β ψ).condition.literal = d.condition.literal := rfl
  unfold Site.place
  rw [henter, hcond]
  split
  · simp only [map_pure, Option.map_none]
  · rw [map_bind]
    exact bind_congr hb

theorem Site.turns_rebind (site : Site) (ns : String) (seed : Option (Members Value)) :
    ∀ turns, site.turns ns seed build' turns = List.map f <$> site.turns ns seed build turns
  | [] => by simp only [Site.turns, map_pure, List.map_nil]
  | next :: rest => by
    rw [Site.turns, Site.turns, Site.turns_rebind site ns seed rest]
    simp only [hb, map_bind, bind_map_left, map_pure, List.map_append]
    refine bind_congr fun inside => bind_congr fun node => bind_congr fun more => ?_
    cases node <;> rfl

theorem Site.slotContent_rebind (site : Site) (ns slot : String) (d : Directives) (given : Value) :
    site.slotContent ns slot (d.rebind β ψ) build' given =
      Option.map f <$> site.slotContent ns slot d build given := by
  unfold Site.slotContent
  rw [map_bind]
  exact bind_congr fun inside => inside.place_rebind hb 0 d

end Places

/-! ### Making nodes -/

namespace Rendered

/-- A component that hands listeners on, if anything: with other listeners, and slots that build
nodes with other listeners, it makes the same tree with those listeners. -/
def Component.Blind (make : Component) : Prop :=
  ∀ (φ : Listener → Listener) (name : String) (traits : Traits) (slots : Slots Rendered)
    (content : Content Rendered),
    make name ⟨traits.mapListeners φ, slots.map (mapListeners φ)⟩ (content.map (mapListeners φ)) =
      mapListeners φ <$> make name ⟨traits, slots⟩ content

variable {φ : Listener → Listener}

theorem fillSlots_map (given : String → Value) : ∀ slots : Slots Rendered,
    fillSlots given (slots.map (mapListeners φ)) = List.map (mapListeners φ) <$> fillSlots given slots
  | [] => by rw [fillSlots, map_pure]; rfl
  | (slot, build) :: rest => by
    rw [fillSlots, Slots.map, Members.mapValues, List.map_cons, fillSlots]
    change (Option.map (mapListeners φ) <$> build (given slot) >>= fun node =>
      fillSlots given (Slots.map (mapListeners φ) rest) >>= fun more => pure (node.toList ++ more)) = _
    rw [fillSlots_map given rest]
    simp only [map_bind, bind_map_left, map_pure, List.map_append]
    refine bind_congr fun node => bind_congr fun more => ?_
    cases node <;> rfl

/-- **The renderer of plain trees** looks into no listener if the components it may use do not. -/
theorem create_blind {known : Registry Component} (h : ∀ name make, known name = some make →
    make.Blind) (c : Schema.Component) (traits : Traits) (slots : Slots Rendered)
    (content : Content Rendered) :
    create (known.resolve c) ⟨traits.mapListeners φ, slots.map (mapListeners φ)⟩
        (content.map (mapListeners φ)) =
      mapListeners φ <$> create (known.resolve c) ⟨traits, slots⟩ content := by
  cases c with
  | inline definition =>
    unfold Registry.resolve
    simp only [create, fillSlots_map, bind_map_left, map_bind, map_pure, mapListeners_element,
      map_appended]
  | named name =>
    unfold Registry.resolve
    simp only
    cases hk : known name with
    | none => simp only [create, map_pure, mapListeners_element]
    | some make =>
      have hmake := h name make hk φ name { traits with nativeOn := [] } slots content
      simp only [create, map_bind, map_pure, mapListeners_listenAll]
      change make name ⟨({ traits with nativeOn := [] } : Traits).mapListeners φ,
        slots.map (mapListeners φ)⟩ (content.map (mapListeners φ)) >>= _ = _
      rw [hmake, bind_map_left]
      rfl

end Rendered

/-! ### Nodes -/

section Nodes

set_option linter.unusedSectionVars false

variable {known : Registry Rendered.Component} {config : Config} {β : Binding → Binding}
  (hβ : ∀ scope b, (β b).resolve config scope = b.resolve config scope) {ψ : Handler → Handler}

include hβ

theorem Builder.child_rebind {f : Rendered → Rendered}
    {build build' : Site → Act (Option Rendered)}
    (hb : ∀ site, build' site = Option.map f <$> build site)
    (site : Site) (i : Nat) (d : Directives) :
    (trees known config).child site i (d.rebind β ψ) build' =
      List.map f <$> (trees known config).child site i d build := by
  have hloop : (d.rebind β ψ).loop = d.loop.map β := rfl
  unfold child
  rw [hloop]
  cases d.loop with
  | none =>
    simp only [Option.map_none, site.place_rebind hb, bind_map_left, map_bind, map_pure]
    refine bind_congr fun node => ?_
    cases node <;> rfl
  | some source =>
    have henter : site.enter (d.rebind β ψ) i = site.enter d i := rfl
    have hcond : (d.rebind β ψ).condition.literal = d.condition.literal := rfl
    have hns : (d.rebind β ψ).ns = d.ns := rfl
    have hdata : (d.rebind β ψ).data = d.data := rfl
    simp only [Option.map_some]
    unfold loop value
    rw [henter, hcond, hns, hdata]
    split
    · simp only [map_pure, List.map_nil]
    cases d.ns with
    | none => rfl
    | some ns =>
      simp only [map_bind]
      refine bind_congr fun anchor => ?_
      rw [show (trees known config).config = config from rfl, hβ]
      exact bind_congr fun v => bind_congr fun turns => anchor.turns_rebind hb ns d.data turns

variable (hknown : ∀ name make, known name = some make → make.Blind)

include hknown

mutual

/-- **Building** with other bindings of the same values, and with other handlers. -/
theorem Schema.Node.build_rebind : ∀ (n : Node) (site : Site),
    (n.rebind β ψ).build (Builder.trees known config) site =
      Option.map (Rendered.rehandle ψ) <$>
        n.build (Builder.trees known config) site
  | .mk d kids contents, site => by
    have hvalue : ∀ b, (Builder.trees known config).value site (β b) =
        (Builder.trees known config).value site b := hβ site.scope
    have hspace : Builder.slotSpace (d.rebind β ψ) = Builder.slotSpace d := rfl
    have hcomponent : (d.rebind β ψ).component = d.component := rfl
    have hcreate : ∀ traits (slots : Slots Rendered) content,
        (Builder.trees known config).renderer.create
            ((Builder.trees known config).registry.resolve d.component)
            ⟨Traits.mapListeners (Listener.rehandle ψ) traits,
              slots.map (Rendered.rehandle ψ)⟩
            (Content.map (Rendered.rehandle ψ) content) =
          Rendered.rehandle ψ <$> (Builder.trees known config).renderer.create
            ((Builder.trees known config).registry.resolve d.component) ⟨traits, slots⟩ content :=
      Rendered.create_blind hknown d.component
    -- on the left the same acts in the same order; the map is moved outwards one by one
    rw [Node.rebind_mk, Node.build, Node.build, Node.isEmpty_rebindContents,
      d.present_rebind hvalue, d.traits_rebind hvalue, hspace, hcomponent,
      Node.buildKids_rebind kids site, d.content_rebind hvalue]
    simp only [map_bind]
    refine bind_congr fun present => ?_
    split
    · simp only [map_pure, Option.map_none]
    rw [bind_map_left, map_bind]
    refine bind_congr fun traits => ?_
    split
    · rw [bind_map_left, map_bind]
      refine bind_congr fun content => ?_
      have hmade := hcreate traits [] content
      rw [show Slots.map (Rendered.rehandle ψ) [] = [] from rfl] at hmade
      rw [hmade, bind_map_left, map_bind]
      simp only [map_pure, Option.map_some]
    · rw [map_bind]
      refine bind_congr fun ns => ?_
      have hmade :=
        hcreate traits (Node.buildSlots (Builder.trees known config) ns site contents) .none
      rw [show Content.map (Rendered.rehandle ψ) .none = .none from rfl] at hmade
      rw [Node.buildSlots_rebind contents ns site, hmade, bind_map_left, map_bind]
      simp only [map_pure, Option.map_some]

/-- Building children. -/
theorem Schema.Node.buildKids_rebind : ∀ (kids : Option (List Node)) (site : Site),
    Node.buildKids (Builder.trees known config) (kids.map (Node.rebindAll β ψ)) site =
      Content.map (Rendered.rehandle ψ) <$>
        Node.buildKids (Builder.trees known config) kids site
  | none, site => by
    rw [Option.map_none, Node.buildKids, map_pure]
    rfl
  | some kids, site => by
    rw [Option.map_some, Node.buildKids, Node.buildKids, Node.buildAll_rebind kids site 0]
    simp only [bind_map_left, map_bind, map_pure, Content.map]

/-- Building nodes in order. -/
theorem Schema.Node.buildAll_rebind : ∀ (kids : List Node) (site : Site) (i : Nat),
    Node.buildAll (Builder.trees known config) (Node.rebindAll β ψ kids) site i =
      List.map (Rendered.rehandle ψ) <$>
        Node.buildAll (Builder.trees known config) kids site i
  | [], site, i => by
    rw [Node.rebindAll, Node.buildAll, map_pure]
    rfl
  | n :: rest, site, i => by
    have hself : (n.rebind β ψ).self = n.self.rebind β ψ := Node.self_rebind n
    rw [Node.rebindAll, Node.buildAll, Node.buildAll, Node.buildAll_rebind rest site (i + 1), hself,
      Builder.child_rebind hβ (fun site => Node.build_rebind n site)]
    simp only [bind_map_left, map_bind, map_pure, List.map_append]

/-- Building the contents of slots. -/
theorem Schema.Node.buildSlots_rebind : ∀ (contents : Members Node) (ns : String) (site : Site),
    Node.buildSlots (Builder.trees known config) ns site (Node.rebindContents β ψ contents) =
      Slots.map (Rendered.rehandle ψ)
        (Node.buildSlots (Builder.trees known config) ns site contents)
  | [], ns, site => by
    rw [Node.rebindContents, Node.buildSlots]
    rfl
  | (slot, n) :: rest, ns, site => by
    have hself : (n.rebind β ψ).self = n.self.rebind β ψ := Node.self_rebind n
    rw [Node.rebindContents, Node.buildSlots, Node.buildSlots, Node.buildSlots_rebind rest ns site,
      hself]
    refine congrArg (· :: _) (congrArg (Prod.mk slot) (funext fun given => ?_))
    exact site.slotContent_rebind (fun site => Node.build_rebind n site) ns slot n.self given

end

/-- **Building the root** with other bindings of the same values, and with other handlers. -/
theorem Builder.root_rebind (n : Node) :
    (trees known config).root (n.rebind β ψ) =
      Option.map (Rendered.rehandle ψ) <$> (trees known config).root n := by
  have hloop : (n.self.rebind β ψ).loop = n.self.loop.map β := rfl
  unfold root
  rw [Node.self_rebind, hloop, Option.isSome_map]
  split
  · rfl
  · exact Site.root.place_rebind (Node.build_rebind hβ hknown n) 0 n.self

end Nodes

end Trellis
