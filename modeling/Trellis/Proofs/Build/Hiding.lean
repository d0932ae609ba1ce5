import Trellis.Proofs.Acts
import Trellis.Proofs.Rendered.Marked

/-!
# Showing or hiding one node

A schema is built the same whether one of its nodes is shown or not, but for the elements that stand
for this node. The builds of all variants are one act whose outcome is a marked tree, drawn for each
variant; what else is done on the way does not depend on the variant.

* `Act.OneUpTo`: a family of acts that is one act, its outcome read in one way or another. It goes
  through sequences.
* `Schema.Node.edit`: a schema with other directives at the node of one place.
* `Schema.Node.build_oneUpTo`: building. The induction follows the place.
-/

namespace Trellis

/-! ### Acts that are one -/

/-- Acts that are one and the same but for how its outcome is read. -/
def Act.OneUpTo {ι α β : Type} (F : ι → β → α) (x : ι → Act α) : Prop :=
  ∃ y : Act β, ∀ i, x i = F i <$> y

namespace Act.OneUpTo

variable {ι α β γ δ : Type} {F : ι → β → α} {G : ι → δ → γ}

theorem pure {a : ι → α} (b : β) (h : ∀ i, a i = F i b) : OneUpTo F fun i => (pure (a i) : Act α) :=
  ⟨Pure.pure b, fun i => (congrArg Pure.pure (h i)).trans (map_pure (F i) b).symm⟩

theorem throw (e : Fault) : OneUpTo F fun _ => (throw e : Act α) :=
  ⟨MonadExcept.throw e, fun _ => rfl⟩

/-- An act that is the same throughout, if its outcome is the reading of something. -/
theorem const (g : α → β) (h : ∀ i a, F i (g a) = a) (x : Act α) : OneUpTo F fun _ => x := by
  refine ⟨g <$> x, fun i => ?_⟩
  rw [Functor.map_map]
  simp only [h, id_map']

/-- **One act after another.** -/
theorem bind {x : ι → Act γ} {k : ι → γ → Act α} (hx : OneUpTo G x)
    (hk : ∀ d, OneUpTo F fun i => k i (G i d)) : OneUpTo F fun i => x i >>= k i := by
  obtain ⟨y, hy⟩ := hx
  choose z hz using hk
  refine ⟨y >>= z, fun i => ?_⟩
  calc x i >>= k i = y >>= fun d => k i (G i d) := by rw [hy, bind_map_left]
    _ = y >>= fun d => F i <$> z d := bind_congr fun d => hz d i
    _ = F i <$> (y >>= z) := (map_bind _ _ _).symm

theorem bind_same (x : Act γ) {k : ι → γ → Act α} (hk : ∀ c, OneUpTo F fun i => k i c) :
    OneUpTo F fun i => x >>= k i :=
  bind (G := fun _ c => c) (const id (fun _ _ => rfl) x) hk

/-- **The session** such acts leave is the same, and so is their outcome but for how it is read. -/
theorem runOn {x : ι → Act α} (h : OneUpTo F x) (s : Session) :
    ∃ (outcome : Except Fault β) (t : Session), ∀ i, (x i).runOn s = (outcome.map (F i), t) := by
  obtain ⟨y, hy⟩ := h
  refine ⟨(y.runOn s).1, (y.runOn s).2, fun i => ?_⟩
  rw [hy, runOn_map]

end Act.OneUpTo

/-! ### Places -/

namespace Schema

/-- One step down in a schema: to a child or to the content of a slot, by its number. -/
inductive Branch where
  | child (i : Nat)
  | slot (i : Nat)

/-- The schema with other directives at the node of one place. -/
def Node.edit (f : Directives → Directives) : List Branch → Node → Node
  | [], n => n.update f
  | .child i :: rest, mk d kids contents =>
    mk d (kids.map fun kids => kids.modify i (edit f rest)) contents
  | .slot i :: rest, mk d kids contents =>
    mk d kids (contents.modify i fun c => (c.1, edit f rest c.2))

end Schema

open Schema
open Act (OneUpTo)
open Rendered (Marked)

/-- One node or none, drawn for a variant. -/
abbrev drawnNode (w : Variant) : Option Marked → Option Rendered :=
  Option.map (Marked.drawn w)

/-- Nodes drawn for a variant. -/
abbrev drawnNodes (w : Variant) : List Marked → List Rendered :=
  List.map (Marked.drawn w)

theorem drawn_toList_append (w : Variant) (node : Option Marked) (more : List Marked) :
    (drawnNode w node).toList ++ drawnNodes w more = drawnNodes w (node.toList ++ more) := by
  cases node <;> rfl

/-- What makes nodes the same way throughout makes marked nodes without marks. -/
theorem Act.OneUpTo.node (x : Act (Option Rendered)) : OneUpTo drawnNode fun _ => x := by
  refine .const (Option.map Marked.unmarked) (fun w node => ?_) x
  cases node with
  | none => rfl
  | some n => exact congrArg some (Marked.drawn_unmarked w n)

theorem Act.OneUpTo.nodes (x : Act (List Rendered)) : OneUpTo drawnNodes fun _ => x := by
  refine .const (List.map Marked.unmarked) (fun w nodes => ?_) x
  rw [drawnNodes, List.map_map]
  exact (List.map_congr_left fun n _ => Marked.drawn_unmarked w n).trans nodes.map_id

theorem Act.OneUpTo.content (x : Act (Content Rendered)) :
    OneUpTo (fun w => Content.map (Marked.drawn w)) fun _ => x :=
  .const (Content.map Marked.unmarked) Marked.content_unmarked x

section Places

variable {build : Variant → Site → Act (Option Rendered)}
  (hb : ∀ site, OneUpTo drawnNode fun w => build w site)

include hb

theorem Site.place_oneUpTo (site : Site) (i : Nat) (d : Directives) :
    OneUpTo drawnNode fun w => site.place i d (build w) := by
  unfold place
  split
  · exact .pure none fun _ => rfl
  · exact .bind_same _ hb

theorem Site.turns_oneUpTo (anchor : Site) (ns : String) (seed : Option (Members Value)) :
    ∀ turns, OneUpTo drawnNodes fun w => anchor.turns ns seed (build w) turns
  | [] => .pure [] fun _ => rfl
  | next :: rest => by
    unfold turns
    refine .bind_same _ fun site => .bind (hb site) fun node => ?_
    refine .bind (Site.turns_oneUpTo anchor ns seed rest) fun more => ?_
    exact .pure (node.toList ++ more) fun w => drawn_toList_append w node more

theorem Site.slotContent_oneUpTo (owner : Site) (ns slot : String) (d : Directives)
    (given : Value) : OneUpTo drawnNode fun w => owner.slotContent ns slot d (build w) given :=
  .bind_same _ fun inside => inside.place_oneUpTo hb 0 d

variable {known : Registry Rendered.Component} {config : Config}

theorem Builder.child_oneUpTo (site : Site) (i : Nat) (d : Directives) :
    OneUpTo drawnNodes fun w => (trees known config).child site i d (build w) := by
  unfold child
  cases d.loop with
  | none =>
    refine .bind (site.place_oneUpTo hb i d) fun node => .pure node.toList fun w => ?_
    cases node <;> rfl
  | some source =>
    simp only
    unfold loop
    split
    · exact .pure [] fun _ => rfl
    cases d.ns with
    | none => exact .throw _
    | some ns =>
      refine .bind_same _ fun anchor => .bind_same _ fun v => .bind_same _ fun turns => ?_
      exact anchor.turns_oneUpTo hb ns d.data turns

end Places

/-! ### Making nodes -/

/-- **A node is made** of what it carries, of what its slots are filled with and of its content. -/
theorem Rendered.create_oneUpTo (marked : Bool) (c : Schema.Component) (t : Traits)
    {slots : Variant → Slots Rendered}
    (hslots : ∀ given, OneUpTo drawnNodes fun w => fillSlots given (slots w))
    (content : Content Marked) :
    OneUpTo Marked.drawn fun w => create (Registry.empty.resolve c)
      ⟨if marked then t.vary w else t, slots w⟩ (content.map (Marked.drawn w)) := by
  cases c with
  | named name =>
    refine .pure (Marked.withContent marked (.ofTraits name t) content) fun w => ?_
    exact (Marked.drawn_withContent w marked name t content).symm
  | inline definition =>
    refine .bind (hslots (inlineProps definition)) fun slotted => ?_
    obtain ⟨both, hboth⟩ := Marked.exists_appended slotted content
    refine .pure (Marked.withContent marked (.ofTraits (inlineTag definition) t) both) fun w => ?_
    rw [hboth, Marked.drawn_withContent]

/-- What a node says of its content does not hold any other node. -/
theorem Schema.Directives.content_oneUpTo {value : Binding → Act Value} (d : Directives)
    {children : Variant → Act (Content Rendered)}
    (h : OneUpTo (fun w => Content.map (Marked.drawn w)) children) :
    OneUpTo (fun w => Content.map (Marked.drawn w)) fun w => d.content value (children w) := by
  unfold content
  refine .bind_same _ fun own => ?_
  cases own with
  | none => exact h
  | some content => exact .content _

/-! ### Nodes -/

namespace Schema.Node

variable {config : Config}

/-- A node that is changed itself, or is not, with children and contents of slots that are built the
same but for the variant. -/
theorem build_oneUpTo_of_parts (marked : Bool) (d : Directives) {site : Site}
    {kids : Variant → Option (List Node)} {contents : Variant → Members Node}
    (hkids : OneUpTo (fun w => Content.map (Marked.drawn w))
      fun w => buildKids (Builder.trees .empty config) (kids w) site)
    (hslots : ∀ ns given, OneUpTo drawnNodes
      fun w => Rendered.fillSlots given
        (buildSlots (Builder.trees .empty config) ns site (contents w)))
    {empty : Bool} (hempty : ∀ w, (contents w).isEmpty = empty) :
    OneUpTo drawnNode fun w =>
      (mk (if marked then d.vary w else d) (kids w) (contents w)).build
        (Builder.trees .empty config) site := by
  have htraits : OneUpTo (fun w t => if marked then Traits.vary w t else t)
      fun w => (if marked then d.vary w else d).traits
        ((Builder.trees Registry.empty config).value site) site.scope := by
    cases marked with
    | false =>
      simp only [Bool.false_eq_true, if_false]
      exact .const id (fun _ _ => rfl) _
    | true => exact ⟨_, fun w => d.traits_vary _ _ w⟩
  -- nothing else looks at what a variant changes
  have hblind : ∀ {γ : Type} (g : Directives → γ), (∀ w, g (d.vary w) = g d) →
      ∀ w, g (if marked then d.vary w else d) = g d := by
    intro γ g hg w
    cases marked with
    | false => rfl
    | true => exact hg w
  have hpresent : ∀ w, (if marked then d.vary w else d).present
      ((Builder.trees Registry.empty config).value site) = d.present _ :=
    hblind (·.present _) fun _ => rfl
  have hspace : ∀ w, Builder.slotSpace (if marked then d.vary w else d) = Builder.slotSpace d :=
    hblind Builder.slotSpace fun _ => rfl
  have hcomponent : ∀ w, (if marked then d.vary w else d).component = d.component :=
    hblind (·.component) fun _ => rfl
  have hcontent : ∀ w (children : Act (Content Rendered)), (if marked then d.vary w else d).content
      ((Builder.trees Registry.empty config).value site) children = d.content _ children :=
    fun w children => hblind (·.content _ children) (fun _ => rfl) w
  simp only [build, hpresent, hspace, hcomponent, hcontent, hempty]
  refine .bind_same _ fun present => ?_
  split
  · exact .pure none fun _ => rfl
  refine .bind htraits fun t => ?_
  split
  · refine .bind (d.content_oneUpTo hkids) fun content => ?_
    have hnone : ∀ given, OneUpTo drawnNodes fun _ => Rendered.fillSlots given [] :=
      fun _ => .nodes _
    refine .bind (Rendered.create_oneUpTo marked d.component t hnone content) fun n => ?_
    exact .pure (some n) fun _ => rfl
  · refine .bind_same _ fun ns => ?_
    refine .bind (Rendered.create_oneUpTo marked d.component t (hslots ns) .none) fun n => ?_
    exact .pure (some n) fun _ => rfl

/-- What a node says of itself is changed or not. -/
theorem self_edit (place : List Branch) (n : Node) (w : Variant) :
    (n.edit (·.vary w) place).self = n.self ∨
      (n.edit (·.vary w) place).self = n.self.vary w := by
  obtain ⟨d, kids, contents⟩ := n
  rcases place with _ | ⟨_ | _, _⟩
  · exact .inr rfl
  · exact .inl rfl
  · exact .inl rfl

/-- Where a node is built, and how often, does not depend on the variant. -/
theorem place_edit (site : Site) (i : Nat) (place : List Branch) (n : Node) (w : Variant)
    (build : Site → Act (Option Rendered)) :
    site.place i (n.edit (·.vary w) place).self build = site.place i n.self build := by
  rcases self_edit place n w with h | h
  · rw [h]
  · rw [h]
    rfl

theorem child_edit (site : Site) (i : Nat) (place : List Branch) (n : Node) (w : Variant)
    (build : Site → Act (Option Rendered)) :
    (Builder.trees .empty config).child site i (n.edit (·.vary w) place).self build =
      (Builder.trees .empty config).child site i n.self build := by
  rcases self_edit place n w with h | h
  · rw [h]
  · rw [h]
    rfl

section

variable {place : List Branch}
  (hplace : ∀ (n : Node) (site : Site), OneUpTo drawnNode
    fun w => (n.edit (·.vary w) place).build (Builder.trees .empty config) site)

include hplace

/-- Children, one of which is changed at a place inside. -/
theorem buildAll_oneUpTo : ∀ (kids : List Node) (i : Nat) (site : Site) (position : Nat),
    OneUpTo drawnNodes fun w => buildAll (Builder.trees .empty config)
      (kids.modify i (edit (·.vary w) place)) site position
  | [], i, site, position => by
    simp only [List.modify_nil, buildAll]
    exact .nodes _
  | n :: rest, 0, site, position => by
    simp only [List.modify_zero_cons, buildAll, child_edit]
    refine .bind (Builder.child_oneUpTo (hplace n) site position n.self) fun nodes => ?_
    refine .bind (.nodes _) fun more => ?_
    exact .pure (nodes ++ more) fun _ => List.map_append.symm
  | n :: rest, i + 1, site, position => by
    simp only [List.modify_succ_cons, buildAll]
    refine .bind (.nodes _) fun nodes => ?_
    refine .bind (buildAll_oneUpTo rest i site (position + 1)) fun more => ?_
    exact .pure (nodes ++ more) fun _ => List.map_append.symm

/-- Slots, the content of one of which is changed at a place inside. -/
theorem fillSlots_oneUpTo (ns : String) (site : Site) (given : String → Value) :
    ∀ (contents : Members Node) (i : Nat), OneUpTo drawnNodes
      fun w => Rendered.fillSlots given (buildSlots (Builder.trees .empty config) ns site
        (contents.modify i fun c => (c.1, edit (·.vary w) place c.2)))
  | [], i => by
    simp only [List.modify_nil]
    exact .nodes _
  | (slot, n) :: rest, 0 => by
    simp only [List.modify_zero_cons, buildSlots, Rendered.fillSlots, Site.slotContent, place_edit]
    refine .bind (site.slotContent_oneUpTo (hplace n) ns slot n.self (given slot)) fun node => ?_
    refine .bind (.nodes _) fun more => ?_
    exact .pure (node.toList ++ more) fun w => drawn_toList_append w node more
  | (slot, n) :: rest, i + 1 => by
    simp only [List.modify_succ_cons, buildSlots, Rendered.fillSlots]
    refine .bind (.node _) fun node => ?_
    refine .bind (fillSlots_oneUpTo ns site given rest i) fun more => ?_
    exact .pure (node.toList ++ more) fun w => drawn_toList_append w node more

end

/-- **Building a schema** with one node shown or hidden. -/
theorem build_oneUpTo : ∀ (place : List Branch) (n : Node) (site : Site),
    OneUpTo drawnNode
      fun w => (n.edit (·.vary w) place).build (Builder.trees .empty config) site
  | [], mk d kids contents, site => by
    have hslots : ∀ ns given, OneUpTo drawnNodes fun _ => Rendered.fillSlots given
        (buildSlots (Builder.trees .empty config) ns site contents) := fun _ _ => .nodes _
    exact build_oneUpTo_of_parts true d (.content _) hslots fun _ => rfl
  | .child i :: rest, mk d kids contents, site => by
    have hslots : ∀ ns given, OneUpTo drawnNodes fun _ => Rendered.fillSlots given
        (buildSlots (Builder.trees .empty config) ns site contents) := fun _ _ => .nodes _
    refine build_oneUpTo_of_parts false d ?_ hslots fun _ => rfl
    cases kids with
    | none => exact .content _
    | some kids =>
      refine .bind (buildAll_oneUpTo (build_oneUpTo rest) kids i site 0) fun nodes => ?_
      exact .pure (.nodes nodes) fun _ => rfl
  | .slot i :: rest, mk d kids contents, site => by
    have hempty : ∀ w, (contents.modify i fun c => (c.1, edit (·.vary w) rest c.2)).isEmpty =
        contents.isEmpty := by
      intro w
      cases contents <;> cases i <;> rfl
    refine build_oneUpTo_of_parts false d (.content _) (fun ns given => ?_) hempty
    exact fillSlots_oneUpTo (build_oneUpTo rest) ns site given contents i

end Schema.Node

/-- **Building the root** with one node shown or hidden. -/
theorem Builder.root_oneUpTo (config : Config) (place : List Branch) (n : Node) :
    OneUpTo drawnNode fun w => (trees .empty config).root (n.edit (·.vary w) place) := by
  have hloop : ∀ w, (n.edit (·.vary w) place).self.loop = n.self.loop := by
    intro w
    rcases Node.self_edit place n w with h | h
    · rw [h]
    · rw [h]
      rfl
  simp only [root, hloop, Node.place_edit]
  split
  · exact .throw _
  · exact Site.root.place_oneUpTo (Node.build_oneUpTo place n) 0 n.self

end Trellis
