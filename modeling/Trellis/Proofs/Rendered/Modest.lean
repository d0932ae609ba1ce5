import Trellis.Proofs.Build.Quiet
import Trellis.Proofs.Build.Rebinding
import Trellis.Rendered.Samples

/-!
# Modest components

A component is modest if it hands listeners on without looking into them and reaches the scopes
through its slots alone, in which it puts no function. The sample components are modest, and with
modest components the renderer of plain trees makes nodes quietly.

* `Rendered.Component.Modest`: modest components.
* `Builder.trees_quiet`: the renderer of plain trees.
* `Rendered.samples_modest`: the sample components.
-/

namespace Trellis

open Value Act

namespace Rendered

/-- Out of what holds no function the component makes a tree quietly, if its slots build quietly. -/
def Component.Quiet (make : Component) : Prop :=
  ∀ (name : String) (traits : Traits) (slots : Slots Rendered) (content : Content Rendered),
    traits.Plain → slots.Quiet → Act.Quiet (fun _ => True) (make name ⟨traits, slots⟩ content)

/-- A component that looks into no listener and reaches the scopes through its slots alone. -/
structure Component.Modest (make : Component) : Prop where
  blind : make.Blind
  quiet : make.Quiet

theorem fillSlots_quiet {given : String → Value} (hgiven : ∀ slot, (given slot).Plain) :
    ∀ {slots : Slots Rendered}, slots.Quiet → Act.Quiet (fun _ => True) (fillSlots given slots)
  | [], _ => .pure trivial
  | (slot, build) :: rest, h => by
    obtain ⟨hbuild, hrest⟩ := List.forall_mem_cons.1 h
    rw [fillSlots]
    refine (hbuild (given slot) (hgiven slot)).bind fun _ _ => ?_
    exact (fillSlots_quiet hgiven hrest).bind fun _ _ => .pure trivial

theorem inlineProps_plain {definition : Value} (h : definition.Plain) (slot : String) :
    (inlineProps definition slot).Plain := by
  unfold inlineProps
  cases hprops : definition.member? "slotProps" with
  | none => trivial
  | some props =>
    rw [Option.bind_some]
    cases hgiven : props.member? slot with
    | none => trivial
    | some given => exact (h.member? hprops).member? hgiven

/-- **The renderer of plain trees** makes nodes quietly if the components it may use do. -/
theorem create_quiet {known : Registry Component}
    (h : ∀ name make, known name = some make → make.Quiet) {c : Schema.Component}
    (hc : ∀ definition, c = .inline definition → definition.Plain) {traits : Traits}
    (ht : traits.Plain) {slots : Slots Rendered} (hs : slots.Quiet) (content : Content Rendered) :
    Act.Quiet (fun _ => True) (create (known.resolve c) ⟨traits, slots⟩ content) := by
  cases c with
  | inline definition =>
    exact (fillSlots_quiet (inlineProps_plain (hc definition rfl)) hs).bind fun _ _ => .pure trivial
  | named name =>
    unfold Registry.resolve
    simp only
    cases hk : known name with
    | none => exact .pure trivial
    | some make =>
      have hmake := h name make hk name { traits with nativeOn := [] } slots content { ht with } hs
      exact hmake.bind fun _ _ => .pure trivial

end Rendered

theorem Builder.trees_quiet {known : Registry Rendered.Component} {config : Config}
    (hoff : config.expressions = false)
    (h : ∀ name make, known name = some make → make.Quiet) : (trees known config).Quiet where
  off := hoff
  create _ _ _ content hc ht hs := Rendered.create_quiet h hc ht hs content

/-! ### The sample components -/

namespace Rendered

variable {φ : Listener → Listener} {slots : Slots Rendered}

theorem self_mapListeners (n : Rendered) : (n.mapListeners φ).self = n.self.mapListeners φ := by
  obtain ⟨e, kids⟩ := n
  rfl

theorem isHeader_mapListeners (n : Rendered) : isHeader (n.mapListeners φ) = isHeader n := by
  unfold isHeader
  rw [self_mapListeners]
  rfl

theorem mapListeners_box (tag : String) (kids : List Rendered) :
    (box tag kids).mapListeners φ = box tag (kids.map (mapListeners φ)) :=
  congrArg (mk _) (mapAll_eq kids)

theorem askDefault_map (asked : List Value) :
    askDefault (slots.map (mapListeners φ)) asked =
      List.map (mapListeners φ) <$> askDefault slots asked := by
  have hget : Members.get? (slots.map (mapListeners φ)) "default" =
      (Members.get? slots "default").map fun build given =>
        Option.map (mapListeners φ) <$> build given :=
    Members.get?_mapValues _ slots "default"
  induction asked with
  | nil => rw [askDefault, askDefault, map_pure, List.map_nil]
  | cons given rest ih =>
    rw [askDefault, askDefault, hget, ih]
    cases Members.get? slots "default" with
    | none => simp only [Option.map_none, map_pure, List.map_nil]
    | some build =>
      simp only [Option.map_some, map_bind, bind_map_left, map_pure, List.map_append]
      refine bind_congr fun node => bind_congr fun more => ?_
      cases node <;> rfl

theorem askDefault_quiet (h : slots.Quiet) {asked : List Value} (hasked : ∀ v ∈ asked, v.Plain) :
    Act.Quiet (fun _ => True) (askDefault slots asked) := by
  induction asked with
  | nil => exact .pure trivial
  | cons given rest ih =>
    obtain ⟨hgiven, hrest⟩ := List.forall_mem_cons.1 hasked
    rw [askDefault]
    cases hs : Members.get? slots "default" with
    | none => exact .pure trivial
    | some build =>
      refine (h _ (Members.mem_of_get? hs) given hgiven).bind fun _ _ => ?_
      exact (ih hrest).bind fun _ _ => .pure trivial

theorem renamed_plain {props : Members Value} (h : PlainMembers props) (name other : String) :
    PlainMembers (renamed props name other) := by
  unfold renamed
  cases hp : Members.get? props name with
  | none => trivial
  | some v => exact ⟨h.get? hp, trivial⟩

theorem labelled_modest : labelled.Modest where
  blind φ _ traits _ _ := by
    simp only [labelled, map_pure, mapListeners_element]
    rfl
  quiet _ _ _ _ _ _ := .pure trivial

theorem layout_modest : layout.Modest where
  blind φ _ traits slots content := by
    cases content with
    | nodes kids =>
      -- a child goes to the header or to the body as it would with its own listeners
      have hheader : isHeader ∘ mapListeners φ = isHeader := funext isHeader_mapListeners
      have hpart : (kids.map (mapListeners φ)).partition isHeader =
          ((kids.partition isHeader).1.map (mapListeners φ),
            (kids.partition isHeader).2.map (mapListeners φ)) := by
        rw [List.partition_eq_filter_filter, List.partition_eq_filter_filter, List.filter_map,
          List.filter_map, Function.comp_assoc, hheader]
      simp only [layout, Content.map, hpart, map_pure, mapListeners_box, List.map_cons]
    | none | text _ | markup _ =>
      simp only [layout, Content.map, map_pure, mapListeners_box, List.map_nil]
  quiet _ _ _ content _ _ := by
    cases content <;> exact .pure trivial

theorem emitter_modest : emitter.Modest where
  blind φ name traits slots content := by
    have hon : Members.get? (traits.mapListeners φ).on "click" =
        (Members.get? traits.on "click").map φ := Members.get?_mapValues φ traits.on "click"
    simp only [emitter, hon]
    cases Members.get? traits.on "click" with
    | none => rfl
    | some l =>
      let button : Element := { Element.plain "button" with text := some name }
      have hlisten := button.mapListeners_listen (φ := φ) "click" l
      exact congrArg (fun e => pure (mk e [])) hlisten.symm
  quiet _ traits _ _ _ _ := by
    unfold emitter
    simp only
    split <;> exact .pure trivial

theorem panel_modest : panel.Modest where
  blind φ _ traits slots _ := by
    simp only [panel, askDefault_map, bind_map_left, map_bind, map_pure, mapListeners_box]
    rfl
  quiet _ traits slots _ ht hs := by
    have hgiven : ∀ v ∈ [Value.object (renamed traits.props "data" "scopedData" ++
        renamed traits.props "onEvent" "event")], v.Plain := by
      rw [List.forall_mem_singleton]
      exact (renamed_plain ht.props _ _).append (renamed_plain ht.props _ _)
    exact (askDefault_quiet hs hgiven).bind fun _ _ => .pure trivial

theorem pair_modest : pair.Modest where
  blind φ _ traits slots _ := by
    simp only [pair, askDefault_map, bind_map_left, map_bind, map_pure, mapListeners_box]
  quiet _ _ _ _ _ hs := by
    refine (askDefault_quiet hs fun v hv => ?_).bind fun _ _ => .pure trivial
    obtain ⟨s, -, rfl⟩ := List.mem_map.1 hv
    exact ⟨trivial, trivial⟩

/-- **The sample components** are modest. -/
theorem samples_modest (name : String) (make : Component) (h : samples name = some make) :
    make.Modest := by
  have hmem := Members.mem_of_get? h
  simp only [List.mem_cons, Prod.mk.injEq, List.not_mem_nil, or_false] at hmem
  rcases hmem with ⟨-, rfl⟩ | ⟨-, rfl⟩ | ⟨-, rfl⟩ | ⟨-, rfl⟩ | ⟨-, rfl⟩
  · exact labelled_modest
  · exact layout_modest
  · exact emitter_modest
  · exact panel_modest
  · exact pair_modest

end Rendered

end Trellis
