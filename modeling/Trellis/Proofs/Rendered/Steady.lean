import Trellis.Proofs.Build.Renderers
import Trellis.Proofs.Build.Together
import Trellis.Rendered.Samples

/-!
# The renderer of plain trees is steady

Of the same it makes the same tree, up to functions and the scopes of listeners, if the components
it may use do. The sample components do.

* `Rendered.Component.Steady`: such components.
* `Rendered.trees_steady`: the renderer.
* `Rendered.samples_steady`: the sample components.
-/

namespace Trellis

open Schema Session Act Value

namespace Tandem

/-- Trees that are alike, in sessions that have gone some ways. -/
abbrev LikeTrees (c : Tandem) (P : Pairs) : Rendered → Rendered → Prop :=
  Rendered.Like (c.fellows P) P.Scopes

variable {c : Tandem} {P P' : Pairs} {w : Way} {i : ScopeId} {slots slots' : Slots Rendered}

theorem likeTrees_mono (hc : c.Fair) (h : P ≤ P') (n n' : Rendered) (hn : c.LikeTrees P n n') :
    c.LikeTrees P' n n' :=
  hn.mono (hc.mono (Pairs.scopes_mono h)) (Pairs.scopes_mono h)

theorem SlotsTogether.mono (h : c.SlotsTogether P w i c.LikeTrees slots slots') (hP : P ≤ P') :
    c.SlotsTogether P' w i c.LikeTrees slots slots' :=
  h.imp fun _ _ he => ⟨he.1, he.2.keeps, fun P'' hP' => he.2.together P'' (le_trans hP hP')⟩

theorem SlotsTogether.keeps (h : c.SlotsTogether P w i c.LikeTrees slots slots') :
    ∀ slot ∈ slots, ∀ given, Keeps (c.Onward w i) (slot.2 given) := by
  induction h with
  | nil => exact nofun
  | cons he _ ih =>
    intro slot hslot
    rcases List.mem_cons.1 hslot with rfl | hslot
    · exact he.2.keeps
    · exact ih slot hslot

end Tandem

/-- A component that makes trees alike of what is alike. -/
def Rendered.Component.Steady (make : Rendered.Component) : Prop :=
  ∀ (c : Tandem), c.Fair → ∀ (P : Tandem.Pairs) w i j, P w i j → ∀ name traits traits',
    traits.Like (c.fellows P) P.Scopes traits' →
    ∀ slots slots', c.SlotsTogether P w i c.LikeTrees slots slots' →
    ∀ content content', content.Like (c.LikeTrees P) content' →
    c.Together P c.LikeTrees (make name ⟨traits, slots⟩ content) (make name ⟨traits', slots'⟩ content')

namespace Rendered

open Tandem

variable {c : Tandem} {P : Pairs} {w : Way} {i j : ScopeId} {slots slots' : Slots Rendered}

theorem toList_like {R : Rendered → Rendered → Prop} {x y : Option Rendered} (h : Option.Rel R x y) :
    List.Forall₂ R x.toList y.toList := by
  cases h with
  | none => exact .nil
  | some h => exact .cons h .nil

/-- **Asking every slot** once. -/
theorem fillSlots_together (hc : c.Fair) {given : String → Value} (hgiven : ∀ s, c.Shared (given s))
    (h : c.SlotsTogether P w i c.LikeTrees slots slots') (hP : P w i j) :
    c.Together P (fun P => List.Forall₂ (c.LikeTrees P)) (fillSlots given slots)
      (fillSlots given slots') := by
  induction slots generalizing slots' P with
  | nil =>
    cases h
    exact .pure .nil
  | cons e slots ih =>
    obtain - | ⟨he, hs⟩ := h
    rename_i e' slots'
    obtain ⟨slot, build⟩ := e
    obtain ⟨slot', build'⟩ := e'
    obtain ⟨hslot, hbuild⟩ := he
    simp only at hslot hbuild
    subst hslot
    have hrest := fillSlots_keeps given slots (SlotsTogether.keeps hs)
    rw [fillSlots, fillSlots]
    refine Together.bind hP (hbuild.together P (le_refl P) _ _ (hgiven slot P))
      (hbuild.keeps _) (fun _ => Keeps.bind hrest fun _ => Keeps.pure _) fun P' hPP x y hxy => ?_
    refine Together.bind (hPP _ _ _ hP) (ih (SlotsTogether.mono hs hPP) (hPP _ _ _ hP)) hrest
      (fun _ => Keeps.pure _) fun P'' hPP' ns ns' hns => .pure ?_
    exact List.rel_append ((toList_like hxy).imp (likeTrees_mono hc hPP')) hns

/-- **Asking the default slot** for values that are alike. -/
theorem askDefault_together (hc : c.Fair) {asked asked' : List Value}
    (h : c.SlotsTogether P w i c.LikeTrees slots slots') (hP : P w i j)
    (hasked : List.Forall₂ (Alike (c.fellows P)) asked asked') :
    c.Together P (fun P => List.Forall₂ (c.LikeTrees P)) (askDefault slots asked)
      (askDefault slots' asked') := by
  induction asked generalizing asked' P with
  | nil =>
    cases hasked
    exact .pure .nil
  | cons given rest ih =>
    obtain - | ⟨hgiven, hrest⟩ := hasked
    rename_i given' rest'
    have hkeeps := askDefault_keeps h.keeps rest
    rw [askDefault, askDefault]
    have hget := Members.get?_rel h "default"
    generalize Members.get? slots "default" = x at hget
    generalize Members.get? slots' "default" = y at hget
    cases hget with
    | none => exact .pure .nil
    | some hbuild =>
      refine Together.bind hP (hbuild.together P (le_refl P) _ _ hgiven) (hbuild.keeps _)
        (fun _ => Keeps.bind hkeeps fun _ => Keeps.pure _) fun P' hPP x y hxy => ?_
      have hrest' := hrest.imp fun _ _ h => h.mono (hc.mono (Pairs.scopes_mono hPP))
      refine Together.bind (hPP _ _ _ hP) (ih (SlotsTogether.mono h hPP) (hPP _ _ _ hP) hrest') hkeeps
        (fun _ => Keeps.pure _) fun P'' hPP' ns ns' hns => .pure ?_
      exact List.rel_append ((toList_like hxy).imp (likeTrees_mono hc hPP')) hns

theorem inlineProps_alike {F : Callable → Callable → Prop} {v w : Value} (h : Alike F v w)
    (slot : String) : Alike F (inlineProps v slot) (inlineProps w slot) := by
  have hprops := h.member? "slotProps"
  unfold inlineProps
  generalize v.member? "slotProps" = x at hprops
  generalize w.member? "slotProps" = y at hprops
  cases hprops with
  | none => exact .object .nil
  | some hp =>
    rw [Option.bind_some, Option.bind_some]
    have hgiven := hp.member? slot
    revert hgiven
    cases Value.member? _ slot <;> cases Value.member? _ slot <;> intro hgiven <;> cases hgiven
    · exact .object .nil
    · next hgiven => exact hgiven

theorem listenAll_like {F : Callable → Callable → Prop} {S : ScopeId → ScopeId → Prop}
    {ls ls' : Members Listener} (hls : Listener.LikeMembers S ls ls') {n n' : Rendered}
    (h : n.Like F S n') : (n.listenAll ls).Like F S (n'.listenAll ls') := by
  obtain ⟨he, hkids⟩ := h
  exact .mk (he.listenAll hls) hkids

/-! ### The sample components -/

variable {F : Callable → Callable → Prop} {S : ScopeId → ScopeId → Prop}

theorem box_like (tag : String) {kids kids' : List Rendered}
    (h : List.Forall₂ (Rendered.Like F S) kids kids') : (box tag kids).Like F S (box tag kids') :=
  .mk ⟨rfl, .none, rfl, rfl, .nil, .nil, .nil, .nil, rfl, rfl, .nil⟩ (likeAll_iff.2 h)

theorem isHeader_like {n n' : Rendered} (h : n.Like F S n') : isHeader n = isHeader n' := by
  obtain ⟨he, -⟩ := h
  have hslot := he.attrs.get? "slot"
  unfold isHeader
  simp only [self]
  generalize Members.get? _ "slot" = x at hslot ⊢
  generalize Members.get? _ "slot" = y at hslot ⊢
  cases hslot with
  | none => rfl
  | some hv => cases hv <;> rfl

theorem renamed_alike {m m' : Members Value} (h : AlikeMembers F m m') (name other : String) :
    AlikeMembers F (renamed m name other) (renamed m' name other) := by
  have hget := h.get? name
  unfold renamed
  generalize Members.get? m name = x at hget
  generalize Members.get? m' name = y at hget
  cases hget with
  | none => exact .nil
  | some hv => exact .cons other hv .nil

theorem labelled_steady : labelled.Steady := by
  intro c hc P w i j hP name traits traits' ht slots slots' hs content content' hcontent
  have hF := hc.faithful P.Scopes
  have hget := ht.props.get? "label"
  have hlabel : (((Members.get? traits.props "label").map Value.text).getD "") =
      (((Members.get? traits'.props "label").map Value.text).getD "") := by
    generalize Members.get? traits.props "label" = x at hget
    generalize Members.get? traits'.props "label" = y at hget
    cases hget with
    | none => rfl
    | some hv => exact hv.text_eq hF
  simp only [labelled]
  rw [hlabel]
  exact .pure (element_like hF "div" ht (.text _))

theorem layout_steady : layout.Steady := by
  intro c hc P w i j hP name traits traits' ht slots slots' hs content content' hcontent
  cases hcontent with
  | nodes h =>
    have hheader : ∀ p : Bool → Bool, List.Forall₂ (c.LikeTrees P) (List.filter (p ∘ isHeader) _)
        (List.filter (p ∘ isHeader) _) := fun p =>
      List.rel_filter (fun n n' hn => by simp only [Function.comp, isHeader_like hn]) h
    simp only [layout, List.partition_eq_filter_filter]
    exact .pure (box_like "section" (.cons (box_like "header" (hheader id)) (hheader not)))
  | none | text _ | markup _ => exact .pure (box_like "section" .nil)

theorem emitter_steady : emitter.Steady := by
  intro c hc P w i j hP name traits traits' ht slots slots' hs content content' hcontent
  have hbutton : ({ Element.plain "button" with text := some name } : Element).Like (c.fellows P)
      P.Scopes { Element.plain "button" with text := some name } :=
    ⟨rfl, .none, rfl, rfl, .nil, .nil, .nil, .nil, rfl, rfl, .nil⟩
  have hon := Members.get?_rel ht.on "click"
  simp only [emitter]
  generalize Members.get? traits.on "click" = x at hon ⊢
  generalize Members.get? traits'.on "click" = y at hon ⊢
  cases hon with
  | none => exact .pure (.mk hbutton .nil)
  | some hl => exact .pure (.mk (hbutton.listen "click" hl) .nil)

theorem panel_steady : panel.Steady := by
  intro c hc P w i j hP name traits traits' ht slots slots' hs content content' hcontent
  have hgiven : Alike (c.fellows P)
      (.object (renamed traits.props "data" "scopedData" ++ renamed traits.props "onEvent" "event"))
      (.object (renamed traits'.props "data" "scopedData" ++
        renamed traits'.props "onEvent" "event")) :=
    .object (.append (renamed_alike ht.props _ _) (renamed_alike ht.props _ _))
  exact Together.bind hP (askDefault_together hc hs hP (.cons hgiven .nil))
    (askDefault_keeps (SlotsTogether.keeps hs) _) (fun _ => Keeps.pure _)
    fun P' _ ns ns' hns => .pure (box_like "div" hns)

theorem pair_steady : pair.Steady := by
  intro c hc P w i j hP name traits traits' ht slots slots' hs content content' hcontent
  have hgiven : ∀ x : String, Alike (c.fellows P) (.object [("scopedData", .string x)])
      (.object [("scopedData", .string x)]) := fun x => .object (.cons _ (.string x) .nil)
  exact Together.bind hP (askDefault_together hc hs hP (.cons (hgiven "A") (.cons (hgiven "B") .nil)))
    (askDefault_keeps (SlotsTogether.keeps hs) _) (fun _ => Keeps.pure _)
    fun P' _ ns ns' hns => .pure (box_like "div" hns)

/-- **The sample components** are steady. -/
theorem samples_steady (name : String) (make : Component) (h : samples name = some make) :
    make.Steady := by
  have hmem := Members.mem_of_get? h
  simp only [List.mem_cons, Prod.mk.injEq, List.not_mem_nil, or_false] at hmem
  rcases hmem with ⟨-, rfl⟩ | ⟨-, rfl⟩ | ⟨-, rfl⟩ | ⟨-, rfl⟩ | ⟨-, rfl⟩
  · exact labelled_steady
  · exact layout_steady
  · exact emitter_steady
  · exact panel_steady
  · exact pair_steady

/-! ### The renderer -/

/-- **The renderer of plain trees** is steady if the components it may use are. -/
theorem trees_steady (hc : c.Fair) {known : Registry Component}
    (hlets : ∀ name make, known name = some make → make.Honest)
    (hsteady : ∀ name make, known name = some make → make.Steady) (config : Config) :
    c.Steady (Builder.trees known config) c.LikeTrees where
  lets w i := (honest hlets config) _
  mono h := likeTrees_mono hc h
  create := by
    intro P w i j hP comp hcomp traits traits' ht slots slots' hs content content' hcontent
    have hF := hc.faithful P.Scopes
    change c.Together P c.LikeTrees (create (known.resolve comp) ⟨traits, slots⟩ content)
      (create (known.resolve comp) ⟨traits', slots'⟩ content')
    cases comp with
    | inline definition =>
      have hgiven : ∀ slot, c.Shared (inlineProps definition slot) := fun slot P =>
        inlineProps_alike (hcomp definition rfl P) slot
      refine Together.bind hP (fillSlots_together hc hgiven hs hP) (fillSlots_keeps _ _ hs.keeps)
        (fun _ => Keeps.pure _) fun P' hPP slotted slotted' hslotted => .pure ?_
      have hmono := hc.mono (Pairs.scopes_mono hPP)
      exact element_like (hc.faithful _) _ (ht.mono hmono (Pairs.scopes_mono hPP))
        (appended_like hslotted (hcontent.mono (likeTrees_mono hc hPP)))
    | named name =>
      unfold Registry.resolve
      simp only
      cases hk : known name with
      | none => exact .pure (element_like hF name ht hcontent)
      | some make =>
        refine Together.bind hP (hsteady name make hk c hc P w i j hP name
          { traits with nativeOn := [] } { traits' with nativeOn := [] }
          { ht with nativeOn := .nil } slots slots' hs content content' hcontent)
          (hlets name make hk _ _ _ _ hs.keeps) (fun _ => Keeps.pure _) fun P' hPP n n' hn => .pure ?_
        exact listenAll_like (ht.mono (hc.mono (Pairs.scopes_mono hPP)) (Pairs.scopes_mono hPP)).nativeOn
          hn

end Rendered

end Trellis
