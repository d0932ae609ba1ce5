import Trellis.Proofs.Rendered.Listeners
import Trellis.Proofs.Schema.Grammar

/-!
# Marked trees

A tree with marks at some elements stands for all trees in which just these were changed. The change
is that of a node that is shown or not, under one reference or another.

* `Variant`: what a node may be changed to. `Schema.Directives.vary`, `Traits.vary` and
  `Element.vary` are the change to the node, to what it carries and to an element of it.
* `Rendered.Marked`, `Rendered.Marked.drawn`: trees with marks, and trees with the marked elements
  changed.
* `Element.vary_ofTraits`: an element that carries what was changed is a changed element.
-/

namespace Trellis

/-- Whether a node is shown, and what becomes of its reference. -/
structure Variant where
  shown : Bool
  reference : Option String → Option String

/-- Shown, under its own reference. -/
def Variant.plain : Variant := ⟨true, id⟩

/-- The node is shown or not whatever its bindings come to, and has another reference. -/
def Schema.Directives.vary (w : Variant) (d : Schema.Directives) : Schema.Directives :=
  { d with
    visible := ⟨some w.shown, none⟩
    reference := w.reference d.reference }

/-- What a node carries that is shown or not and has another reference. -/
def Traits.vary (w : Variant) (t : Traits) : Traits :=
  { t with
    style := if w.shown then t.style else Schema.hidden t.style
    reference := w.reference t.reference }

/-- The element of a node that is shown or not and has another reference: hiding takes every
`display` out of the style and adds one behind the other entries. -/
def Element.vary (w : Variant) (e : Element) : Element :=
  { e with
    style :=
      if w.shown then e.style
      else e.style.filter (fun m => m.1 ≠ "display") ++ [("display", .string "none")]
    reference := w.reference e.reference }

/-- The style of a hidden node: nothing but the entry for `display` is touched. -/
theorem Schema.hidden_eq (style : Members Value) : Schema.hidden style =
    style.filter (fun m => m.1 ≠ "display") ++ [("display", .string "none")] := by
  have hgone : "display" ∉ Members.names (Members.erase style "display") := by
    intro hmem
    obtain ⟨m, hm, hname⟩ := List.mem_map.1 hmem
    have hne := (List.mem_filter.1 hm).2
    simp [hname] at hne
  exact Members.assign_of_notMem hgone

example : Schema.hidden [("display", .string "block"), ("color", .string "red")] =
    [("color", .string "red"), ("display", .string "none")] := rfl

/-- **What a node carries** when it is shown or not. -/
theorem Schema.Directives.traits_vary {m : Type → Type} [Monad m] [LawfulMonad m]
    [MonadExcept Fault m] (value : Binding → m Value) (scope : ScopeId) (w : Variant)
    (d : Schema.Directives) : (d.vary w).traits value scope =
      Traits.vary w <$> (d.vary .plain).traits value scope := by
  have hshown : ∀ w : Variant, (d.vary w).visible.shown value = pure w.shown := by
    rintro ⟨shown, reference⟩
    cases shown <;> rfl
  unfold traits
  rw [hshown, hshown]
  simp only [pure_bind, map_bind, map_pure]
  rfl

namespace Element

variable (w : Variant)

theorem vary_listenAll (ls : Members Listener) (e : Element) :
    (e.listenAll ls).vary w = (e.vary w).listenAll ls :=
  (List.foldl_hom (Element.vary w) fun _ _ => rfl).symm

theorem vary_reflect (e : Element) : (e.vary w).reflect = e.reflect.vary w := by
  have hprops : (e.vary w).domProps = e.domProps := rfl
  unfold reflect
  rw [hprops]
  split <;> rfl

/-- **An element that carries** what was changed. -/
theorem vary_ofTraits (tag : String) (t : Traits) :
    ofTraits tag (t.vary w) = (ofTraits tag t).vary w := by
  unfold ofTraits
  rw [vary_listenAll, vary_listenAll]
  unfold Traits.vary
  rw [Schema.hidden_eq]
  rfl

end Element

namespace Rendered

/-- A tree in which elements may be marked. -/
inductive Marked where
  | mk (marked : Bool) (self : Element) (children : List Marked)

namespace Marked

mutual

/-- The tree with its marked elements changed. -/
def drawn (w : Variant) : Marked → Rendered
  | mk marked e kids => .mk (if marked then e.vary w else e) (drawnAll w kids)

/-- Trees with their marked elements changed. -/
def drawnAll (w : Variant) : List Marked → List Rendered
  | [] => []
  | n :: rest => drawn w n :: drawnAll w rest

end

mutual

/-- The tree without any mark. -/
def unmarked : Rendered → Marked
  | .mk e kids => mk false e (allUnmarked kids)

/-- Trees without any mark. -/
def allUnmarked : List Rendered → List Marked
  | [] => []
  | n :: rest => unmarked n :: allUnmarked rest

end

/-- An element with some content, marked or not. -/
def withContent (marked : Bool) (e : Element) : Content Marked → Marked
  | .none => mk marked e.reflect []
  | .text s => mk marked { e with text := some s } []
  | .markup s => mk marked { e with markup := some s } []
  | .nodes kids => mk marked e kids

variable (w : Variant)

theorem drawnAll_eq (ns : List Marked) : drawnAll w ns = ns.map (drawn w) := by
  induction ns with
  | nil => rfl
  | cons n ns ih => rw [drawnAll, List.map_cons, ih]

mutual

/-- Nothing is changed where nothing is marked. -/
theorem drawn_unmarked : ∀ n : Rendered, drawn w (unmarked n) = n
  | .mk e kids => by
    rw [unmarked, drawn, drawnAll_allUnmarked kids]
    rfl

theorem drawnAll_allUnmarked : ∀ ns : List Rendered, drawnAll w (allUnmarked ns) = ns
  | [] => rfl
  | n :: rest => by rw [allUnmarked, drawnAll, drawn_unmarked n, drawnAll_allUnmarked rest]

end

mutual

/-- **Which elements are marked** can be told from the trees that are drawn: under another reference
the marked elements differ, and no others. -/
theorem drawn_inj : ∀ {m n : Marked}, (∀ w, drawn w m = drawn w n) → m = n
  | mk marked e kids, mk marked' e' kids', h => by
    have hparts : ∀ w, (if marked then e.vary w else e) = (if marked' then e'.vary w else e') ∧
        drawnAll w kids = drawnAll w kids' := fun w => Rendered.mk.inj (h w)
    have hkids : kids = kids' := drawnAll_inj fun w => (hparts w).2
    have hplain : ∀ (b : Bool) (k : Element), (if b then k.vary .plain else k) = k := by
      intro b k
      cases b <;> rfl
    have hself : e = e' := by
      have hdrawn := (hparts .plain).1
      rwa [hplain, hplain] at hdrawn
    subst hself
    -- any reference is exchanged for another one
    have hother : ∀ r : Option String, (if r = none then some "" else none) ≠ r := by
      intro r
      cases r with
      | none => exact nofun
      | some s => exact nofun
    have hchanged := congrArg Element.reference
      (hparts ⟨true, fun r => if r = none then some "" else none⟩).1
    have hmarks : marked = marked' := by
      cases marked with
      | false =>
        cases marked' with
        | false => rfl
        | true => exact absurd hchanged.symm (hother e.reference)
      | true =>
        cases marked' with
        | false => exact absurd hchanged (hother e.reference)
        | true => rfl
    rw [hmarks, hkids]

theorem drawnAll_inj : ∀ {ms ns : List Marked}, (∀ w, drawnAll w ms = drawnAll w ns) → ms = ns
  | [], [], _ => rfl
  | [], n :: ns, h => nomatch h .plain
  | m :: ms, [], h => nomatch h .plain
  | m :: ms, n :: ns, h => by
    have hfirst : m = n := drawn_inj fun w => (List.cons.inj (h w)).1
    have hrest : ms = ns := drawnAll_inj fun w => (List.cons.inj (h w)).2
    rw [hfirst, hrest]

end

theorem content_unmarked (content : Content Rendered) :
    (content.map unmarked).map (drawn w) = content := by
  cases content with
  | nodes ns =>
    refine congrArg Content.nodes ?_
    rw [List.map_map]
    exact (List.map_congr_left fun n _ => drawn_unmarked w n).trans ns.map_id
  | none | text _ | markup _ => rfl

/-- **A marked element** is drawn as one that carries what was changed. -/
theorem drawn_withContent (marked : Bool) (tag : String) (t : Traits) (content : Content Marked) :
    drawn w (withContent marked (.ofTraits tag t) content) =
      element tag (if marked then t.vary w else t) (content.map (drawn w)) := by
  have hself : ∀ e : Element, (if marked then e.vary w else e).reflect =
      if marked then e.reflect.vary w else e.reflect := by
    intro e
    cases marked
    · rfl
    · exact e.vary_reflect w
  have hcarries : Element.ofTraits tag (if marked then t.vary w else t) =
      if marked then (Element.ofTraits tag t).vary w else .ofTraits tag t := by
    cases marked
    · rfl
    · exact Element.vary_ofTraits w tag t
  unfold element
  rw [hcarries]
  cases content with
  | none =>
    rw [Content.map, Rendered.withContent, hself]
    rfl
  | nodes kids =>
    rw [Content.map, Rendered.withContent, ← drawnAll_eq]
    rfl
  | text s | markup s =>
    cases marked <;> rfl

/-- Content with further nodes behind it is drawn part by part. -/
theorem exists_appended (slotted : List Marked) (content : Content Marked) :
    ∃ both : Content Marked, ∀ w, appended (slotted.map (drawn w)) (content.map (drawn w)) =
      both.map (drawn w) := by
  cases slotted with
  | nil =>
    refine ⟨content, fun w => ?_⟩
    cases content with
    | nodes kids => exact congrArg Content.nodes (List.append_nil _)
    | none | text _ | markup _ => rfl
  | cons n rest =>
    cases content with
    | nodes kids =>
      exact ⟨.nodes (kids ++ n :: rest), fun w => congrArg Content.nodes List.map_append.symm⟩
    | none | text _ | markup _ => exact ⟨.nodes (n :: rest), fun w => rfl⟩

end Marked

end Rendered

end Trellis
