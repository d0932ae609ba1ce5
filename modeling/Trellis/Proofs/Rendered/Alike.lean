import Trellis.Proofs.Rendered.Listeners
import Trellis.Proofs.Resolved.Alike

/-!
# Trees up to functions

Trees of one shape that differ in functions and in the scopes of listeners alone. What is made of
payloads and content that differ so differs so, and as a document it is the same.

* `Element.Like`, `Rendered.Like`: the relation.
* `Rendered.element_like`: making a tree.
* `Rendered.Like.toJson_eq`: trees as documents.
* `Rendered.Like.mapListeners`: trees with other listeners.
-/

namespace Trellis

open Value

variable {F : Callable → Callable → Prop} {S : ScopeId → ScopeId → Prop}

/-- Listeners of each event, in the same order. -/
abbrev Listener.LikeEvents (S : ScopeId → ScopeId → Prop) : Members (List Listener) →
    Members (List Listener) → Prop :=
  List.Forall₂ fun e e' => e.1 = e'.1 ∧ List.Forall₂ (Listener.Like S) e.2 e'.2

/-- Elements that differ in functions, which `F` relates, and in the scopes of listeners, which `S`
relates. -/
structure Element.Like (F : Callable → Callable → Prop) (S : ScopeId → ScopeId → Prop)
    (e e' : Element) : Prop where
  tag : e.tag = e'.tag
  key : Option.Rel (Alike F) e.key e'.key
  reference : e.reference = e'.reference
  classes : e.classes = e'.classes
  style : AlikeMembers F e.style e'.style
  attrs : AlikeMembers F e.attrs e'.attrs
  props : AlikeMembers F e.props e'.props
  domProps : AlikeMembers F e.domProps e'.domProps
  text : e.text = e'.text
  markup : e.markup = e'.markup
  listeners : Listener.LikeEvents S e.listeners e'.listeners

mutual

/-- Trees whose elements are alike. -/
inductive Rendered.Like (F : Callable → Callable → Prop) (S : ScopeId → ScopeId → Prop) :
    Rendered → Rendered → Prop
  | mk {e e' : Element} {kids kids' : List Rendered} (h : e.Like F S e')
    (hs : Rendered.LikeAll F S kids kids') : Rendered.Like F S (.mk e kids) (.mk e' kids')

/-- Trees that are alike one by one. -/
inductive Rendered.LikeAll (F : Callable → Callable → Prop) (S : ScopeId → ScopeId → Prop) :
    List Rendered → List Rendered → Prop
  | nil : Rendered.LikeAll F S [] []
  | cons {n n' : Rendered} {ns ns' : List Rendered} (h : Rendered.Like F S n n')
    (hs : Rendered.LikeAll F S ns ns') : Rendered.LikeAll F S (n :: ns) (n' :: ns')

end

/-! ### More related -/

section Mono

variable {F' : Callable → Callable → Prop} {S' : ScopeId → ScopeId → Prop}

theorem Listener.Like.mono (hS : ∀ i j, S i j → S' i j) {l l' : Listener} (h : l.Like S l') :
    l.Like S' l' :=
  ⟨h.event, h.handler, hS _ _ h.scope⟩

theorem Value.Alike.rel_mono (hF : ∀ f g, F f g → F' f g) {x y : Option Value}
    (h : Option.Rel (Alike F) x y) : Option.Rel (Alike F') x y := by
  cases h with
  | none => exact .none
  | some h => exact .some (h.mono hF)

theorem Traits.Like.mono (hF : ∀ f g, F f g → F' f g) (hS : ∀ i j, S i j → S' i j) {t t' : Traits}
    (h : t.Like F S t') : t.Like F' S' t' where
  classes := h.classes
  style := h.style.mono hF
  attrs := h.attrs.mono hF
  props := h.props.mono hF
  domProps := h.domProps.mono hF
  on := h.on.imp fun _ _ hl => ⟨hl.1, hl.2.mono hS⟩
  nativeOn := h.nativeOn.imp fun _ _ hl => ⟨hl.1, hl.2.mono hS⟩
  key := Alike.rel_mono hF h.key
  reference := h.reference
  refInFor := h.refInFor
  slot := h.slot

theorem Element.Like.mono (hF : ∀ f g, F f g → F' f g) (hS : ∀ i j, S i j → S' i j)
    {e e' : Element} (h : e.Like F S e') : e.Like F' S' e' where
  tag := h.tag
  key := Alike.rel_mono hF h.key
  reference := h.reference
  classes := h.classes
  style := h.style.mono hF
  attrs := h.attrs.mono hF
  props := h.props.mono hF
  domProps := h.domProps.mono hF
  text := h.text
  markup := h.markup
  listeners := h.listeners.imp fun _ _ hl => ⟨hl.1, hl.2.imp fun _ _ h => h.mono hS⟩

mutual

theorem Rendered.Like.mono (hF : ∀ f g, F f g → F' f g) (hS : ∀ i j, S i j → S' i j) :
    ∀ {n n' : Rendered}, n.Like F S n' → n.Like F' S' n'
  | _, _, .mk h hs => .mk (h.mono hF hS) (hs.mono hF hS)

theorem Rendered.LikeAll.mono (hF : ∀ f g, F f g → F' f g) (hS : ∀ i j, S i j → S' i j) :
    ∀ {ns ns' : List Rendered}, LikeAll F S ns ns' → LikeAll F' S' ns ns'
  | _, _, .nil => .nil
  | _, _, .cons h hs => .cons (h.mono hF hS) (hs.mono hF hS)

end

end Mono

theorem Rendered.likeAll_iff {ns ns' : List Rendered} :
    LikeAll F S ns ns' ↔ List.Forall₂ (Rendered.Like F S) ns ns' := by
  constructor
  · intro h
    induction ns generalizing ns' with
    | nil => cases h; exact .nil
    | cons n ns ih =>
      cases h with
      | cons h hs => exact .cons h (ih hs)
  · intro h
    induction h with
    | nil => exact .nil
    | cons h _ ih => exact .cons h ih

/-! ### Making trees -/

namespace Listener

theorem LikeEvents.get? {m m' : Members (List Listener)} (h : LikeEvents S m m') (name : String) :
    List.Forall₂ (Like S) ((Members.get? m name).getD []) ((Members.get? m' name).getD []) := by
  have hget := Members.get?_rel h name
  generalize Members.get? m name = x at hget
  generalize Members.get? m' name = y at hget
  cases hget with
  | none => exact .nil
  | some hls => exact hls

theorem LikeEvents.assign {m m' : Members (List Listener)} (h : LikeEvents S m m') (name : String)
    {ls ls' : List Listener} (hls : List.Forall₂ (Like S) ls ls') :
    LikeEvents S (Members.assign m name ls) (Members.assign m' name ls') := by
  induction h with
  | nil => exact .cons ⟨rfl, hls⟩ .nil
  | @cons e e' m m' he hm ih =>
    obtain ⟨k, ls⟩ := e
    obtain ⟨k', ls'⟩ := e'
    obtain ⟨hk, hls'⟩ := he
    simp only at hk hls'
    subst hk
    rw [Members.assign_cons, Members.assign_cons]
    split
    · exact .cons ⟨rfl, hls⟩ hm
    · exact .cons ⟨rfl, hls'⟩ ih

end Listener

namespace Element

theorem Like.listen {e e' : Element} (h : e.Like F S e') (event : String) {l l' : Listener}
    (hl : l.Like S l') : (e.listen event l).Like F S (e'.listen event l') :=
  { h with
    listeners := h.listeners.assign event
      (List.rel_append (h.listeners.get? event) (.cons hl .nil)) }

theorem Like.listenAll {ls ls' : Members Listener} (hls : Listener.LikeMembers S ls ls') :
    ∀ {e e' : Element}, e.Like F S e' → (e.listenAll ls).Like F S (e'.listenAll ls') := by
  induction hls with
  | nil => exact fun h => h
  | @cons l l' ls ls' hl _ ih =>
    intro e e' h
    obtain ⟨event, l⟩ := l
    obtain ⟨event', l'⟩ := l'
    obtain ⟨hevent, hl⟩ := hl
    simp only at hevent hl
    subst hevent
    exact ih (h.listen event hl)

theorem ofTraits_like (tag : String) {t t' : Traits} (h : t.Like F S t') :
    (ofTraits tag t).Like F S (ofTraits tag t') := by
  refine Like.listenAll h.nativeOn (Like.listenAll h.on ?_)
  exact ⟨rfl, h.key, h.reference, by rw [h.classes], h.style, h.attrs, h.props, h.domProps, rfl,
    rfl, .nil⟩

theorem Like.reflect (hF : Faithful F) {e e' : Element} (h : e.Like F S e') :
    e.reflect.Like F S e'.reflect := by
  have hhtml := h.domProps.get? "innerHTML"
  have htext := h.domProps.get? "textContent"
  unfold Element.reflect
  generalize Members.get? e.domProps "innerHTML" = x at hhtml
  generalize Members.get? e'.domProps "innerHTML" = x' at hhtml
  generalize Members.get? e.domProps "textContent" = y at htext
  generalize Members.get? e'.domProps "textContent" = y' at htext
  cases hhtml with
  | some hv => exact { h with markup := congrArg some (hv.text_eq hF) }
  | none =>
    cases htext with
    | some hv => exact { h with text := congrArg some (hv.text_eq hF) }
    | none => exact h

end Element

namespace Rendered

/-- **Making a tree** of what is alike. -/
theorem element_like (hF : Faithful F) (tag : String) {t t' : Traits} (h : t.Like F S t')
    {c c' : Content Rendered} (hc : c.Like (Rendered.Like F S) c') :
    (element tag t c).Like F S (element tag t' c') := by
  have he := Element.ofTraits_like tag h
  cases hc with
  | none => exact .mk (he.reflect hF) .nil
  | text s => exact .mk { he with text := rfl } .nil
  | markup s => exact .mk { he with markup := rfl } .nil
  | nodes hs => exact .mk he (likeAll_iff.2 hs)

theorem appended_like {R : Rendered → Rendered → Prop} {ns ns' : List Rendered}
    (h : List.Forall₂ R ns ns') {c c' : Content Rendered} (hc : c.Like R c') :
    (appended ns c).Like R (appended ns' c') := by
  cases hc with
  | nodes hs => exact .nodes (List.rel_append hs h)
  | none =>
    cases h with
    | nil => exact .none
    | cons h hs => exact .nodes (.cons h hs)
  | text s =>
    cases h with
    | nil => exact .text s
    | cons h hs => exact .nodes (.cons h hs)
  | markup s =>
    cases h with
    | nil => exact .markup s
    | cons h hs => exact .nodes (.cons h hs)

/-! ### Trees as documents -/

theorem valueField_alike (name : String) {m m' : Members Value} (h : AlikeMembers F m m') :
    valueField name m = valueField name m' := by
  have hj := (Alike.object h).toJson_eq
  unfold valueField
  rw [hj]
  cases h <;> rfl

theorem events_eq {e e' : Element} (h : e.Like F S e') : e.events = e'.events := by
  have hl := h.listeners
  unfold Element.events Members.names
  generalize e.listeners = m at hl
  generalize e'.listeners = m' at hl
  induction hl with
  | nil => rfl
  | cons he _ ih => rw [List.map_cons, List.map_cons, he.1, ih]

mutual

/-- **As a document** a tree shows neither functions nor listeners. -/
theorem Like.toJson_eq : ∀ {n n' : Rendered}, n.Like F S n' → n.toJson = n'.toJson
  | .mk e kids, .mk e' kids', .mk h hs => by
    have hkey : e.key.map Value.toJson = e'.key.map Value.toJson := by
      have hk := h.key
      revert hk
      cases e.key <;> cases e'.key <;> intro hk <;> cases hk
      · rfl
      · next hk => exact congrArg some hk.toJson_eq
    rw [toJson, toJson, hs.jsonTrees_eq]
    unfold elementMembers
    rw [h.tag, hkey, h.reference, h.classes, valueField_alike "style" h.style,
      valueField_alike "attrs" h.attrs, valueField_alike "props" h.props,
      valueField_alike "domProps" h.domProps, h.text, h.markup, events_eq h]

theorem LikeAll.jsonTrees_eq : ∀ {ns ns' : List Rendered}, LikeAll F S ns ns' →
    jsonTrees ns = jsonTrees ns'
  | _, _, .nil => rfl
  | _, _, .cons h hs => by rw [jsonTrees, jsonTrees, h.toJson_eq, hs.jsonTrees_eq]

end

/-! ### Other listeners -/

section MapListeners

variable {S' : ScopeId → ScopeId → Prop} {φ : Listener → Listener}

theorem mapElement_like (h : ∀ l l' : Listener, l.Like S l' → (φ l).Like S' (φ l'))
    {e e' : Element} (he : e.Like F S e') : (e.mapListeners φ).Like F S' (e'.mapListeners φ) := by
  have hlisteners : Listener.LikeEvents S' (e.listeners.mapValues (List.map φ))
      (e'.listeners.mapValues (List.map φ)) := by
    unfold Members.mapValues Listener.LikeEvents
    rw [List.forall₂_map_left_iff, List.forall₂_map_right_iff]
    refine he.listeners.imp fun x y hxy => ⟨hxy.1, ?_⟩
    rw [List.forall₂_map_left_iff, List.forall₂_map_right_iff]
    exact hxy.2.imp fun l l' => h l l'
  exact { he with listeners := hlisteners }

mutual

/-- Trees that are alike stay so with other listeners. -/
theorem Like.mapListeners (h : ∀ l l' : Listener, l.Like S l' → (φ l).Like S' (φ l')) :
    ∀ {n n' : Rendered}, n.Like F S n' → (n.mapListeners φ).Like F S' (n'.mapListeners φ)
  | _, _, .mk he hs => .mk (mapElement_like h he) (LikeAll.mapListeners h hs)

theorem LikeAll.mapListeners (h : ∀ l l' : Listener, l.Like S l' → (φ l).Like S' (φ l')) :
    ∀ {ns ns' : List Rendered}, LikeAll F S ns ns' → LikeAll F S' (mapAll φ ns) (mapAll φ ns')
  | _, _, .nil => .nil
  | _, _, .cons hn hs => .cons (Like.mapListeners h hn) (LikeAll.mapListeners h hs)

end

end MapListeners

/-! ### The same trees -/

theorem Listener.Like.eq {l l' : Listener} (h : l.Like Eq l') : l = l' := by
  obtain ⟨event, handler, scope⟩ := l
  obtain ⟨event', handler', scope'⟩ := l'
  obtain ⟨rfl, rfl, rfl⟩ := h
  rfl

theorem Element.Like.eq {e e' : Element} (h : e.Like Eq Eq e') : e = e' := by
  have hlisteners : e.listeners = e'.listeners := by
    have hl := h.listeners
    generalize e.listeners = m at hl
    generalize e'.listeners = m' at hl
    induction hl with
    | nil => rfl
    | @cons x y m m' hxy _ ih =>
      have hls : x.2 = y.2 := by
        have hf := hxy.2.imp fun _ _ h => Listener.Like.eq h
        exact List.forall₂_eq_eq_eq ▸ hf
      rw [ih, show x = y from Prod.ext hxy.1 hls]
  have hkey : e.key = e'.key := by
    have hk := h.key
    revert hk
    cases e.key <;> cases e'.key <;> intro hk <;> cases hk
    · rfl
    · next hk => rw [hk.eq]
  have hstyle := h.style.eq
  have hattrs := h.attrs.eq
  have hprops := h.props.eq
  have hdom := h.domProps.eq
  obtain ⟨htag, -, hreference, hclasses, -, -, -, -, htext, hmarkup, -⟩ := h
  cases e
  cases e'
  simp only [Element.mk.injEq]
  exact ⟨htag, hkey, hreference, hclasses, hstyle, hattrs, hprops, hdom, htext, hmarkup, hlisteners⟩

mutual

theorem Like.eq : ∀ {n n' : Rendered}, n.Like Eq Eq n' → n = n'
  | _, _, .mk h hs => by rw [Element.Like.eq h, hs.eq]

theorem LikeAll.eq : ∀ {ns ns' : List Rendered}, LikeAll Eq Eq ns ns' → ns = ns'
  | _, _, .nil => rfl
  | _, _, .cons h hs => by rw [h.eq, hs.eq]

end

end Rendered

end Trellis
