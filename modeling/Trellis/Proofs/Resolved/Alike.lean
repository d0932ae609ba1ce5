import Trellis.Proofs.Schema.Plain
import Trellis.Proofs.Value.Alike
import Trellis.Resolved
import Mathlib.Data.List.Forall2

/-!
# Directives up to functions

If the bindings of a node stand for alike values in two places, the node comes to the same there up
to functions, and its listeners differ in their scopes alone.

* `Traits.Like`, `Listener.Like`: what nodes carry, up to functions and scopes.
* `Content.Like`: content with related nodes.
* `Schema.Directives.traits_agree`: what a node carries; `present_agree` and `ownContent_agree`: the
  rest of it.
-/

namespace Trellis

open Value Act

/-! ### Classes -/

namespace ClassList

variable {F : Callable → Callable → Prop}

mutual

/-- Classes do not depend on functions. -/
theorem merge_alike (classes : ClassList) : ∀ {v w : Value}, Alike F v w →
    merge classes v = merge classes w
  | _, _, .null | _, _, .bool _ | _, _, .number _ | _, _, .string _ => rfl
  | _, _, .function _ => by simp only [merge]
  | _, _, .array hs => by rw [merge, merge, mergeItems_alike classes hs]
  | _, _, .object hs => by rw [merge, merge, mergeMembers_alike classes hs]

theorem mergeItems_alike (classes : ClassList) : ∀ {vs ws : List Value}, AlikeItems F vs ws →
    mergeItems classes vs = mergeItems classes ws
  | _, _, .nil => rfl
  | _, _, .cons h hs => by
    rw [mergeItems, mergeItems, merge_alike classes h, mergeItems_alike _ hs]

theorem mergeMembers_alike (classes : ClassList) : ∀ {m n : List (String × Value)},
    AlikeMembers F m n →
    m.foldl (fun acc e => Members.assign acc e.1 e.2.truthy) classes =
      n.foldl (fun acc e => Members.assign acc e.1 e.2.truthy) classes
  | _, _, .nil => rfl
  | _, _, .cons name h hs => by
    rw [List.foldl_cons, List.foldl_cons, h.truthy_eq, mergeMembers_alike _ hs]

end

end ClassList

theorem Value.AlikeMembers.erase {F : Callable → Callable → Prop} (name : String) :
    ∀ {m n : List (String × Value)}, AlikeMembers F m n →
      AlikeMembers F (Members.erase m name) (Members.erase n name)
  | _, _, .nil => .nil
  | _, _, .cons key h hs => by
    unfold Members.erase
    rw [List.filter_cons, List.filter_cons]
    split
    · exact .cons key h (hs.erase name)
    · exact hs.erase name

theorem Value.AlikeMembers.append {F : Callable → Callable → Prop} {p q : List (String × Value)}
    (h' : AlikeMembers F p q) : ∀ {m n : List (String × Value)}, AlikeMembers F m n →
      AlikeMembers F (m ++ p) (n ++ q)
  | _, _, .nil => h'
  | _, _, .cons key h hs => .cons key h (AlikeMembers.append h' hs)

/-- Looking up a name among members of the same names. -/
theorem Members.get?_rel {α β : Type} {R : α → β → Prop} {m : Members α} {n : Members β}
    (h : List.Forall₂ (fun e e' => e.1 = e'.1 ∧ R e.2 e'.2) m n) (name : String) :
    Option.Rel R (m.get? name) (n.get? name) := by
  induction h with
  | nil => exact .none
  | @cons e e' m n he _ ih =>
    obtain ⟨k, a⟩ := e
    obtain ⟨k', b⟩ := e'
    obtain ⟨hk, hab⟩ := he
    simp only at hk hab
    subst hk
    rw [get?_cons, get?_cons]
    split
    · exact .some hab
    · exact ih

/-! ### What a node carries -/

/-- Listeners that differ in their scopes alone, which `S` relates. -/
structure Listener.Like (S : ScopeId → ScopeId → Prop) (l l' : Listener) : Prop where
  event : l.event = l'.event
  handler : l.handler = l'.handler
  scope : S l.scope l'.scope

/-- Listeners of the same events in the same order. -/
abbrev Listener.LikeMembers (S : ScopeId → ScopeId → Prop) : Members Listener → Members Listener →
    Prop :=
  List.Forall₂ fun e e' => e.1 = e'.1 ∧ e.2.Like S e'.2

/-- What a node carries, up to functions and the scopes of listeners. -/
structure Traits.Like (F : Callable → Callable → Prop) (S : ScopeId → ScopeId → Prop)
    (t t' : Traits) : Prop where
  classes : t.classes = t'.classes
  style : AlikeMembers F t.style t'.style
  attrs : AlikeMembers F t.attrs t'.attrs
  props : AlikeMembers F t.props t'.props
  domProps : AlikeMembers F t.domProps t'.domProps
  on : Listener.LikeMembers S t.on t'.on
  nativeOn : Listener.LikeMembers S t.nativeOn t'.nativeOn
  key : Option.Rel (Alike F) t.key t'.key
  reference : t.reference = t'.reference
  refInFor : t.refInFor = t'.refInFor
  slot : t.slot = t'.slot

/-- Content of one kind, its text the same and its nodes related. -/
inductive Content.Like {N : Type} (R : N → N → Prop) : Content N → Content N → Prop
  | none : Content.Like R .none .none
  | text (s : String) : Content.Like R (.text s) (.text s)
  | markup (s : String) : Content.Like R (.markup s) (.markup s)
  | nodes {ns ns' : List N} (h : List.Forall₂ R ns ns') : Content.Like R (.nodes ns) (.nodes ns')

theorem Content.Like.mono {N : Type} {R R' : N → N → Prop} (hR : ∀ n n', R n n' → R' n n')
    {c c' : Content N} (h : c.Like R c') : c.Like R' c' := by
  cases h with
  | none => exact .none
  | text s => exact .text s
  | markup s => exact .markup s
  | nodes h => exact .nodes (h.imp hR)

theorem Listener.ofHandlers_like {S : ScopeId → ScopeId → Prop} {i j : ScopeId} (hij : S i j) :
    ∀ handlers : Members Schema.Handler,
      LikeMembers S (ofHandlers i handlers) (ofHandlers j handlers)
  | [] => .nil
  | _ :: rest => .cons ⟨rfl, rfl, rfl, hij⟩ (ofHandlers_like hij rest)

namespace Schema

variable {I : Session → Session → Prop} {F : Callable → Callable → Prop} {Q : Value → Prop}
  {value value' : Binding → Act Value}
  (hv : ∀ b : Binding, b.Over Q → Agree I (Alike F) (value b) (value' b))

include hv

theorem assignAll_agree : ∀ {bindings : Members Binding}, (∀ m ∈ bindings, m.2.Over Q) →
    ∀ {target target' : Members Value}, AlikeMembers F target target' →
      Agree I (AlikeMembers F) (assignAll value target bindings) (assignAll value' target' bindings)
  | [], _, _, _, h => Agree.pure h
  | (name, b) :: rest, hb, _, _, h => by
    rw [assignAll, assignAll]
    refine Agree.bind (hv b (hb _ List.mem_cons_self)) fun v w hvw => ?_
    exact assignAll_agree (fun m hm => hb m (List.mem_cons_of_mem _ hm)) (h.assign name hvw)

theorem Entries.resolve_agree (field : String) {e : Entries} (he : e.Over Q) :
    Agree I (AlikeMembers F) (e.resolve value field) (e.resolve value' field) := by
  unfold Entries.resolve
  refine Agree.bind (assignAll_agree hv he.named .nil) fun m m' hm => ?_
  cases hs : e.spread with
  | none => exact Agree.pure hm
  | some b =>
    refine Agree.bind (hv b (he.spread b hs)) fun v w hvw => ?_
    cases hvw
    case object more => exact Agree.pure (more.extend hm)
    case null => exact Agree.pure hm
    all_goals exact Agree.throw _

theorem Toggle.shown_agree {t : Toggle} (ht : ∀ b ∈ t.bound, b.Over Q) :
    Agree I Eq (t.shown value) (t.shown value') := by
  unfold Toggle.shown
  cases t.literal.getD true with
  | false => exact Agree.pure rfl
  | true =>
    cases hb : t.bound with
    | none => exact Agree.pure rfl
    | some b => exact Agree.bind (hv b (ht b hb)) fun _ _ h => Agree.pure h.truthy_eq

namespace Directives

variable {d : Directives} (hd : d.Over Q)

include hd

theorem classList_agree : Agree I Eq (d.classList value) (d.classList value') := by
  unfold classList
  cases hb : d.boundClasses with
  | none => exact Agree.pure rfl
  | some b =>
    exact Agree.bind (hv b (hd.boundClasses b hb)) fun _ _ h =>
      Agree.pure (ClassList.merge_alike _ h)

theorem keyValue_agree :
    Agree I (Option.Rel (Alike F)) (d.keyValue value) (d.keyValue value') := by
  unfold keyValue
  cases hb : d.key with
  | none => exact Agree.pure .none
  | some b => exact Agree.bind (hv b (hd.key b hb)) fun _ _ h => Agree.pure (.some h)

/-- **What a node carries** in two places. -/
theorem traits_agree {S : ScopeId → ScopeId → Prop} {i j : ScopeId} (hij : S i j) :
    Agree I (Traits.Like F S) (d.traits value i) (d.traits value' j) := by
  unfold traits
  refine Agree.bind (d.classList_agree hv hd) fun classes classes' hclasses => ?_
  refine Agree.bind (Entries.resolve_agree hv "style" hd.style) fun style style' hstyle => ?_
  refine Agree.bind (Entries.resolve_agree hv "attrs" hd.attrs) fun attrs attrs' hattrs => ?_
  refine Agree.bind (Entries.resolve_agree hv "props" hd.props) fun props props' hprops => ?_
  refine Agree.bind (Entries.resolve_agree hv "domProps" hd.domProps) fun dom dom' hdom => ?_
  refine Agree.bind (Toggle.shown_agree hv hd.visible) fun shown shown' hshown => ?_
  refine Agree.bind (d.keyValue_agree hv hd) fun key key' hkey => ?_
  subst hshown
  refine Agree.pure ⟨hclasses, ?_, hattrs, hprops, hdom, Listener.ofHandlers_like hij d.on,
    Listener.ofHandlers_like hij d.nativeOn, hkey, rfl, rfl, rfl⟩
  cases shown with
  | true => exact hstyle
  | false => exact (hstyle.erase "display").assign "display" (.string "none")

/-- The content a node says it has, which holds no nodes. -/
theorem ownContent_agree {N : Type} {R : N → N → Prop} (hF : Faithful F) :
    Agree I (Option.Rel (Content.Like R)) (d.ownContent value) (d.ownContent value') := by
  unfold ownContent
  cases ht : d.boundText with
  | some b =>
    refine Agree.bind (hv b (hd.boundText b ht)) fun v w h => Agree.pure ?_
    rw [h.text_eq hF]
    exact .some (.text _)
  | none =>
    cases hm : d.html with
    | some b =>
      refine Agree.bind (hv b (hd.html b hm)) fun v w h => Agree.pure ?_
      rw [h.text_eq hF]
      exact .some (.markup _)
    | none =>
      cases d.text with
      | some s => exact Agree.pure (.some (.text s))
      | none => exact Agree.pure .none

/-- Whether a node is there. -/
theorem present_agree : Agree I Eq (d.present value) (d.present value') := by
  unfold present
  cases hb : d.condition.bound with
  | none => exact Agree.pure rfl
  | some b => exact Agree.bind (hv b (hd.condition b hb)) fun _ _ h => Agree.pure h.truthy_eq

end Directives

end Schema

end Trellis
