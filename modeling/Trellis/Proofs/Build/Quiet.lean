import Trellis.Build
import Trellis.Proofs.Acts
import Trellis.Proofs.Schema.Plain
import Trellis.Proofs.Scope.Plain

/-!
# Building quietly

As long as no function is in the scopes and expressions are switched off, building evaluates
nothing: no function gets into the scopes, nothing is written through the handle and no function is
made or called, and what goes wrong is no fault of an expression.

* `Session.Still`, `Act.Quiet`: sessions that differ in frames alone, and acts that leave such.
* `Binding.resolve_quiet`: bindings, where expressions could be evaluated.
* `Schema.Node.build_quiet`: building. The induction follows the schema.
-/

namespace Trellis

open Schema Value

/-- From one session to the other, only frames changed, and they hold no function. -/
def Session.Still (s t : Session) : Prop :=
  t.store.Plain ∧
    ∃ store visits, t = { s with handle := { s.handle with store := store }, visits := visits }

theorem Session.Still.refl {s : Session} (h : s.store.Plain) : s.Still s :=
  ⟨h, s.store, s.visits, rfl⟩

theorem Session.Still.trans {s t u : Session} (h : s.Still t) (h' : t.Still u) : s.Still u := by
  obtain ⟨-, _, _, rfl⟩ := h
  obtain ⟨hplain, store, visits, rfl⟩ := h'
  exact ⟨hplain, store, visits, rfl⟩

namespace Act

variable {α β : Type} {P : α → Prop} {Q : β → Prop} {act : Act α}

/-- Begun without functions in the scopes, the act changes frames alone and puts none there. It
comes to a value of which `P` holds, or to a fault that is none of an expression. -/
def Quiet (P : α → Prop) (act : Act α) : Prop :=
  ∀ s, s.store.Plain → s.Still (act.runOn s).2 ∧ Tame P (act.runOn s).1

namespace Quiet

theorem pure {a : α} (h : P a) : Quiet P (pure a : Act α) :=
  fun _ hs => ⟨.refl hs, h⟩

theorem throw {e : Fault} (h : ¬ e.OfExpression) : Quiet P (throw e : Act α) :=
  fun _ hs => ⟨.refl hs, h⟩

theorem bind (h : Quiet P act) {next : α → Act β} (hn : ∀ a, P a → Quiet Q (next a)) :
    Quiet Q (act >>= next) := by
  intro s hs
  obtain ⟨hstill, htame⟩ := h s hs
  rw [runOn_bind]
  rcases hrun : act.runOn s with ⟨_ | a, t⟩
  · rw [hrun] at hstill htame
    exact ⟨hstill, htame⟩
  · rw [hrun] at hstill htame
    -- the next act begins without functions in the scopes, too
    obtain ⟨hnext, htame'⟩ := hn a htame t hstill.1
    exact ⟨hstill.trans hnext, htame'⟩

theorem ofExcept {x : Except Fault α} (h : Tame P x) : Quiet P (ofExcept x) := by
  intro s hs
  rw [runOn_ofExcept]
  exact ⟨.refl hs, h⟩

theorem scopes {ask : Store → Except Fault α} (h : ∀ s : Store, s.Plain → Tame P (ask s)) :
    Quiet P (scopes ask) := by
  intro s hs
  rw [runOn_scopes]
  exact ⟨.refl hs, h s.store hs⟩

theorem opening {change : Store → Except Fault (α × Store)}
    (h : ∀ s : Store, s.Plain → Tame (fun r => P r.1 ∧ r.2.Plain) (change s)) :
    Quiet P (opening change) := by
  intro s hs
  have hchange := h s.store hs
  rw [runOn_opening]
  cases hc : change s.handle.store with
  | error e =>
    rw [hc] at hchange
    exact ⟨.refl hs, hchange⟩
  | ok r =>
    rw [hc] at hchange
    exact ⟨⟨hchange.2, r.2, s.visits, rfl⟩, hchange.1⟩

theorem visit (v : Visit) : Quiet (fun _ => True) (visit v) :=
  fun s hs => ⟨⟨hs, s.store, v :: s.visits, rfl⟩, trivial⟩

theorem beginPass : Quiet (fun _ => True) beginPass :=
  fun s hs => ⟨⟨Store.Plain.beginPass hs, s.store.beginPass, [], rfl⟩, trivial⟩

end Quiet

end Act

open Act

/-! ### Directives -/

/-- No function is in what a node carries, its listeners apart. -/
structure Traits.Plain (t : Traits) : Prop where
  style : PlainMembers t.style
  attrs : PlainMembers t.attrs
  props : PlainMembers t.props
  domProps : PlainMembers t.domProps
  key : ∀ v ∈ t.key, v.Plain

/-- **Bindings** are not evaluated if expressions are switched off. -/
theorem Binding.resolve_quiet {config : Config} (hoff : config.expressions = false)
    (scope : ScopeId) {b : Binding} (hb : b.Plain) : Quiet Value.Plain (b.resolve config scope) := by
  cases b with
  | literal v => exact .pure hb
  | path p => exact .scopes fun _ hs => hs.get p
  | expression raw =>
    -- the gate: the text is not even compiled
    unfold resolve
    simp only [hoff, Bool.false_eq_true, if_false]
    exact .pure trivial

namespace Schema

variable {value : Binding → Act Value} (hvalue : ∀ b, b.Plain → Quiet Value.Plain (value b))

include hvalue

theorem assignAll_quiet {bindings : Members Binding} (hb : ∀ m ∈ bindings, m.2.Plain) :
    ∀ {target : Members Value}, PlainMembers target →
      Quiet PlainMembers (assignAll value target bindings) := by
  induction bindings with
  | nil => exact fun ht => .pure ht
  | cons e bindings ih =>
    intro target ht
    obtain ⟨name, b⟩ := e
    rw [List.forall_mem_cons] at hb
    rw [assignAll]
    exact (hvalue b hb.1).bind fun v hv => ih hb.2 (ht.assign name hv)

theorem Entries.resolve_quiet (field : String) {e : Entries} (he : e.Plain) :
    Quiet PlainMembers (e.resolve value field) := by
  have hnamed : Quiet PlainMembers (assignAll value [] e.named) :=
    assignAll_quiet hvalue he.named trivial
  refine hnamed.bind fun members hm => ?_
  split
  · exact .pure hm
  · next b hb =>
    refine (hvalue b (he.spread b hb)).bind fun v hv => ?_
    split
    · exact .pure (hm.extend hv)
    · exact .pure hm
    · exact .throw id

theorem Toggle.shown_quiet {t : Toggle} (ht : ∀ b ∈ t.bound, b.Plain) :
    Quiet (fun _ => True) (t.shown value) := by
  unfold Toggle.shown
  split
  · exact .pure trivial
  · exact .pure trivial
  · next b _ hb => exact (hvalue b (ht b hb)).bind fun _ _ => .pure trivial

omit hvalue in
theorem hidden_plain {style : Members Value} (h : PlainMembers style) :
    PlainMembers (hidden style) :=
  (h.erase "display").assign "display" trivial

namespace Directives.Plain

variable {d : Directives} (hd : d.Plain)

include hd

theorem present_quiet : Quiet (fun _ => True) (d.present value) := by
  unfold Directives.present
  split
  · exact .pure trivial
  · next b hb => exact (hvalue b (hd.condition b hb)).bind fun _ _ => .pure trivial

theorem classList_quiet : Quiet (fun _ => True) (d.classList value) := by
  unfold Directives.classList
  split
  · exact .pure trivial
  · next b hb => exact (hvalue b (hd.boundClasses b hb)).bind fun _ _ => .pure trivial

theorem keyValue_quiet : Quiet (fun key => ∀ v ∈ key, v.Plain) (d.keyValue value) := by
  unfold Directives.keyValue
  split
  · exact .pure nofun
  · next b hb =>
    refine (hvalue b (hd.key b hb)).bind fun v hv => .pure fun w hw => ?_
    exact Option.some.inj hw ▸ hv

/-- **What a node carries** is resolved quietly. -/
theorem traits_quiet (scope : ScopeId) : Quiet Traits.Plain (d.traits value scope) := by
  refine (hd.classList_quiet hvalue).bind fun _ _ => ?_
  refine (Entries.resolve_quiet hvalue "style" hd.style).bind fun style hstyle => ?_
  refine (Entries.resolve_quiet hvalue "attrs" hd.attrs).bind fun attrs hattrs => ?_
  refine (Entries.resolve_quiet hvalue "props" hd.props).bind fun props hprops => ?_
  refine (Entries.resolve_quiet hvalue "domProps" hd.domProps).bind fun domProps hdomProps => ?_
  refine (Toggle.shown_quiet hvalue hd.visible).bind fun shown _ => ?_
  refine (hd.keyValue_quiet hvalue).bind fun key hkey => .pure ?_
  refine ⟨?_, hattrs, hprops, hdomProps, hkey⟩
  cases shown with
  | true => exact hstyle
  | false => exact hidden_plain hstyle

/-- **What is in a node** is resolved quietly if its children are. -/
theorem content_quiet {N : Type} {children : Act (Content N)}
    (hchildren : Quiet (fun _ => True) children) :
    Quiet (fun _ => True) (d.content value children) := by
  have hown : Quiet (fun _ => True) (d.ownContent value : Act (Option (Content N))) := by
    unfold Directives.ownContent
    split
    · next b hb => exact (hvalue b (hd.boundText b hb)).bind fun _ _ => .pure trivial
    · next b _ hb => exact (hvalue b (hd.html b hb)).bind fun _ _ => .pure trivial
    · exact .pure trivial
    · exact .pure trivial
  refine hown.bind fun own _ => ?_
  cases own with
  | some content => exact .pure trivial
  | none => exact hchildren

end Directives.Plain

end Schema

/-! ### Places -/

theorem Iteration.numbered_plain : ∀ (items : List (Value × Value)) (i : Nat),
    (∀ e ∈ items, e.1.Plain ∧ e.2.Plain) → ∀ turn ∈ numbered i items, turn.toValue.Plain
  | [], _, _ => nofun
  | (key, v) :: rest, i, h => by
    rw [List.forall_mem_cons] at h
    rw [numbered, List.forall_mem_cons]
    exact ⟨⟨trivial, h.1.2, h.1.1, trivial⟩, numbered_plain rest (i + 1) h.2⟩

theorem Iteration.ofSource_plain {v : Value} (hv : v.Plain) :
    Tame (fun turns => ∀ turn ∈ turns, turn.toValue.Plain) (ofSource v) := by
  cases v with
  | array items =>
    refine numbered_plain _ 0 fun e he => ?_
    obtain ⟨w, hw, rfl⟩ := List.mem_map.1 he
    exact ⟨trivial, plainItems_iff.1 hv w hw⟩
  | object members =>
    refine numbered_plain _ 0 fun e he => ?_
    obtain ⟨m, hm, rfl⟩ := List.mem_map.1 he
    exact ⟨trivial, plainMembers_iff.1 hv m hm⟩
  | _ => exact id

namespace Site

variable {N : Type} {seed : Option (Members Value)} (hseed : ∀ members ∈ seed, PlainMembers members)
  {build : Site → Act (Option N)} (hb : ∀ site, Quiet (fun _ => True) (build site))

theorem arrive_quiet (site : Site) (step : Step) (scope : ScopeId) :
    Quiet (fun _ => True) (site.arrive step scope) :=
  (Quiet.visit _).bind fun _ _ => .pure trivial

include hseed

theorem enterSpace_quiet (site : Site) (step : Step) (ns : String) :
    Quiet (fun _ => True) (site.enterSpace step ns seed) := by
  have hopen : Quiet (fun _ => True) (Act.opening (·.openSpace site.scope step.segment ns)) :=
    .opening fun _ hs => (hs.openFrame _ _ _).mono fun _ h => ⟨trivial, h⟩
  refine hopen.bind fun opened _ => ?_
  -- only a new frame is seeded, with data from the schema
  have hfill : Quiet (fun _ => True) (fill opened.1 ns opened.2 seed) := by
    unfold fill
    split
    · next members _ =>
      exact .opening fun _ hs => (hs.addData ns (hseed members rfl)).map fun _ h => ⟨trivial, h⟩
    · exact .pure trivial
  exact hfill.bind fun _ _ => site.arrive_quiet step opened.1

theorem enterTurn_quiet (anchor : Site) (ns : String) {turn : Iteration} (ht : turn.toValue.Plain) :
    Quiet (fun _ => True) (anchor.enterTurn ns seed turn) := by
  refine (anchor.enterSpace_quiet hseed (.turn turn.index ns) ns).bind fun site _ => ?_
  have hset : Quiet (fun _ => True)
      (Act.opening fun s => (s.setLoop site.scope turn.toValue).map ((), ·)) :=
    .opening fun _ hs => (hs.setLoop ht).map fun _ h => ⟨trivial, h⟩
  exact hset.bind fun _ _ => .pure trivial

omit hseed

theorem enter_quiet (site : Site) {d : Directives} (hd : d.Plain) (i : Nat) :
    Quiet (fun _ => True) (site.enter d i) := by
  unfold enter
  cases d.ns with
  | none => exact .pure trivial
  | some ns => exact site.enterSpace_quiet hd.data (site.step i ns) ns

theorem enterSlot_quiet (owner : Site) (ns slot : String) {given : Value} (hgiven : given.Plain) :
    Quiet (fun _ => True) (owner.enterSlot ns slot given) := by
  have hopen : Quiet (fun _ => True) (Act.opening (·.openSlot owner.scope ns slot given)) :=
    .opening fun _ hs => (hs.openSlot owner.scope ns slot hgiven).mono fun _ h => ⟨trivial, h⟩
  exact hopen.bind fun scope _ => owner.arrive_quiet _ scope

include hb

theorem place_quiet (site : Site) (i : Nat) {d : Directives} (hd : d.Plain) :
    Quiet (fun _ => True) (site.place i d build) := by
  unfold place
  split
  · exact .pure trivial
  · exact (site.enter_quiet hd i).bind fun inside _ => hb inside

include hseed in
theorem turns_quiet (anchor : Site) (ns : String) : ∀ turns : List Iteration,
    (∀ turn ∈ turns, turn.toValue.Plain) → Quiet (fun _ => True) (anchor.turns ns seed build turns)
  | [], _ => .pure trivial
  | next :: rest, h => by
    rw [List.forall_mem_cons] at h
    rw [turns]
    refine (anchor.enterTurn_quiet hseed ns h.1).bind fun inside _ => ?_
    refine (hb inside).bind fun _ _ => ?_
    exact (turns_quiet anchor ns rest h.2).bind fun _ _ => .pure trivial

theorem slotContent_quiet (owner : Site) (ns slot : String) {d : Directives} (hd : d.Plain)
    {given : Value} (hgiven : given.Plain) :
    Quiet (fun _ => True) (owner.slotContent ns slot d build given) :=
  (owner.enterSlot_quiet ns slot hgiven).bind fun inside _ => inside.place_quiet hb 0 hd

end Site

/-! ### Building -/

section Building

set_option linter.unusedSectionVars false

variable {N C : Type} {b : Builder N C}

/-- The slots build quietly what they are given. -/
def Slots.Quiet (slots : Slots N) : Prop :=
  ∀ slot ∈ slots, ∀ given : Value, given.Plain → Act.Quiet (fun _ => True) (slot.2 given)

/-- Expressions are switched off, and nodes are made quietly. -/
structure Builder.Quiet (b : Builder N C) : Prop where
  off : b.config.expressions = false
  create : ∀ c traits slots content, (∀ definition, c = .inline definition → definition.Plain) →
    traits.Plain → slots.Quiet →
      Act.Quiet (fun _ => True) (b.renderer.create (b.registry.resolve c) ⟨traits, slots⟩ content)

variable (hquiet : b.Quiet)

include hquiet

theorem Builder.Quiet.value (site : Site) {binding : Binding} (h : binding.Plain) :
    Act.Quiet Value.Plain (b.value site binding) :=
  Binding.resolve_quiet hquiet.off site.scope h

theorem Builder.Quiet.child {build : Site → Act (Option N)}
    (hb : ∀ site, Act.Quiet (fun _ => True) (build site)) (site : Site) (i : Nat) {d : Directives}
    (hd : d.Plain) : Act.Quiet (fun _ => True) (b.child site i d build) := by
  unfold Builder.child
  cases hl : d.loop with
  | none => exact (site.place_quiet hb i hd).bind fun _ _ => .pure trivial
  | some source =>
    simp only
    unfold Builder.loop
    split
    · exact .pure trivial
    cases d.ns with
    | none => exact .throw id
    | some ns =>
      refine (site.enter_quiet hd i).bind fun anchor _ => ?_
      refine (hquiet.value anchor (hd.loop source hl)).bind fun v hv => ?_
      refine (Quiet.ofExcept (Iteration.ofSource_plain hv)).bind fun turns hturns => ?_
      exact anchor.turns_quiet hd.data hb ns turns hturns

namespace Schema.Node

mutual

/-- **Building** a schema without functions is quiet. -/
theorem build_quiet : ∀ (n : Node), n.All Node.Plain → ∀ site : Site,
    Act.Quiet (fun _ => True) (n.build b site)
  | mk d kids contents, h, site => by
    obtain ⟨hd, hkids, hcontents⟩ := all_iff.1 h
    have hvalue : ∀ binding : Binding, binding.Plain →
        Act.Quiet Value.Plain (b.value site binding) := fun _ => hquiet.value site
    rw [build]
    refine (Directives.Plain.present_quiet hvalue hd).bind fun present _ => ?_
    split
    · exact .pure trivial
    refine (Directives.Plain.traits_quiet hvalue hd site.scope).bind fun traits htraits => ?_
    split
    · refine (Directives.Plain.content_quiet hvalue hd (buildKids_quiet kids hkids site)).bind
        fun content _ => ?_
      exact (hquiet.create d.component traits [] content hd.inline htraits nofun).bind
        fun _ _ => .pure trivial
    · have hspace : Act.Quiet (fun _ => True) (Builder.slotSpace d) := by
        unfold Builder.slotSpace
        split
        · exact .pure trivial
        · exact .throw id
      refine hspace.bind fun ns _ => ?_
      exact (hquiet.create d.component traits _ .none hd.inline htraits
        (buildSlots_quiet contents hcontents ns site)).bind fun _ _ => .pure trivial

/-- Building children. -/
theorem buildKids_quiet : ∀ (kids : Option (List Node)), AllKids Node.Plain (kids.getD []) →
    ∀ site : Site, Act.Quiet (fun _ => True) (buildKids b kids site)
  | none, _, _ => .pure trivial
  | some kids, h, site => (buildAll_quiet kids h site 0).bind fun _ _ => .pure trivial

/-- Building nodes in order. -/
theorem buildAll_quiet : ∀ (kids : List Node), AllKids Node.Plain kids →
    ∀ (site : Site) (i : Nat), Act.Quiet (fun _ => True) (buildAll b kids site i)
  | [], _, _, _ => .pure trivial
  | n :: rest, h, site, i => by
    rw [buildAll]
    refine (hquiet.child (fun site => build_quiet n h.1 site) site i h.1.self).bind fun _ _ => ?_
    exact (buildAll_quiet rest h.2 site (i + 1)).bind fun _ _ => .pure trivial

/-- Building the contents of slots. -/
theorem buildSlots_quiet : ∀ (contents : List (String × Node)), AllContents Node.Plain contents →
    ∀ (ns : String) (site : Site), (buildSlots b ns site contents).Quiet
  | [], _, _, _ => nofun
  | (slot, n) :: rest, h, ns, site => by
    rw [buildSlots]
    refine List.forall_mem_cons.2 ⟨fun given hgiven => ?_, buildSlots_quiet rest h.2 ns site⟩
    exact site.slotContent_quiet (fun site => build_quiet n h.1 site) ns slot h.1.self hgiven

end

end Schema.Node

/-- **Building the root** is quiet. -/
theorem Builder.Quiet.root {n : Node} (h : n.All Node.Plain) :
    Act.Quiet (fun _ => True) (b.root n) := by
  unfold Builder.root
  split
  · exact .throw id
  · exact Site.root.place_quiet (fun site => Node.build_quiet hquiet n h site) 0 h.self

end Building

end Trellis
