import Trellis.Proofs.Build.Standing
import Trellis.Proofs.Resolved
import Trellis.Proofs.Scope.Sight

/-!
# Building in place

A node is built where its schema says: the site of a node leads to it, and every frame opened below
it is one step further along a way through the schema. So building keeps what `Session.Built` says,
whatever the renderer makes of nodes, if it reaches the scopes through the slots it is given and
otherwise changes no more than data (`Builder.Confined`).

* `AllowsBuilding`: relations between sessions that allow what building does.
* `Session.Stays`: what building at the end of a way keeps.
* `Site.Lists`, `Site.Holds`: which nodes a site leads to.
* `Schema.Node.build_stays`: building a node.
-/

namespace Trellis

open Schema Session Act

/-! ### Confined renderers -/

instance : Std.Refl SameOutline := ⟨SameOutline.refl⟩

instance : IsTrans Session SameOutline := ⟨fun _ _ _ => SameOutline.trans⟩

/-- A write that succeeds changes data. -/
theorem Handle.outline_write {h h' : Handle} {scope : ScopeId} {ns : String} {keys : List String}
    {v : Value} (hw : h.write scope ns keys v = .ok h') : h'.store.outline = h.store.outline := by
  cases hs : h.store.write scope ns keys v with
  | error e => rw [Handle.write_error hs] at hw; cases hw
  | ok r =>
    obtain ⟨h₁, hw₁, hstore, -⟩ := Handle.write_ok hs
    rw [hw] at hw₁
    cases hw₁
    rw [hstore]
    exact (Store.write_within hs).outline

instance : AllowsEvaluation SameOutline where
  inner _ _ hh hv := ⟨congrArg (fun h => h.store.outline) hh.symm, hv.symm⟩
  write _ _ _ _ _ _ hw := ⟨Handle.outline_write hw, rfl⟩

/-- The renderer, with the components it may use, reaches the scopes through the slots it is given,
and otherwise changes no more than data: it keeps whatever the slots and changes of data keep. -/
def Builder.Confined {N C : Type} (b : Builder N C) : Prop :=
  ∀ (R : Session → Session → Prop), (∀ s t, SameOutline s t → R s t) →
    (∀ s t u, R s t → R t u → R s u) →
    ∀ (c : Component) (traits : Traits) (slots : Slots N) (content : Content N),
      (∀ slot ∈ slots, ∀ given, Keeps R (slot.2 given)) →
      Keeps R (b.renderer.create (b.registry.resolve c) ⟨traits, slots⟩ content)

/-- Making a node keeps what the slots it is given keep. -/
def Builder.Lets {N C : Type} (b : Builder N C) (R : Session → Session → Prop) : Prop :=
  ∀ (c : Component) (traits : Traits) (slots : Slots N) (content : Content N),
    (∀ slot ∈ slots, ∀ given, Keeps R (slot.2 given)) →
    Keeps R (b.renderer.create (b.registry.resolve c) ⟨traits, slots⟩ content)

/-- The renderer, with the components it may use, reaches the scopes through the slots it is given,
and otherwise changes no more than evaluating does. -/
def Builder.Honest {N C : Type} (b : Builder N C) : Prop :=
  ∀ (R : Session → Session → Prop) [AllowsEvaluation R], b.Lets R

/-- Besides, bindings keep it. -/
structure Builder.Respects {N C : Type} (b : Builder N C) (R : Session → Session → Prop) : Prop where
  value : ∀ (scope : ScopeId) (binding : Binding), Keeps R (binding.resolve b.config scope)
  create : b.Lets R

theorem Builder.Lets.respects {N C : Type} {b : Builder N C} {R : Session → Session → Prop}
    [AllowsEvaluation R] (h : b.Lets R) : b.Respects R :=
  ⟨fun scope binding => Binding.resolve_keeps b.config scope binding, h⟩

/-- Bindings change nothing if expressions are switched off. -/
theorem Builder.Lets.respects_off {N C : Type} {b : Builder N C} {R : Session → Session → Prop}
    [Std.Refl R] (hoff : b.config.expressions = false) (h : b.Lets R) : b.Respects R :=
  ⟨fun scope binding s => (binding.resolve_runOn hoff scope (s := s)).symm ▸ Std.Refl.refl s, h⟩

theorem Builder.Honest.confined {N C : Type} {b : Builder N C} (hb : b.Honest) : b.Confined := by
  intro R hR htrans
  have : AllowsEvaluation R :=
    { trans := htrans
      inner := fun s t hh hv => hR s t (AllowsEvaluation.inner s t hh hv)
      write := fun s scope ns keys v h hw =>
        hR _ _ (AllowsEvaluation.write s scope ns keys v h hw) }
  exact hb R

/-! ### What building keeps -/

/-- A preorder of sessions that holds between two if a frame was entered in between, and a loop has
set what a turn of it sees. -/
class AllowsEntering (n : Node) (K : Session → Session → Prop) : Prop extends
    Std.Refl K, IsTrans Session K where
  enter : ∀ {s t w id data}, s.Arrives n w id data t → w.Looped data → K s t

/-- One that allows evaluation as well. -/
class AllowsBuilding (n : Node) (K : Session → Session → Prop) : Prop extends
    AllowsEvaluation K where
  enter : ∀ {s t w id data}, s.Arrives n w id data t → w.Looped data → K s t

instance {n : Node} {K : Session → Session → Prop} [AllowsBuilding n K] : AllowsEntering n K where
  enter := AllowsBuilding.enter

instance {n : Node} : AllowsBuilding n fun _ _ => True where
  trans _ _ _ _ _ := trivial
  inner _ _ _ _ := trivial
  write _ _ _ _ _ _ _ := trivial
  enter _ _ := trivial

/-- What building at the end of a way keeps: besides `K`, that what was entered stays entered. -/
def Session.Stays (n : Node) (K : Session → Session → Prop) (w : Way) (id : ScopeId)
    (s t : Session) : Prop :=
  s.Built n → s.Has w id → t.Built n ∧ s.visits ⊆ t.visits ∧ K s t

variable {n : Node} {K : Session → Session → Prop} {w : Way} {id : ScopeId} {s t : Session}

theorem Session.Stays.of_outline (h : SameOutline s t) (hK : K s t) : Stays n K w id s t :=
  fun hs _ => ⟨hs.of_outline h, by rw [h.visits]; exact List.Subset.refl _, hK⟩

instance [AllowsEntering n K] : Std.Refl (Stays n K w id) :=
  ⟨fun s => .of_outline (.refl s) (Std.Refl.refl s)⟩

instance [AllowsEntering n K] : IsTrans Session (Stays n K w id) where
  trans _ _ _ h h' hs hw := by
    obtain ⟨ht, hv, hK⟩ := h hs hw
    obtain ⟨hu, hv', hK'⟩ := h' ht (hw.mono hv)
    exact ⟨hu, List.Subset.trans hv hv', IsTrans.trans _ _ _ hK hK'⟩

section Stays

variable [AllowsBuilding n K]

instance : AllowsEvaluation (Stays n K w id) where
  inner s t hh hv :=
    .of_outline (AllowsEvaluation.inner s t hh hv) (AllowsEvaluation.inner s t hh hv)
  write s scope ns keys v h hw :=
    .of_outline (AllowsEvaluation.write s scope ns keys v h hw)
      (AllowsEvaluation.write s scope ns keys v h hw)

end Stays

/-- A confined renderer lets pass whatever allows building and changes of data. -/
theorem Builder.Confined.lets {N C : Type} {b : Builder N C} (hb : b.Confined) [AllowsBuilding n K]
    (hK : ∀ s t, SameOutline s t → K s t) : b.Lets (Stays n K w id) :=
  hb _ (fun s t h => .of_outline h (hK s t h)) fun _ _ _ => IsTrans.trans _ _ _

/-! ### Sites -/

namespace Site

/-- From position `i` of a site on there are the given nodes. -/
def Lists (n : Node) (site : Site) (i : Nat) (kids : List Node) : Prop :=
  ∃ l, (Locus.content n).after site.way = some l ∧
    ∀ j ps, Locus.nodeAt l.kids (site.walked ++ (i + j) :: ps) = Locus.nodeAt kids (j :: ps)

/-- A node is built at a site: its children are there and, if it has a namespace, its slots. -/
structure Holds (n : Node) (site : Site) (m : Node) : Prop where
  kids : site.Lists n 0 (m.children.getD [])
  slots : ∀ ns, m.self.ns = some ns →
    ∃ l, (Locus.content n).after site.way = some l ∧ l.slots = some (ns, m.slots)

variable {site : Site} {i : Nat} {m : Node} {kids : List Node}

theorem Lists.root : Site.root.Lists n 0 [n] :=
  ⟨_, rfl, fun j ps => by rw [Nat.zero_add]; rfl⟩

/-- The beginning of the content of a slot. -/
theorem Lists.content {way : Way} {scope : ScopeId}
    (h : (Locus.content n).after way = some (Locus.content m)) :
    Lists n ⟨way, scope, []⟩ 0 [m] :=
  ⟨_, h, fun j ps => by rw [Nat.zero_add]; rfl⟩

theorem Lists.tail (h : site.Lists n i (m :: kids)) : site.Lists n (i + 1) kids := by
  obtain ⟨l, hl, hkids⟩ := h
  refine ⟨l, hl, fun j ps => ?_⟩
  have hj := hkids (j + 1) ps
  rw [show i + (j + 1) = i + 1 + j by omega] at hj
  rw [hj]
  cases ps <;> rfl

/-- The frame of a node. -/
theorem Holds.inside {way : Way} {scope : ScopeId}
    (h : (Locus.content n).after way = some (Locus.inside m)) : Holds n ⟨way, scope, []⟩ m where
  kids := ⟨_, h, fun j ps => by rw [Nat.zero_add]; rfl⟩
  slots ns hns := ⟨_, h, by unfold Locus.inside; rw [hns]; rfl⟩

/-- A node without a frame of its own. -/
theorem Lists.child (h : site.Lists n i (m :: kids)) (hns : m.self.ns = none) :
    Holds n (site.child i) m where
  kids := by
    obtain ⟨l, hl, hkids⟩ := h
    refine ⟨l, hl, fun j ps => ?_⟩
    have hj := hkids 0 (j :: ps)
    rw [Nat.zero_add, Site.child]
    simp only [List.append_assoc, List.cons_append, List.nil_append, Nat.add_zero] at hj ⊢
    exact hj
  slots ns hns' := by rw [hns] at hns'; cases hns'

/-- The step to the frame of a node. -/
theorem Lists.step (h : site.Lists n i (m :: kids)) {ns : String} (hns : m.self.ns = some ns) :
    (Locus.content n).after (site.way ++ [site.step i ns]) =
      some (if m.self.loop.isSome then Locus.anchor m else Locus.inside m) := by
  obtain ⟨l, hl, hkids⟩ := h
  have hnode := hkids 0 []
  rw [Locus.after_concat, hl, Option.bind_some, Site.step, Locus.next]
  rw [Nat.add_zero] at hnode
  rw [hnode]
  simp [Locus.nodeAt, hns]

/-- The step to a turn of a loop. -/
theorem after_turn {way : Way} {ns : String} (hns : m.self.ns = some ns)
    (h : (Locus.content n).after way = some (Locus.anchor m)) (index : Nat) :
    (Locus.content n).after (way ++ [.turn index ns]) = some (Locus.inside m) := by
  rw [Locus.after_concat, h, Option.bind_some, Locus.next, Locus.anchor, Option.bind_some,
    if_pos hns]

/-- The frame of a node begins with the node's data. -/
theorem Lists.seed (h : site.Lists n i (m :: kids)) (ns : String) :
    n.seedAt (site.way ++ [site.step i ns]) = m.self.data := by
  obtain ⟨l, hl, hkids⟩ := h
  have hnode := hkids 0 []
  rw [Nat.add_zero] at hnode
  rw [Node.seedAt_concat, hl, Option.bind_some, Site.step, Locus.seeder, hnode]
  rfl

/-- So do the frames of its turns. -/
theorem seed_turn {way : Way} (h : (Locus.content n).after way = some (Locus.anchor m))
    (index : Nat) (ns : String) : n.seedAt (way ++ [.turn index ns]) = m.self.data := by
  rw [Node.seedAt_concat, h]
  rfl

/-! ### Entering -/

theorem addData_outline {s t : Store} {scope : ScopeId} {ns : String} {members : Members Value}
    (h : s.addData scope ns members = .ok t) : t.outline = s.outline := by
  obtain ⟨x, -, h⟩ := Except.bind_eq_ok.1 h
  cases h
  exact Store.outline_modify fun f => by unfold Frame.extend; split <;> rfl

/-- A change of the store that changes data. -/
theorem opening_outline {R : Session → Session → Prop} (hR : ∀ s t, SameOutline s t → R s t)
    {change : Store → Except Fault Store}
    (hc : ∀ s t, change s = .ok t → t.outline = s.outline) :
    Keeps R (Act.opening fun s => (change s).map ((), ·)) := by
  intro s
  rw [runOn_opening]
  cases h : change s.handle.store with
  | error e => exact hR s s (.refl s)
  | ok store => exact hR _ _ ⟨hc _ _ h, rfl⟩

/-- An act that enters the frame one step further and leads to its beginning, if not to a fault. -/
def Enters (n : Node) (site : Site) (step : Step) (act : Act Site) : Prop :=
  ∀ s : Session, s.Built n → s.Has site.way site.scope →
    ∃ id data t, s.Arrives n (site.way ++ [step]) id data t ∧ Way.Looped (site.way ++ [step]) data ∧
      (act.runOn s = (.ok ⟨site.way ++ [step], id, []⟩, t) ∨ ∃ e, act.runOn s = (.error e, t))

theorem enterSpace_enters {ps : List Nat} {ns : String} {seed : Option (Members Value)}
    (hstep : ((Locus.content n).after (site.way ++ [.space ps ns])).isSome)
    (hseed : n.seedAt (site.way ++ [.space ps ns]) = seed) :
    Enters n site (.space ps ns) (site.enterSpace (.space ps ns) ns seed) := by
  intro s hs hw
  obtain ⟨id, data, t, hrun, harrives, -⟩ := enterSpace_runOn site hs hw hstep rfl hseed
  exact ⟨id, data, t, harrives, Way.looped_concat nofun, .inl hrun⟩

theorem enterTurn_enters {ns : String} (next : Iteration) {seed : Option (Members Value)}
    (hstep : ((Locus.content n).after (site.way ++ [.turn next.index ns])).isSome)
    (hseed : n.seedAt (site.way ++ [.turn next.index ns]) = seed) :
    Enters n site (.turn next.index ns) (site.enterTurn ns seed next) := by
  intro s hs hw
  obtain ⟨id, data, t, harrives, hset, hnone⟩ := enterTurn_runOn site hs hw hstep hseed
  by_cases hm : ∃ members, data = .object members
  · obtain ⟨members, rfl⟩ := hm
    obtain ⟨u, hrun, harrives⟩ := hset members rfl
    refine ⟨id, _, u, harrives, fun _ _ members' _ heq => ?_, .inl hrun⟩
    cases heq
    exact Members.mem_names_of_get? (Members.get?_assign_self _ _ _)
  · exact ⟨id, data, t, harrives, fun _ _ members _ heq => absurd ⟨members, heq⟩ hm,
      .inr ⟨_, hnone fun members heq => hm ⟨members, heq⟩⟩⟩

theorem enterSlot_enters {ns name : String}
    (hstep : ((Locus.content n).after (site.way ++ [.slot ns name])).isSome) (given : Value) :
    Enters n site (.slot ns name) (site.enterSlot ns name given) := by
  intro s hs hw
  obtain ⟨id, t, hrun, harrives⟩ := enterSlot_runOn site hs hw hstep given
  exact ⟨id, given, t, harrives, Way.looped_concat nofun, .inl hrun⟩

section Stays

variable [AllowsEntering n K]

/-- Whatever is kept at the end of the longer way is kept at that of the shorter one. -/
theorem Enters.bind {α : Type} {step : Step} {act : Act Site} (h : Enters n site step act)
    {next : Site → Act α}
    (hn : ∀ id, Keeps (Stays n K (site.way ++ [step]) id) (next ⟨site.way ++ [step], id, []⟩)) :
    Keeps (Stays n K site.way site.scope) (act >>= next) := by
  intro s hs hw
  obtain ⟨id, data, t, harrives, hlooped, hrun⟩ := h s hs hw
  have hK : K s t := AllowsEntering.enter harrives hlooped
  rw [runOn_bind]
  rcases hrun with hrun | ⟨e, hrun⟩
  · rw [hrun]
    obtain ⟨hu, hv, hK'⟩ := hn id t harrives.after harrives.has
    exact ⟨hu, List.Subset.trans harrives.subset hv, IsTrans.trans _ _ _ hK hK'⟩
  · rw [hrun]
    exact ⟨harrives.after, harrives.subset, hK⟩

variable {N C : Type} {build : Site → Act (Option N)}

/-- **A node that is no loop** is built in its frame, or in the frame it is in. -/
theorem place_stays (h : site.Lists n i (m :: kids)) (hloop : m.self.loop = none)
    (hb : ∀ site', site'.Holds n m → Keeps (Stays n K site'.way site'.scope) (build site')) :
    Keeps (Stays n K site.way site.scope) (site.place i m.self build) := by
  unfold place
  split
  · exact Keeps.pure _
  unfold enter
  cases hns : m.self.ns with
  | none => exact hb (site.child i) (h.child hns)
  | some ns =>
    -- the step leads into the node itself, since it is no loop
    have hstep := h.step hns
    rw [hloop] at hstep
    refine (enterSpace_enters (by rw [← Site.step, hstep]; rfl) (h.seed ns)).bind fun id => ?_
    exact hb _ (.inside hstep)

variable (site) in
/-- **The turns** of a loop are each built in a frame of their own. -/
theorem turns_stays {ns : String} (hns : m.self.ns = some ns)
    (h : (Locus.content n).after site.way = some (Locus.anchor m))
    (hb : ∀ site', site'.Holds n m → Keeps (Stays n K site'.way site'.scope) (build site')) :
    ∀ turns, Keeps (Stays n K site.way site.scope) (site.turns ns m.self.data build turns)
  | [] => Keeps.pure _
  | next :: rest => by
    have hstep : (Locus.content n).after (site.way ++ [.turn next.index ns]) =
        some (Locus.inside m) := after_turn hns h next.index
    rw [Site.turns, ← bind_assoc]
    refine Keeps.bind ?_ fun _ => Keeps.bind (turns_stays hns h hb rest) fun _ => Keeps.pure _
    exact (enterTurn_enters next (by rw [hstep]; rfl) (seed_turn h _ ns)).bind fun id =>
      hb _ (.inside hstep)

/-- **The content of a slot** is built in a frame that holds what the slot was given. -/
theorem slotContent_stays {ns slot : String}
    (h : (Locus.content n).after (site.way ++ [.slot ns slot]) = some (Locus.content m))
    (hloop : m.self.loop = none)
    (hb : ∀ site', site'.Holds n m → Keeps (Stays n K site'.way site'.scope) (build site'))
    (given : Value) :
    Keeps (Stays n K site.way site.scope) (site.slotContent ns slot m.self build given) := by
  refine (enterSlot_enters (by rw [h]; rfl) given).bind fun id => ?_
  exact place_stays (Lists.content h) hloop hb

end Stays

end Site

namespace Builder

variable {N C : Type} {b : Builder N C} {site : Site} {i : Nat} {m : Node} {kids : List Node}
  {build : Site → Act (Option N)} [AllowsEntering n K]

/-- **A child** is built once, or as often as its loop says. -/
theorem child_stays (hvalue : ∀ w id, b.Respects (Stays n K w id)) (h : site.Lists n i (m :: kids))
    (hb : ∀ site', site'.Holds n m → Keeps (Stays n K site'.way site'.scope) (build site')) :
    Keeps (Stays n K site.way site.scope) (b.child site i m.self build) := by
  unfold child
  cases hloop : m.self.loop with
  | none => exact Keeps.bind (Site.place_stays h hloop hb) fun _ => Keeps.pure _
  | some source =>
    simp only
    unfold loop
    split
    · exact Keeps.pure _
    cases hns : m.self.ns with
    | none => exact Keeps.throw _
    | some ns =>
      -- the step leads to the loop's own frame, and the turns are inside
      have hstep := h.step hns
      rw [hloop] at hstep
      simp only [Site.enter, hns]
      refine (Site.enterSpace_enters (by rw [← Site.step, hstep]; rfl) (h.seed ns)).bind fun id => ?_
      refine Keeps.bind ((hvalue _ _).value id source) fun v => ?_
      refine Keeps.bind (Keeps.ofExcept _) fun turns => ?_
      exact Site.turns_stays ⟨site.way ++ [site.step i ns], id, []⟩ hns hstep hb turns

end Builder

/-! ### Nodes -/

section Nodes

variable {N C : Type} {b : Builder N C} [AllowsEntering n K]

mutual

/-- **Building a node** keeps what is known of the frames of its schema. -/
theorem Schema.Node.build_stays (hb : ∀ w id, b.Respects (Stays n K w id)) :
    ∀ (m : Node) (site : Site), m.All Node.Orderly → site.Holds n m →
      Keeps (Stays n K site.way site.scope) (m.build b site)
  | .mk d kids contents, site, horderly, hsite => by
    have hvalue : ∀ binding, BothKeep (Stays n K site.way site.scope) (b.value site binding)
        (b.value site binding) :=
      fun binding => and_self_iff.2 ((hb _ _).value site.scope binding)
    have hkeeps := Corresponds.bothKeep (R := Stays n K site.way site.scope)
    rw [Node.build]
    refine Keeps.bind (d.present_corresponds hkeeps hvalue).1 fun present => ?_
    split
    · exact Keeps.pure _
    refine Keeps.bind (d.traits_corresponds hkeeps hvalue site.scope).1 fun traits => ?_
    split
    · have hkids := Node.buildKids_stays hb kids site horderly.kids hsite.kids
      have hcontent := (d.content_corresponds hkeeps hvalue (and_self_iff.2 hkids)).1
      refine Keeps.bind hcontent fun content => ?_
      exact Keeps.bind ((hb _ _).create _ _ _ _ nofun)
        fun _ => Keeps.pure _
    · unfold Builder.slotSpace
      cases hns : d.ns with
      | none => exact Keeps.throw _
      | some ns =>
        have hslots := Node.buildSlots_stays hb contents ns site horderly.contents
          horderly.self.distinct horderly.self.once fun slot k hk => by
            obtain ⟨l, hl, hls⟩ := hsite.slots ns hns
            rw [Locus.after_concat, hl, Option.bind_some, Locus.next, hls, Option.bind_some,
              if_pos rfl]
            exact congrArg (Option.map Locus.content) hk
        simp only [pure_bind]
        exact Keeps.bind ((hb _ _).create _ _ _ _ hslots)
          fun _ => Keeps.pure _

/-- Building children. -/
theorem Schema.Node.buildKids_stays (hb : ∀ w id, b.Respects (Stays n K w id)) :
    ∀ (kids : Option (List Node)) (site : Site), Node.AllKids Node.Orderly (kids.getD []) →
      site.Lists n 0 (kids.getD []) →
      Keeps (Stays n K site.way site.scope) (Node.buildKids b kids site)
  | none, site, _, _ => by rw [Node.buildKids]; exact Keeps.pure _
  | some kids, site, horderly, hsite => by
    rw [Node.buildKids]
    exact Keeps.bind (Node.buildAll_stays hb kids site 0 horderly hsite) fun _ => Keeps.pure _

/-- Building nodes in order. -/
theorem Schema.Node.buildAll_stays (hb : ∀ w id, b.Respects (Stays n K w id)) :
    ∀ (kids : List Node) (site : Site) (i : Nat), Node.AllKids Node.Orderly kids →
      site.Lists n i kids →
      Keeps (Stays n K site.way site.scope) (Node.buildAll b kids site i)
  | [], site, i, _, _ => by rw [Node.buildAll]; exact Keeps.pure _
  | m :: rest, site, i, horderly, hsite => by
    rw [Node.buildAll]
    refine Keeps.bind (Builder.child_stays hb hsite fun site' hsite' => ?_) fun _ => ?_
    · exact Node.build_stays hb m site' horderly.1 hsite'
    · exact Keeps.bind (Node.buildAll_stays hb rest site (i + 1) horderly.2 hsite.tail)
        fun _ => Keeps.pure _

/-- Building the contents of slots, each when it is asked for. -/
theorem Schema.Node.buildSlots_stays (hb : ∀ w id, b.Respects (Stays n K w id)) :
    ∀ (contents : Members Node) (ns : String) (site : Site),
      Node.AllContents Node.Orderly contents → contents.Distinct →
      (∀ c ∈ contents, c.2.self.loop = none) →
      (∀ slot k, contents.get? slot = some k →
        (Locus.content n).after (site.way ++ [.slot ns slot]) = some (Locus.content k)) →
      ∀ slot ∈ Node.buildSlots b ns site contents, ∀ given,
        Keeps (Stays n K site.way site.scope) (slot.2 given)
  | [], ns, site, _, _, _, _ => by rw [Node.buildSlots]; exact nofun
  | (name, m) :: rest, ns, site, horderly, hdistinct, honce, hafter => by
    rw [Node.buildSlots]
    intro slot hslot given
    rcases List.mem_cons.1 hslot with rfl | hslot
    · refine Site.slotContent_stays (hafter name m ?_) (honce _ List.mem_cons_self) ?_ given
      · rw [Members.get?_cons, if_pos rfl]
      · exact fun site' hsite' => Node.build_stays hb m site' horderly.1 hsite'
    · unfold Members.Distinct Members.names at hdistinct
      rw [List.map_cons, List.nodup_cons] at hdistinct
      refine Node.buildSlots_stays hb rest ns site horderly.2 hdistinct.2
        (fun c hc => honce c (List.mem_cons_of_mem _ hc)) (fun other k hk => hafter other k ?_)
        slot hslot given
      rw [Members.get?_cons, if_neg]
      · exact hk
      · rintro rfl
        exact hdistinct.1 (Members.mem_names_of_get? hk)

end

end Nodes

end Trellis
