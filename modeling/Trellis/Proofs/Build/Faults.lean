import Trellis.Proofs.View.Members

/-!
# What can go wrong in building

With expressions switched off and every frame where its way leads, building a node of a loaded
schema fails for what the schema's paths, loops and spreads come to, and for nothing else: the chain
of a frame that was entered is whole, the frame of a turn has members to set the loop's in, and a
node with slots or a loop has a namespace.

* `Fault.OfNames`: the faults there are.
* `Act.Fares`: acts that fail for these alone, and leave the frames as building does.
* `Schema.Admits`: what is to be seen of directives.
* `Schema.Node.build_fares`: building a node. The induction follows the schema.
-/

namespace Trellis

open Schema Session Act

/-- A fault of a path that leads nowhere, of a loop over what is neither a sequence nor an object,
or of a spread of what is neither an object nor null. -/
inductive Fault.OfNames : Fault → Prop where
  | space (ns : String) : OfNames (.namespaceMissing ns)
  | key (ns key : String) : OfNames (.keyMissing ns key)
  | slot (ns slot : String) : OfNames (.slotMissing ns slot)
  | loop (found : String) : OfNames (.notIterable found)
  | spread (field : String) (v : Value) (hobject : ∀ members, v ≠ .object members)
      (hnull : v ≠ .null) :
      OfNames (.wrongType ("`:" ++ field ++ "` must resolve to an object, found " ++ v.kind))

/-- Where a chain is whole, a path leads somewhere or one of its names is missing. -/
theorem Store.get_fault {s : Store} {scope : ScopeId} {path : Path} {e : Fault}
    (hwhole : (s.chain scope).2 = true) (h : s.get scope path = .error e) : e.OfNames := by
  unfold get at h
  cases hslot : path.slot with
  | none =>
    rw [hslot] at h
    simp only [space, nearest?_of_whole hwhole, bind, Except.bind] at h
    generalize (s.chain scope).1.find? _ = found at h
    cases found with
    | none => cases h; exact .space _
    | some x =>
      simp only at h
      split at h
      · cases h
      · cases h; exact .key _ _
  | some slot =>
    rw [hslot] at h
    simp only [slotFrame, nearest?_of_whole hwhole, bind, Except.bind] at h
    generalize (s.chain scope).1.find? _ = found at h
    cases found with
    | none => cases h; exact .slot _ _
    | some x =>
      simp only at h
      split at h
      · cases h
      · cases h; exact .key _ _

/-! ### Acts -/

namespace Act

variable {n : Node} {w : Way} {id : ScopeId} {α β : Type} {act : Act α}

/-- Begun where the frame at the end of a way was entered, the act leaves the frames as building
does, and fails for what names come to alone. -/
def Fares (n : Node) (w : Way) (id : ScopeId) (act : Act α) : Prop :=
  ∀ s : Session, s.Built n → s.Ready n → s.Has w id →
    ((act.runOn s).2.Built n ∧ (act.runOn s).2.Ready n ∧ s.visits ⊆ (act.runOn s).2.visits) ∧
      ∀ e, (act.runOn s).1 = .error e → e.OfNames

namespace Fares

theorem pure (a : α) : Fares n w id (pure a : Act α) :=
  fun _ hs hready _ => ⟨⟨hs, hready, List.Subset.refl _⟩, nofun⟩

theorem throw {e : Fault} (he : e.OfNames) : Fares n w id (throw e : Act α) :=
  fun _ hs hready _ => ⟨⟨hs, hready, List.Subset.refl _⟩, fun _ h => Except.error.inj h ▸ he⟩

theorem ofExcept {x : Except Fault α} (hx : ∀ e, x = .error e → e.OfNames) :
    Fares n w id (ofExcept x) := by
  cases x with
  | ok a => exact .pure a
  | error e => exact .throw (hx e rfl)

theorem bind (h : Fares n w id act) {next : α → Act β} (hn : ∀ a, Fares n w id (next a)) :
    Fares n w id (act >>= next) := by
  intro s hs hready hw
  obtain ⟨⟨ht, htready, hv⟩, hfault⟩ := h s hs hready hw
  rw [runOn_bind]
  cases hrun : act.runOn s with
  | mk outcome t =>
    rw [hrun] at ht htready hv hfault
    cases outcome with
    | error e => exact ⟨⟨ht, htready, hv⟩, fun e' h => hfault e' (congrArg _ (Except.error.inj h))⟩
    | ok a =>
      obtain ⟨⟨hu, huready, hv'⟩, hfault'⟩ := hn a t ht htready (hw.mono hv)
      exact ⟨⟨hu, huready, List.Subset.trans hv hv'⟩, hfault'⟩

end Fares

end Act

/-- **A binding** that is not evaluated fails for its names alone. -/
theorem Binding.resolve_fares {n : Node} (hfree : n.ClashFree) {w : Way} {id : ScopeId}
    {config : Config} (hoff : config.expressions = false) (b : Binding) :
    Fares n w id (b.resolve config id) := by
  cases b with
  | literal v => exact .pure v
  | path p =>
    intro s hs hready hw
    unfold resolve
    rw [runOn_scopes]
    refine ⟨⟨hs, hready, List.Subset.refl _⟩, fun e he => ?_⟩
    exact Store.get_fault (hs.chain_frames hfree hw).1 he
  | expression raw =>
    unfold resolve
    simp only [hoff, Bool.false_eq_true, if_false]
    exact .pure _

/-! ### Directives -/

namespace Schema

/-- What is seen of acts as long as it goes through sequences, and no fault but that of a spread is
raised. -/
structure Admits (J : ∀ {α : Type}, Act α → Prop) : Prop where
  pure : ∀ {α : Type} (a : α), J (pure a : Act α)
  bind : ∀ {α β : Type} {act : Act α} {next : α → Act β}, J act → (∀ a, J (next a)) →
    J (act >>= next)
  spread : ∀ (field : String) (v : Value), (∀ members, v ≠ .object members) → v ≠ .null →
    J (throw (.wrongType ("`:" ++ field ++ "` must resolve to an object, found " ++ v.kind)) :
      Act (Members Value))

theorem Admits.fares {n : Node} {w : Way} {id : ScopeId} : Admits (Fares n w id) where
  pure := .pure
  bind h hn := h.bind hn
  spread field v hobject hnull := .throw (.spread field v hobject hnull)

variable {J : ∀ {α : Type}, Act α → Prop} (h : Admits @J) {value : Binding → Act Value}
  (hv : ∀ b, J (value b))

include h hv

theorem assignAll_admits : ∀ (bindings : Members Binding) (target : Members Value),
    J (assignAll value target bindings)
  | [], _ => h.pure _
  | (_, b) :: rest, _ => h.bind (hv b) fun _ => assignAll_admits rest _

theorem Entries.resolve_admits (field : String) (e : Entries) : J (e.resolve value field) := by
  unfold Entries.resolve
  refine h.bind (assignAll_admits h hv e.named []) fun members => ?_
  split
  · exact h.pure _
  · refine h.bind (hv _) fun v => ?_
    split
    · exact h.pure _
    · exact h.pure _
    · next hobject hnull => exact h.spread field v hobject hnull

theorem Toggle.shown_admits (t : Toggle) : J (t.shown value) := by
  unfold Toggle.shown
  split
  · exact h.pure _
  · exact h.pure _
  · exact h.bind (hv _) fun _ => h.pure _

namespace Directives

theorem classList_admits (d : Directives) : J (d.classList value) := by
  unfold classList
  split
  · exact h.pure _
  · exact h.bind (hv _) fun _ => h.pure _

theorem keyValue_admits (d : Directives) : J (d.keyValue value) := by
  unfold keyValue
  split
  · exact h.pure _
  · exact h.bind (hv _) fun _ => h.pure _

theorem present_admits (d : Directives) : J (d.present value) := by
  unfold present
  split
  · exact h.pure _
  · exact h.bind (hv _) fun _ => h.pure _

/-- **What a node carries** raises no other fault than its bindings and its spreads. -/
theorem traits_admits (scope : ScopeId) (d : Directives) : J (d.traits value scope) := by
  unfold traits
  refine h.bind (d.classList_admits h hv) fun _ => ?_
  refine h.bind (d.style.resolve_admits h hv "style") fun _ => ?_
  refine h.bind (d.attrs.resolve_admits h hv "attrs") fun _ => ?_
  refine h.bind (d.props.resolve_admits h hv "props") fun _ => ?_
  refine h.bind (d.domProps.resolve_admits h hv "domProps") fun _ => ?_
  refine h.bind (d.visible.shown_admits h hv) fun _ => ?_
  exact h.bind (d.keyValue_admits h hv) fun _ => h.pure _

theorem content_admits {N : Type} (d : Directives) {children : Act (Content N)}
    (hchildren : J children) : J (d.content value children) := by
  have hown : J (d.ownContent value : Act (Option (Content N))) := by
    unfold ownContent
    split
    · exact h.bind (hv _) fun _ => h.pure _
    · exact h.bind (hv _) fun _ => h.pure _
    · exact h.pure _
    · exact h.pure _
  refine h.bind hown fun own => ?_
  cases own with
  | some content => exact h.pure _
  | none => exact hchildren

end Directives

end Schema

/-! ### Places -/

section Places

variable {n m : Node} {site : Site} {i : Nat} {kids : List Node} {step : Step}

/-- An act that enters the frame one step further. -/
def Site.EntersWell (n : Node) (site : Site) (step : Step) (act : Act Site) : Prop :=
  ∀ s : Session, s.Built n → s.Ready n → s.Has site.way site.scope →
    ∃ id data t, act.runOn s = (.ok ⟨site.way ++ [step], id, []⟩, t) ∧
      s.Arrives n (site.way ++ [step]) id data t ∧ Way.Looped (site.way ++ [step]) data

namespace Site

theorem EntersWell.bind {α : Type} {act : Act Site} (hfree : n.ClashFree)
    (h : EntersWell n site step act) {next : Site → Act α}
    (hn : ∀ id, Fares n (site.way ++ [step]) id (next ⟨site.way ++ [step], id, []⟩)) :
    Fares n site.way site.scope (act >>= next) := by
  intro s hs hready hw
  obtain ⟨id, data, t, hrun, harrives, hlooped⟩ := h s hs hready hw
  rw [runOn_bind, hrun]
  obtain ⟨⟨hu, huready, hv⟩, hfault⟩ :=
    hn id t harrives.after (hready.arrives hfree harrives hlooped) harrives.has
  exact ⟨⟨hu, huready, List.Subset.trans harrives.subset hv⟩, hfault⟩

theorem enterSpace_well {ps : List Nat} {ns : String} {seed : Option (Members Value)}
    (hstep : ((Locus.content n).after (site.way ++ [.space ps ns])).isSome)
    (hseed : n.seedAt (site.way ++ [.space ps ns]) = seed) :
    EntersWell n site (.space ps ns) (site.enterSpace (.space ps ns) ns seed) := by
  intro s hs _ hw
  obtain ⟨id, data, t, hrun, harrives, -⟩ := enterSpace_runOn site hs hw hstep rfl hseed
  exact ⟨id, data, t, hrun, harrives, Way.looped_concat nofun⟩

/-- The frame of a turn has members, so that what the loop sets has a place. -/
theorem enterTurn_well (hfree : n.ClashFree) {ns : String} (next : Iteration)
    {seed : Option (Members Value)}
    (hstep : ((Locus.content n).after (site.way ++ [.turn next.index ns])).isSome)
    (hseed : n.seedAt (site.way ++ [.turn next.index ns]) = seed) :
    EntersWell n site (.turn next.index ns) (site.enterTurn ns seed next) := by
  intro s hs hready hw
  obtain ⟨id, data, t, harrives, hset, -⟩ := enterTurn_runOn site hs hw hstep hseed
  obtain ⟨members, rfl⟩ := hready.arrived hfree harrives List.getLast?_concat nofun
  obtain ⟨u, hrun, harrives⟩ := hset members rfl
  refine ⟨id, _, u, hrun, harrives, fun _ _ members' _ heq => ?_⟩
  cases heq
  exact Members.mem_names_of_get? (Members.get?_assign_self _ _ _)

theorem enterSlot_well {ns name : String}
    (hstep : ((Locus.content n).after (site.way ++ [.slot ns name])).isSome) (given : Value) :
    EntersWell n site (.slot ns name) (site.enterSlot ns name given) := by
  intro s hs _ hw
  obtain ⟨id, t, hrun, harrives⟩ := enterSlot_runOn site hs hw hstep given
  exact ⟨id, given, t, hrun, harrives, Way.looped_concat nofun⟩

variable {N : Type} {build : Site → Act (Option N)}

/-- **A node that is no loop.** -/
theorem place_fares (hfree : n.ClashFree) (h : site.Lists n i (m :: kids))
    (hloop : m.self.loop = none)
    (hb : ∀ site', site'.Holds n m → Fares n site'.way site'.scope (build site')) :
    Fares n site.way site.scope (site.place i m.self build) := by
  unfold place
  split
  · exact .pure _
  unfold enter
  cases hns : m.self.ns with
  | none => exact hb (site.child i) (h.child hns)
  | some ns =>
    have hstep := h.step hns
    rw [hloop] at hstep
    refine (enterSpace_well (by rw [← Site.step, hstep]; rfl) (h.seed ns)).bind hfree fun id => ?_
    exact hb _ (.inside hstep)

variable (site) in
/-- **The turns** of a loop. -/
theorem turns_fares (hfree : n.ClashFree) {ns : String} (hns : m.self.ns = some ns)
    (h : (Locus.content n).after site.way = some (Locus.anchor m))
    (hb : ∀ site', site'.Holds n m → Fares n site'.way site'.scope (build site')) :
    ∀ turns, Fares n site.way site.scope (site.turns ns m.self.data build turns)
  | [] => .pure _
  | next :: rest => by
    have hstep : (Locus.content n).after (site.way ++ [.turn next.index ns]) =
        some (Locus.inside m) := after_turn hns h next.index
    rw [Site.turns, ← bind_assoc]
    refine .bind ?_ fun _ => (turns_fares hfree hns h hb rest).bind fun _ => .pure _
    exact (enterTurn_well hfree next (by rw [hstep]; rfl) (seed_turn h _ ns)).bind hfree fun id =>
      hb _ (.inside hstep)

/-- **The content of a slot.** -/
theorem slotContent_fares (hfree : n.ClashFree) {ns slot : String}
    (h : (Locus.content n).after (site.way ++ [.slot ns slot]) = some (Locus.content m))
    (hloop : m.self.loop = none)
    (hb : ∀ site', site'.Holds n m → Fares n site'.way site'.scope (build site'))
    (given : Value) :
    Fares n site.way site.scope (site.slotContent ns slot m.self build given) :=
  (enterSlot_well (by rw [h]; rfl) given).bind hfree fun _ =>
    place_fares hfree (Lists.content h) hloop hb

end Site

end Places

/-! ### Building -/

section Building

variable {n : Node} {N C : Type} {b : Builder N C}

/-- Expressions are switched off, no ways clash, and the renderer raises no fault but those of its
slots. -/
structure Builder.Fares (n : Node) (b : Builder N C) : Prop where
  off : b.config.expressions = false
  free : n.ClashFree
  create : ∀ (w : Way) (id : ScopeId) (c : Component) (traits : Traits) (slots : Slots N)
    (content : Content N), (∀ slot ∈ slots, ∀ given, Act.Fares n w id (slot.2 given)) →
      Act.Fares n w id (b.renderer.create (b.registry.resolve c) ⟨traits, slots⟩ content)

/-- **A child** is built once, or as often as its loop says; a loop has a namespace. -/
theorem Builder.child_fares (hb : b.Fares n) {m : Node} {site : Site} {i : Nat} {kids : List Node}
    {build : Site → Act (Option N)} (hm : m.Proper) (h : site.Lists n i (m :: kids))
    (hbuild : ∀ site', site'.Holds n m → Act.Fares n site'.way site'.scope (build site')) :
    Act.Fares n site.way site.scope (b.child site i m.self build) := by
  unfold child
  cases hloop : m.self.loop with
  | none => exact (Site.place_fares hb.free h hloop hbuild).bind fun _ => .pure _
  | some source =>
    simp only
    unfold loop
    split
    · exact .pure _
    cases hns : m.self.ns with
    | none =>
      have hnone := (Directives.check_ok hm.check hns).1
      rw [hloop] at hnone
      cases hnone
    | some ns =>
      have hstep := h.step hns
      rw [hloop] at hstep
      simp only [Site.enter, hns]
      refine (Site.enterSpace_well (by rw [← Site.step, hstep]; rfl) (h.seed ns)).bind hb.free
        fun id => ?_
      refine (Binding.resolve_fares hb.free hb.off source).bind fun v => ?_
      refine (Act.Fares.ofExcept fun e he => ?_).bind fun turns => ?_
      · cases v <;> cases he <;> exact .loop _
      · exact Site.turns_fares ⟨site.way ++ [site.step i ns], id, []⟩ hb.free hns hstep hbuild turns

mutual

/-- **Building a node** of a loaded schema. -/
theorem Schema.Node.build_fares (hb : b.Fares n) : ∀ (m : Node) (site : Site),
    m.All Node.Proper → site.Holds n m → Act.Fares n site.way site.scope (m.build b site)
  | .mk d kids contents, site, hproper, hsite => by
    have hvalue : ∀ binding, Act.Fares n site.way site.scope (b.value site binding) :=
      Binding.resolve_fares hb.free hb.off
    rw [Node.build]
    refine (d.present_admits .fares hvalue).bind fun present => ?_
    split
    · exact .pure _
    refine (d.traits_admits .fares hvalue site.scope).bind fun traits => ?_
    split
    · have hkids := Node.buildKids_fares hb kids site hproper.kids hsite.kids
      refine (d.content_admits .fares hvalue hkids).bind fun content => ?_
      exact (hb.create _ _ _ _ _ _ (List.forall_mem_nil _)).bind fun _ => .pure _
    · next hcontents =>
      unfold Builder.slotSpace
      cases hns : d.ns with
      | none =>
        have hempty := (Directives.check_ok hproper.self.check hns).2.1
        simp only [Bool.not_eq_false'] at hempty
        exact absurd hempty hcontents
      | some ns =>
        have hslots := Node.buildSlots_fares hb contents ns site hproper.contents
          hproper.self.distinct hproper.self.once fun slot k hk => by
            obtain ⟨l, hl, hls⟩ := hsite.slots ns hns
            rw [Locus.after_concat, hl, Option.bind_some, Locus.next, hls, Option.bind_some,
              if_pos rfl]
            exact congrArg (Option.map Locus.content) hk
        simp only [pure_bind]
        exact (hb.create _ _ _ _ _ _ hslots).bind fun _ => .pure _

/-- Building children. -/
theorem Schema.Node.buildKids_fares (hb : b.Fares n) :
    ∀ (kids : Option (List Node)) (site : Site), Node.AllKids Node.Proper (kids.getD []) →
      site.Lists n 0 (kids.getD []) →
      Act.Fares n site.way site.scope (Node.buildKids b kids site)
  | none, site, _, _ => by
    rw [Node.buildKids]
    exact .pure _
  | some kids, site, hproper, hsite => by
    rw [Node.buildKids]
    exact (Node.buildAll_fares hb kids site 0 hproper hsite).bind fun _ => .pure _

/-- Building nodes in order. -/
theorem Schema.Node.buildAll_fares (hb : b.Fares n) :
    ∀ (kids : List Node) (site : Site) (i : Nat), Node.AllKids Node.Proper kids →
      site.Lists n i kids →
      Act.Fares n site.way site.scope (Node.buildAll b kids site i)
  | [], site, i, _, _ => by
    rw [Node.buildAll]
    exact .pure _
  | m :: rest, site, i, hproper, hsite => by
    rw [Node.buildAll]
    refine (Builder.child_fares hb hproper.1.self hsite fun site' hsite' =>
      Node.build_fares hb m site' hproper.1 hsite').bind fun _ => ?_
    exact (Node.buildAll_fares hb rest site (i + 1) hproper.2 hsite.tail).bind fun _ => .pure _

/-- Building the contents of slots, each when it is asked for. -/
theorem Schema.Node.buildSlots_fares (hb : b.Fares n) :
    ∀ (contents : Members Node) (ns : String) (site : Site),
      Node.AllContents Node.Proper contents → contents.Distinct →
      (∀ c ∈ contents, c.2.self.loop = none) →
      (∀ slot k, contents.get? slot = some k →
        (Locus.content n).after (site.way ++ [.slot ns slot]) = some (Locus.content k)) →
      ∀ slot ∈ Node.buildSlots b ns site contents, ∀ given,
        Act.Fares n site.way site.scope (slot.2 given)
  | [], ns, site, _, _, _, _ => by
    rw [Node.buildSlots]
    exact nofun
  | (name, m) :: rest, ns, site, hproper, hdistinct, honce, hafter => by
    rw [Node.buildSlots]
    intro slot hslot given
    rcases List.mem_cons.1 hslot with rfl | hslot
    · refine Site.slotContent_fares hb.free (hafter name m ?_) (honce _ List.mem_cons_self) ?_ given
      · rw [Members.get?_cons, if_pos rfl]
      · exact fun site' hsite' => Node.build_fares hb m site' hproper.1 hsite'
    · unfold Members.Distinct Members.names at hdistinct
      rw [List.map_cons, List.nodup_cons] at hdistinct
      refine Node.buildSlots_fares hb rest ns site hproper.2 hdistinct.2
        (fun c hc => honce c (List.mem_cons_of_mem _ hc)) (fun other k hk => hafter other k ?_)
        slot hslot given
      rw [Members.get?_cons, if_neg]
      · exact hk
      · rintro rfl
        exact hdistinct.1 (Members.mem_names_of_get? hk)

end

end Building

end Trellis
