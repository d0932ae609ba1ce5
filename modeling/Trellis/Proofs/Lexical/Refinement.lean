import Trellis.Proofs.Lexical.Drawing

/-!
# Building is drawing

Building a node in the first pass over a schema without clashes comes to what the node is drawn as
in the layers around it, the scopes of listeners apart, which are numbers of frames. A node goes by
steps of its own only: its children by their positions, the turns of a loop by their numbers, the
contents of slots by their names.

* `Site.At`, `Step.TurnFrom`, `Step.SlotOf`, `Site.Own`: who may go by which steps.
* `Schema.Node.build_draws`: a node. The induction follows the schema.
-/

namespace Trellis

open Schema Session Act

/-- The listener in the root's scope. -/
def Listener.unscoped (l : Listener) : Listener := { l with scope := Store.rootId }

/-- What a node carries, with its listeners in the root's scope. -/
abbrev Traits.unscoped : Traits → Traits := Traits.mapListeners Listener.unscoped

/-- The tree with its listeners in the root's scope. -/
abbrev Rendered.unscoped : Rendered → Rendered := Rendered.mapListeners Listener.unscoped

theorem Listener.unscoped_ofHandlers (scope : ScopeId) (handlers : Members Handler) :
    (Listener.ofHandlers scope handlers).mapValues Listener.unscoped =
      Listener.ofHandlers Store.rootId handlers := by
  unfold Listener.ofHandlers Members.mapValues
  rw [List.map_map]
  rfl

/-- What a node carries depends on its scope in the scope of its listeners only. -/
theorem Schema.Directives.unscoped_traits (value : Binding → Except Fault Value) (scope : ScopeId)
    (d : Directives) :
    (d.traits value scope).map Traits.unscoped = d.traits value Store.rootId := by
  change Traits.unscoped <$> d.traits value scope = _
  unfold Directives.traits
  simp only [map_bind, map_pure]
  unfold Traits.unscoped Traits.mapListeners
  simp only [Listener.unscoped_ofHandlers]

/-- The turns over a source are numbered from zero. -/
theorem Iteration.ofSource_numbered {v : Value} {turns : List Iteration}
    (h : Iteration.ofSource v = .ok turns) : ∃ items, turns = Iteration.numbered 0 items := by
  cases v
  case array items => exact ⟨_, (Except.ok.inj h).symm⟩
  case object members => exact ⟨_, (Except.ok.inj h).symm⟩
  all_goals cases h

/-! ### Steps -/

/-- The steps that building a child at a position may go by. -/
def Site.At (site : Site) (i : Nat) : Step → Prop
  | .space ps _ => site.walked ++ [i] <+: ps
  | _ => False

/-- The steps that building children from a position on may go by. -/
def Site.From (site : Site) (i : Nat) (step : Step) : Prop :=
  ∃ j, i ≤ j ∧ site.At j step

/-- The steps that building the turns of a loop from a number on may go by. -/
def Step.TurnFrom (k : Nat) : Step → Prop
  | .turn j _ => k ≤ j
  | _ => False

/-- The steps that building the contents of slots may go by. -/
def Step.SlotOf (contents : Members Node) : Step → Prop
  | .slot _ name => name ∈ contents.names
  | _ => False

/-- The steps that building a node in its frame may go by. -/
def Site.Own (site : Site) (m : Node) : Step → Prop
  | .space ps _ => site.walked <+: ps
  | .turn _ _ => False
  | .slot _ _ => m.self.ns.isSome

variable {n : Node} {site : Site} {i : Nat} {step : Step} {m : Node} {kids : List Node} {env : Env}

/-- Two children go by different steps. -/
theorem Site.At.inj {j : Nat} (h : site.At i step) (h' : site.At j step) : i = j := by
  cases step with
  | space ps ns =>
    have hi : site.walked ++ [i] <+: ps := h
    have hj : site.walked ++ [j] <+: ps := h'
    have heq := List.prefix_of_prefix_length_le hi hj (by simp)
    have := (List.prefix_append_right_inj site.walked).1 heq
    simpa using this
  | turn j ns => exact h.elim
  | slot ns name => exact h.elim

theorem Site.At.own (h : site.At i step) : site.Own m step := by
  cases step with
  | space ps ns => exact (List.prefix_append _ _).trans h
  | turn j ns => exact h.elim
  | slot ns name => exact h.elim

/-- A node without a namespace has no slots of its own, so it goes by what its position allows. -/
theorem Site.Own.child (hns : m.self.ns = none) (h : (site.child i).Own m step) : site.At i step := by
  cases step with
  | space ps ns => exact h
  | turn j ns => exact h.elim
  | slot ns name =>
    have hsome : m.self.ns.isSome := h
    rw [hns] at hsome
    cases hsome

/-! ### Nodes, loops and slots -/

section Parts

variable {build : Site → Act (Option Rendered)} {draw : Lexical.Drawing}

/-- Building is drawing in every frame of a node. -/
def Drawn (n m : Node) (build : Site → Act (Option Rendered)) (draw : Lexical.Drawing) : Prop :=
  ∀ (site : Site) (env : Env), site.Holds n m →
    Draws n site.way site.scope env (site.Own m) (Option.map Rendered.unscoped) (build site)
      (draw env)

/-- **A node that is no loop.** -/
theorem Site.place_draws (hfree : n.ClashFree) (hb : Drawn n m build draw)
    (h : site.Lists n i (m :: kids)) (hloop : m.self.loop = none) :
    Draws n site.way site.scope env (site.At i) (Option.map Rendered.unscoped)
      (site.place i m.self build) (Lexical.place m.self draw env) := by
  unfold Site.place Lexical.place
  split
  · exact Draws.pure none
  unfold Site.enter Env.enterNode Env.enter
  cases hns : m.self.ns with
  | none => exact (hb (site.child i) env (h.child hns)).mono fun _ => Site.Own.child hns
  | some ns =>
    have hstep := h.step hns
    rw [hloop] at hstep
    have hleads : ((Locus.content n).after (site.way ++ [site.step i ns])).isSome := by
      rw [hstep]
      rfl
    refine Draws.mono ?_ (Draws.enter hleads
      (fun s hs => Site.enterSpace_opens hfree hs rfl m.self.data)
      (Site.enterSpace_enters hleads (h.seed ns)) fun scope => ?_)
    · rintro _ rfl
      exact List.prefix_refl _
    · exact (hb ⟨_, scope, []⟩ _ (.inside hstep)).mono fun _ _ => trivial

/-- **The turns** of a loop, each in a layer of its own. -/
theorem Site.turns_draws (hfree : n.ClashFree) (hb : Drawn n m build draw) (site : Site)
    {ns : String} (hns : m.self.ns = some ns)
    (h : (Locus.content n).after site.way = some (Locus.anchor m)) :
    ∀ (items : List (Value × Value)) (k : Nat),
      Draws n site.way site.scope env (Step.TurnFrom k) (List.map Rendered.unscoped)
        (site.turns ns m.self.data build (Iteration.numbered k items))
        (Lexical.turns m.self draw env (Iteration.numbered k items))
  | [], k => Draws.pure []
  | (key, v) :: rest, k => by
    rw [Iteration.numbered, Site.turns, Lexical.turns, ← bind_assoc]
    have hstep := Site.after_turn hns h k
    have hleads : ((Locus.content n).after (site.way ++ [.turn k ns])).isSome := by
      rw [hstep]
      rfl
    have hnode : Draws n site.way site.scope env (· = .turn k ns) (Option.map Rendered.unscoped)
        (site.enterTurn ns m.self.data ⟨k, v, key⟩ >>= build)
        (draw (env.enterTurn m.self ⟨k, v, key⟩)) := by
      unfold Env.enterTurn Env.enter
      rw [hns]
      refine Draws.enter hleads
        (fun s hs => Site.enterTurn_opens hfree ⟨k, v, key⟩ hs m.self.data)
        (Site.enterTurn_enters ⟨k, v, key⟩ hleads (Site.seed_turn h k ns)) fun scope => ?_
      exact (hb ⟨_, scope, []⟩ _ (.inside hstep)).mono fun _ _ => trivial
    -- this turn goes by its own number, the rest by greater ones
    refine Draws.bind (Q := Step.TurnFrom (k + 1)) ?_ ?_ ?_ hnode fun node => ?_
    · rintro _ rfl
      exact Nat.le_refl k
    · intro step hstep
      cases step with
      | turn j ns => exact Nat.le_of_succ_le hstep
      | space ps ns => exact hstep.elim
      | slot ns name => exact hstep.elim
    · rintro _ rfl hlt
      exact Nat.not_succ_le_self k hlt
    · refine (Site.turns_draws hfree hb site hns h rest (k + 1)).bind_pure _
        (fun more => (node.map Rendered.unscoped).toList ++ more) fun more => ?_
      cases node <;> simp

/-- **A child**, once or as often as its loop says. -/
theorem Builder.child_draws {C : Type} {b : Builder Rendered C} (hfree : n.ClashFree)
    (hoff : b.config.expressions = false) (hb : Drawn n m build draw) (hm : m.Proper)
    (h : site.Lists n i (m :: kids)) :
    Draws n site.way site.scope env (site.At i) (List.map Rendered.unscoped)
      (b.child site i m.self build) (Lexical.child m.self draw env) := by
  unfold Builder.child Lexical.child
  cases hloop : m.self.loop with
  | none =>
    refine (Site.place_draws hfree hb h hloop).bind_pure _ _ fun node => ?_
    cases node <;> rfl
  | some source =>
    simp only
    unfold Builder.loop Lexical.loop
    split
    · exact Draws.pure []
    cases hns : m.self.ns with
    | none =>
      -- a loaded loop has a namespace
      have hnone := (Directives.check_ok hm.check hns).1
      rw [hloop] at hnone
      cases hnone
    | some ns =>
      have hstep := h.step hns
      rw [hloop] at hstep
      have hleads : ((Locus.content n).after (site.way ++ [site.step i ns])).isSome := by
        rw [hstep]
        rfl
      unfold Site.enter Env.enterNode Env.enter
      simp only [hns]
      refine Draws.mono ?_ (Draws.enter hleads
        (fun s hs => Site.enterSpace_opens hfree hs rfl m.self.data)
        (Site.enterSpace_enters hleads (h.seed ns)) fun scope => ?_)
      · rintro _ rfl
        exact List.prefix_refl _
      refine Draws.reads_bind _ (fun s hs => hs.sees.resolve hoff source) fun v => ?_
      cases hsource : Iteration.ofSource v with
      | error e => exact Draws.throw e
      | ok turns =>
        obtain ⟨items, rfl⟩ := Iteration.ofSource_numbered hsource
        simp only [Act.ofExcept, pure_bind]
        exact (Site.turns_draws hfree hb ⟨_, scope, []⟩ hns hstep items 0).mono fun _ _ => trivial

/-- **The content of a slot**, in a layer that holds what the slot was given. -/
theorem Site.slotContent_draws (hfree : n.ClashFree) (hb : Drawn n m build draw) {d : Directives}
    {ns slot : String} (hns : d.ns = some ns)
    (h : (Locus.content n).after (site.way ++ [.slot ns slot]) = some (Locus.content m))
    (hloop : m.self.loop = none) (given : Value) :
    Draws n site.way site.scope env (· = .slot ns slot) (Option.map Rendered.unscoped)
      (site.slotContent ns slot m.self build given)
      (Lexical.place m.self draw (env.enterSlot d slot given)) := by
  have hleads : ((Locus.content n).after (site.way ++ [.slot ns slot])).isSome := by
    rw [h]
    rfl
  unfold Site.slotContent Env.enterSlot
  rw [hns]
  refine Draws.enter hleads (fun s hs => Site.enterSlot_opens hfree hs given)
    (Site.enterSlot_enters hleads given) fun scope => ?_
  exact (Site.place_draws hfree hb (Site.Lists.content h) hloop).mono fun _ _ => trivial

end Parts

/-- **Making a node** whose slots are drawn: a definition given in place asks each of them once, a tag
none. -/
theorem Builder.create_draws {config : Config} {w : Way} {id : ScopeId} {P : Step → Prop}
    {slots : Slots Rendered} (filled : (String → Value) → Except Fault (List Rendered))
    (h : ∀ given, Draws n w id env P (List.map Rendered.unscoped) (Rendered.fillSlots given slots)
      (filled given)) (c : Component) (traits : Traits) (content : Content Rendered) :
    Draws n w id env P (Option.map Rendered.unscoped)
      (do
        return some (← (trees Registry.empty config).renderer.create
          ((trees Registry.empty config).registry.resolve c) ⟨traits, slots⟩ content))
      (match c with
        | .named tag =>
          return some (.element tag traits.unscoped (content.map Rendered.unscoped))
        | .inline definition => do
          let slotted ← filled (Rendered.inlineProps definition)
          return some (.element (Rendered.inlineTag definition) traits.unscoped
            (Rendered.appended slotted (content.map Rendered.unscoped)))) := by
  cases c with
  | named tag =>
    change Draws n w id env P _ (pure (some (Rendered.element tag traits content))) _
    simp only
    rw [← Rendered.mapListeners_element]
    exact Draws.pure (some (Rendered.element tag traits content))
  | inline definition =>
    change Draws n w id env P _ ((Rendered.fillSlots (Rendered.inlineProps definition) slots >>=
      fun slotted => pure (Rendered.element (Rendered.inlineTag definition) traits
        (Rendered.appended slotted content))) >>= fun tree => pure (some tree)) _
    rw [bind_assoc]
    simp only [pure_bind]
    refine (h (Rendered.inlineProps definition)).bind_pure
      (fun slotted => some (Rendered.element (Rendered.inlineTag definition) traits
        (Rendered.appended slotted content))) _ fun slotted => ?_
    exact congrArg some ((Rendered.mapListeners_element _ _ _).trans
      (congrArg _ (Rendered.map_appended _ _)))

/-- **What is in a node**, given that its children are drawn. -/
theorem Builder.content_draws {w : Way} {id : ScopeId} {P : Step → Prop} {value : Binding → Act Value}
    {children : Act (Content Rendered)} {drawn : Except Fault (Content Rendered)} (d : Directives)
    (hvalue : ∀ s, s.store.Sees id env → ∀ binding, Reads s (value binding) (env.value binding))
    (h : Draws n w id env P (Content.map Rendered.unscoped) children drawn) :
    Draws n w id env P (Content.map Rendered.unscoped) (d.content value children)
      (d.content env.value drawn) := by
  have hown : Draws n w id env (fun _ => False) (Option.map (Content.map Rendered.unscoped))
      (d.ownContent value) (d.ownContent env.value) := by
    rw [← d.map_ownContent Rendered.unscoped env.value]
    exact Draws.reads _ fun s hs =>
      d.ownContent_corresponds (Corresponds.reads s) (hvalue s hs.sees)
  refine Draws.bind (P := fun _ => False) nofun (fun _ h => h) nofun hown fun own => ?_
  cases own with
  | some content => exact Draws.pure content
  | none => exact h

section Nodes

set_option linter.unusedSectionVars false

variable {config : Config} (hfree : n.ClashFree) (hoff : config.expressions = false)

include hfree hoff

mutual

/-- **Building a node** comes to what it is drawn as in the layers around it. -/
theorem Schema.Node.build_draws : ∀ (m : Node), m.All Node.Proper →
    Drawn n m (m.build (Builder.trees Registry.empty config)) (Lexical.draw m)
  | .mk d kids contents, hproper, site, env, hsite => by
    have hvalue : ∀ s, s.store.Sees site.scope env → ∀ binding,
        Reads s ((Builder.trees Registry.empty config).value site binding) (env.value binding) :=
      fun s hs binding => hs.resolve hoff binding
    rw [Node.build, Lexical.draw]
    refine Draws.reads_bind _
      (fun s hs => d.present_corresponds (Corresponds.reads s) (hvalue s hs.sees)) fun present => ?_
    split
    · exact Draws.pure none
    refine Draws.bind (P := fun _ => False) (Q := site.Own (.mk d kids contents)) nofun
      (fun _ h => h) nofun (f := Traits.unscoped) ?_ fun traits => ?_
    · rw [← d.unscoped_traits env.value site.scope]
      exact Draws.reads _ fun s hs =>
        d.traits_corresponds (Corresponds.reads s) (hvalue s hs.sees) site.scope
    -- a node has children or slots, so one of them has all steps for itself
    by_cases hempty : contents.isEmpty = true
    · rw [if_pos hempty, if_pos hempty]
      have hkids : Draws n site.way site.scope env (site.From 0) (Content.map Rendered.unscoped)
          (Node.buildKids (Builder.trees Registry.empty config) kids site)
          (Lexical.drawKids kids env) :=
        Schema.Node.buildKids_draws kids site env hproper.kids hsite.kids
      refine Draws.bind (Q := fun _ => False) (fun step h => ?_) nofun (fun _ _ h => h)
        (Builder.content_draws d hvalue hkids) fun content => ?_
      · obtain ⟨j, -, hat⟩ := h
        exact hat.own
      · obtain rfl := List.isEmpty_iff.1 hempty
        refine Builder.create_draws (fun given => Lexical.drawSlots d given [] env) (fun given => ?_)
          d.component traits content
        rw [Lexical.drawSlots]
        exact Draws.pure []
    · rw [if_neg hempty, if_neg hempty]
      unfold Builder.slotSpace
      cases hns : d.ns with
      | none =>
        have hslots := (Directives.check_ok hproper.self.check hns).2.1
        simp [Node.slots, hempty] at hslots
      | some ns =>
        simp only [pure_bind]
        have hown : ∀ step, Step.SlotOf contents step → site.Own (.mk d kids contents) step := by
          intro step hstep
          cases step with
          | slot ms name => exact Option.isSome_of_mem hns
          | space ps ms => exact hstep.elim
          | turn j ms => exact hstep.elim
        refine Draws.mono hown (Builder.create_draws
          (fun given => Lexical.drawSlots d given contents env) (fun given => ?_) d.component traits
          .none)
        refine Schema.Node.fillSlots_draws contents d ns site env given hns hproper.contents
          hproper.self.distinct hproper.self.once fun slot k hk => ?_
        obtain ⟨l, hl, hls⟩ := hsite.slots ns hns
        rw [Locus.after_concat, hl, Option.bind_some, Locus.next, hls, Option.bind_some, if_pos rfl]
        exact congrArg (Option.map Locus.content) hk

/-- Building the children of a node. -/
theorem Schema.Node.buildKids_draws : ∀ (kids : Option (List Node)) (site : Site) (env : Env),
    Node.AllKids Node.Proper (kids.getD []) → site.Lists n 0 (kids.getD []) →
      Draws n site.way site.scope env (site.From 0) (Content.map Rendered.unscoped)
        (Node.buildKids (Builder.trees Registry.empty config) kids site) (Lexical.drawKids kids env)
  | none, site, env, _, _ => by
    rw [Node.buildKids, Lexical.drawKids]
    exact Draws.pure Content.none
  | some kids, site, env, hproper, hsite => by
    rw [Node.buildKids, Lexical.drawKids]
    exact (Schema.Node.buildAll_draws kids site env 0 hproper hsite).bind_pure _ _ fun _ => rfl

/-- Building nodes in order. -/
theorem Schema.Node.buildAll_draws : ∀ (kids : List Node) (site : Site) (env : Env) (i : Nat),
    Node.AllKids Node.Proper kids → site.Lists n i kids →
      Draws n site.way site.scope env (site.From i) (List.map Rendered.unscoped)
        (Node.buildAll (Builder.trees Registry.empty config) kids site i) (Lexical.drawAll kids env)
  | [], site, env, i, _, _ => by
    rw [Node.buildAll, Lexical.drawAll]
    exact Draws.pure []
  | m :: rest, site, env, i, hproper, hsite => by
    rw [Node.buildAll, Lexical.drawAll]
    -- the first child goes by position `i`, the rest by later ones
    refine Draws.bind (Q := site.From (i + 1)) (fun _ h => ⟨i, Nat.le_refl i, h⟩) ?_ ?_
      (Builder.child_draws hfree hoff (Schema.Node.build_draws m hproper.1) hproper.1.self hsite)
      fun nodes => ?_
    · rintro _ ⟨j, hj, hat⟩
      exact ⟨j, Nat.le_of_succ_le hj, hat⟩
    · rintro _ hat ⟨j, hj, hat'⟩
      exact Nat.not_succ_le_self i (hat.inj hat' ▸ hj)
    · exact (Schema.Node.buildAll_draws rest site env (i + 1) hproper.2 hsite.tail).bind_pure _
        (fun more => nodes.map Rendered.unscoped ++ more) fun _ => List.map_append

/-- Asking the slots of a definition given in place. -/
theorem Schema.Node.fillSlots_draws : ∀ (contents : Members Node) (d : Directives) (ns : String)
    (site : Site) (env : Env) (given : String → Value), d.ns = some ns →
      Node.AllContents Node.Proper contents → contents.Distinct →
      (∀ c ∈ contents, c.2.self.loop = none) →
      (∀ slot k, contents.get? slot = some k →
        (Locus.content n).after (site.way ++ [.slot ns slot]) = some (Locus.content k)) →
      Draws n site.way site.scope env (Step.SlotOf contents) (List.map Rendered.unscoped)
        (Rendered.fillSlots given
          (Node.buildSlots (Builder.trees Registry.empty config) ns site contents))
        (Lexical.drawSlots d given contents env)
  | [], d, ns, site, env, given, _, _, _, _, _ => by
    rw [Node.buildSlots, Lexical.drawSlots]
    exact Draws.pure []
  | (name, m) :: rest, d, ns, site, env, given, hns, hproper, hdistinct, honce, hafter => by
    unfold Members.Distinct Members.names at hdistinct
    rw [List.map_cons, List.nodup_cons] at hdistinct
    rw [Node.buildSlots, Lexical.drawSlots, Rendered.fillSlots]
    -- no two slots have one name
    refine Draws.bind (Q := Step.SlotOf rest) ?_ ?_ ?_ (Site.slotContent_draws hfree
      (Schema.Node.build_draws m hproper.1) hns
      (hafter name m (by rw [Members.get?_cons, if_pos rfl])) (honce _ List.mem_cons_self)
      (given name)) fun node => ?_
    · rintro _ rfl
      exact List.mem_cons_self
    · intro step hstep
      cases step with
      | slot ms other => exact List.mem_cons_of_mem _ hstep
      | space ps ms => exact hstep.elim
      | turn j ms => exact hstep.elim
    · rintro _ rfl hmem
      exact hdistinct.1 hmem
    · have hrest := Schema.Node.fillSlots_draws rest d ns site env given hns hproper.2 hdistinct.2
        (fun c hc => honce c (List.mem_cons_of_mem _ hc)) fun other k hk => hafter other k (by
          rw [Members.get?_cons, if_neg]
          · exact hk
          · rintro rfl
            exact hdistinct.1 (Members.mem_names_of_get? hk))
      refine hrest.bind_pure _ (fun more => (node.map Rendered.unscoped).toList ++ more)
        fun more => ?_
      cases node <;> simp

end

end Nodes

end Trellis
