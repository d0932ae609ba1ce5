import Trellis.Proofs.View.Asking

/-!
# Slots are asked afresh

A host may ask a slot whenever it likes, in the pass that has built the slot's owner or later, also
when the owner's frame was dropped in the meantime. Whatever was done before, what the slot builds
for a value does not depend on what it was asked before.

* `Session.Places`: a frame that was entered is where it was, or it is gone.
* `View.Reached`: the views that moves and asking slots lead to.
* `View.Reached.grounded`: their frames are in place.
* `View.slots_fresh`: slots that are asked again.
-/

namespace Trellis

open Schema Session Act Value

/-! ### Frames that were entered once -/

namespace Session

variable {n : Node} {s t : Session} {x : Visit}

/-- The frame that was entered is where it was, or it is gone for good. -/
structure Places (s : Session) (x : Visit) : Prop where
  known : x.scope < s.store.nextId
  path : ∀ f, s.store.frame? x.scope = some f → f.path = x.way.address

theorem Built.places (hs : s.Built n) (hx : x ∈ s.visits) : s.Places x := by
  obtain ⟨f, hf, hp, -⟩ := hs.placed.touched x hx
  refine ⟨hs.placed.sound.fresh _ f hf, fun g hg => ?_⟩
  rw [hf] at hg
  cases hg
  exact hp

/-- It stays so, since numbers are not given twice. -/
theorem Places.later (h : s.Places x) (hst : s.store.Later t.store) : t.Places x where
  known := Nat.lt_of_lt_of_le h.known hst.numbers
  path g hg := by
    obtain ⟨f, hf, hp⟩ := hst.before _ g hg h.known
    exact hp.trans (h.path f hf)

theorem Places.of_ageless (h : s.Places x) (hst : t.store.ageless = s.store.ageless) :
    t.Places x where
  known := by
    rw [(Store.of_ageless hst).2]
    exact h.known
  path g hg := by
    obtain ⟨f, hf, hfg⟩ := Store.frame?_of_ageless hst.symm hg
    obtain ⟨hpath, -⟩ := Frame.of_ageless hfg
    exact hpath.symm.trans (h.path f hf)

end Session

/-! ### Later views -/

section Later

variable {config : Config} {v : View Rendered Rendered.Component}

/-- **Every move** leaves a later store. -/
theorem View.step_later (hbuilder : v.builder = Builder.bare config) (move : Move) :
    v.session.Later (v.step move).session := by
  cases move with
  | render =>
    have hbegun : v.session.Later v.session.begun := .of_attempt .beginPass rfl
    have hroot : v.session.Later (((Builder.bare config).root v.schema).runOn v.session.begun).2 :=
      IsTrans.trans _ _ _ hbegun (((Builder.later_parts config).root v.schema).1 v.session.begun)
    change v.session.Later v.render.2.session
    rw [v.render_session, View.pass_eq, hbuilder]
    generalize ((Builder.bare config).root v.schema).runOn v.session.begun = r at hroot
    obtain ⟨_ | node, u⟩ := r
    · exact hroot
    · exact IsTrans.trans _ _ _ hroot (.of_attempt .finishPass rfl)
  | fire listeners args =>
    exact Rendered.fireAll_keeps v.builder.config args listeners .null v.session
  | write scope path x =>
    have hkeeps : Keeps Session.Later (Act.writingPath scope path x) :=
      Keeps.writing fun s handle hw =>
        AllowsEvaluation.write s scope path.ns path.keys x handle (Handle.write_of_writePath hw)
    exact hkeeps v.session
  | add scope ns members =>
    exact ((Builder.later_parts config).addData scope ns members).1 v.session

variable (config) in
/-- So does asking a slot. -/
theorem Site.ask_later (owner : Site) (ns name : String) (m : Node) (p : Value) (s : Session) :
    s.Later ((owner.ask config ns name m p).runOn s).2 :=
  ((Builder.later_parts config).slotContent
    (fun site => Node.build_parts (Builder.later_parts config) m site) owner ns name m.self p).1 s

end Later

/-! ### Reached views -/

/-- The views that are reached when a schema is mounted, by moves and by asking slots of nodes whose
frames were entered at any time, together with all the frames that were entered. -/
inductive View.Reached (n : Node) (config : Config) :
    List Visit → View Rendered Rendered.Component → Prop
  | mounted (k : Nat) : Reached n config [] (View.mount n (Builder.bare config) k)
  | moved {entered : List Visit} {v : View Rendered Rendered.Component}
      (h : Reached n config entered v) (move : Move) :
      Reached n config ((v.step move).session.visits ++ entered) (v.step move)
  | asked {entered : List Visit} {v : View Rendered Rendered.Component} {owner : Site}
      {ns name : String} {m : Node} (h : Reached n config entered v)
      (howner : ⟨owner.way, owner.scope⟩ ∈ entered)
      (hk : (Locus.content n).after (owner.way ++ [.slot ns name]) = some (Locus.content m))
      (given : Value) :
      Reached n config ((v.perform (owner.ask config ns name m given)).2.session.visits ++ entered)
        (v.perform (owner.ask config ns name m given)).2

section Reached

variable {n m : Node} {config : Config} {entered : List Visit} {owner : Site} {ns name : String}
  {s : Session} {v : View Rendered Rendered.Component} (hn : n.All Node.Orderly)
  (hfree : n.ClashFree) (hoff : config.expressions = false)

include hn hfree hoff

/-- **Asking a slot** of a node whose frame was entered once leaves frames in place, those that were
entered before and those that are entered now. -/
theorem Session.Grounded.asked (hs : s.Grounded n) (hplaces : s.Places ⟨owner.way, owner.scope⟩)
    (hk : (Locus.content n).after (owner.way ++ [.slot ns name]) = some (Locus.content m))
    (p : Value) :
    let t := ((owner.ask config ns name m p).runOn s).2
    t.Grounded n ∧ ∀ x ∈ t.visits, x ∈ s.visits ∨ t.Places x := by
  intro t
  have hlater : s.store.Later t.store := Site.ask_later config owner ns name m p s hs.sound
  have hleads : ((Locus.content n).after owner.way).isSome :=
    Locus.leads_of_append (by rw [hk]; rfl)
  cases hf : s.store.frame? owner.scope with
  | none =>
    have hsame : t = s := by
      change ((owner.ask config ns name m p).runOn s).2 = s
      rw [Site.ask_released hf]
    rw [hsame]
    exact ⟨hs, fun x hx => .inl hx⟩
  | some f =>
    -- the same frames are entered where the slot can be built
    obtain ⟨u, hu, hbuilt, huw, -⟩ := hs.settle hfree hleads hf (hplaces.path f hf)
    have hparallel : Parallel s u s u := .start (by rw [hu, Store.ageless_ageless])
    obtain ⟨hscopes, new, hnew, hnew'⟩ := (Site.ask_parallel hoff owner ns name m p s u hparallel).2
    have hbuilt' := (Site.ask_stays hn hoff hk p u hbuilt huw).1
    refine ⟨hbuilt'.grounded.of_scopes hlater.sound hscopes, fun x hx => ?_⟩
    rw [hnew, List.mem_append] at hx
    refine hx.symm.imp_right fun hx => ?_
    have hplaces' : ((owner.ask config ns name m p).runOn u).2.Places x :=
      hbuilt'.places (by rw [hnew']; exact List.mem_append_left _ hx)
    exact hplaces'.of_ageless hscopes

/-- **Every reached view** builds its schema, its frames are in place, and so are all that were
entered, as far as they are live. -/
theorem View.Reached.grounded (h : View.Reached n config entered v) :
    v.Builds (Builder.bare config) n ∧ v.session.Grounded n ∧ v.session.visits ⊆ entered ∧
      ∀ x ∈ entered, v.session.Places x := by
  induction h with
  | mounted k =>
    have hmounted := View.mount_built n (Builder.bare config) k
    exact ⟨hmounted.toBuilds, hmounted.session.grounded, List.Subset.refl _, nofun⟩
  | @moved entered v _ move ih =>
    obtain ⟨hbuilds, hgrounded, hvisits, hplaces⟩ := ih
    have hlater := View.step_later hbuilds.builder move hgrounded.sound
    have hrender := hbuilds.render_built (Builder.bare_confined config) hn hgrounded.begun
    refine ⟨hbuilds.step move, ?_, List.subset_append_left _ _, fun x hx => ?_⟩
    · by_cases hmove : move = .render
      · subst hmove
        exact hrender.grounded
      · exact hgrounded.of_outline (v.step_outline hmove).outline
    · rcases List.mem_append.1 hx with hx | hx
      · by_cases hmove : move = .render
        · subst hmove
          exact hrender.places hx
        · rw [(v.step_outline hmove).visits] at hx
          exact (hplaces x (hvisits hx)).later hlater
      · exact (hplaces x hx).later hlater
  | @asked entered v owner ns name m _ howner hk given ih =>
    obtain ⟨hbuilds, hgrounded, hvisits, hplaces⟩ := ih
    have hlater := Site.ask_later config owner ns name m given v.session hgrounded.sound
    obtain ⟨hafter, hnew⟩ := hgrounded.asked hn hfree hoff (hplaces _ howner) hk given
    -- asking a slot leaves the view what it is but for the session
    refine ⟨⟨hbuilds.builder, hbuilds.root⟩, hafter, List.subset_append_left _ _, fun x hx => ?_⟩
    rcases List.mem_append.1 hx with hx | hx
    · rcases hnew x hx with hx | hx
      · exact (hplaces x (hvisits hx)).later hlater
      · exact hx
    · exact (hplaces x hx).later hlater

end Reached

/-- **Slots are fresh.** With expressions switched off and no components, take a node of a schema
without a slash in the names of its slots, built at a site, and one of the factories it hands to the
renderer. In every view that moves and asking slots lead to, if the frame of the site was ever
entered, and in every session that a pass over such a view goes through, if the pass has entered the
frame: what the factory makes of a value after it was called for any others is what it makes of the
value alone. -/
theorem View.slots_fresh {n k : Node} (hn : n.All Node.Proper) (hnames : n.All Node.Unslashed)
    {config : Config} (hoff : config.expressions = false) {owner : Site} (hk : owner.Holds n k)
    {ns : String} (hns : k.self.ns = some ns) {slot : String × (Value → Act (Option Rendered))}
    (hslot : slot ∈ Node.buildSlots (Builder.bare config) ns owner k.slots)
    {entered : List Visit} {v : View Rendered Rendered.Component}
    (hv : View.Reached n config entered v) (ps : List Value) (p : Value) :
    (⟨owner.way, owner.scope⟩ ∈ entered →
      (slot.2 p).makes (Act.each slot.2 ps v.session) = (slot.2 p).makes v.session) ∧
    ∀ w given s, Given n w given v.session.begun s → s.Has owner.way owner.scope →
      (slot.2 p).makes (Act.each slot.2 ps s) = (slot.2 p).makes s := by
  have hfree := Node.ClashFree.of_unslashed hnames
  have horderly : n.All Node.Orderly := hn.orderly
  obtain ⟨m, hm, hask⟩ := hk.asks horderly hns hslot
  obtain ⟨-, hgrounded, -, hplaces⟩ := hv.grounded horderly hfree hoff
  rw [hask]
  refine ⟨fun howner => ?_, fun w given s hgiven hw => ?_⟩
  · exact hgrounded.ask_each horderly hfree hoff hm (hplaces _ howner).path ps p
  · have hs : s.Built n := hgiven.built hgrounded.begun
    refine hs.grounded.ask_each horderly hfree hoff hm (fun f hf => ?_) ps p
    obtain ⟨g, hg, hp⟩ := hw.frame hs
    rw [hf] at hg
    cases hg
    exact hp

/-- A list of what the slot is given. -/
def cellNode : Node :=
  .mk
    { Directives.plain (.named "ul") with
      ns := some "cell"
      data := some [("seen", .string "fresh")] }
    (some
      [.mk
        { Directives.plain (.named "li") with
          ns := some "item"
          loop := some (.path ⟨"root", some "default", ["items"]⟩)
          boundText := some (.path ⟨"item", none, ["$for", "value"]⟩) } none []])
    []

/-- A component that asks its slot for a list of one item. -/
def shelfNode : Node :=
  .mk
    { Directives.plain (.inline (.object [("slotProps", .object
        [("default", .object [("items", .array [.string "a"])])])])) with
      ns := some "root" }
    none [("default", cellNode)]

/-- After a render the slot is asked for a list of three items, then for none, which fails, and then
for a list of two. -/
theorem View.slots_fresh_shelf :
    let v := (View.mount shelfNode (Builder.bare Config.default) 0).step .render
    let owner : Site := ⟨[.space [0] "root"], 1, []⟩
    let ask := owner.ask Config.default "root" "default" cellNode
    let three : Value := .object [("items", .array [.string "a", .string "b", .string "c"])]
    let two : Value := .object [("items", .array [.string "d", .string "e"])]
    (((ask three).makes v.session).isOk ∧ ((ask .null).makes v.session).isOk = false ∧
        ((ask two).makes v.session).isOk) ∧
      (ask two).makes (Act.each ask [three, .null] v.session) = (ask two).makes v.session := by
  have hcell : cellNode.All Node.Proper :=
    ⟨⟨List.nodup_nil, rfl, nofun⟩, ⟨⟨⟨List.nodup_nil, rfl, nofun⟩, trivial⟩, trivial⟩, trivial⟩
  have hproper : shelfNode.All Node.Proper := by
    refine ⟨⟨List.nodup_singleton _, rfl, fun c hc => ?_⟩, hcell, trivial⟩
    rw [List.mem_singleton.1 hc]
    rfl
  have hnames : shelfNode.All Node.Unslashed :=
    ⟨by unfold Node.Unslashed; decide, ⟨nofun, ⟨⟨nofun, trivial⟩, trivial⟩, trivial⟩, trivial⟩
  have hholds : Site.Holds shelfNode ⟨[.space [0] "root"], 1, []⟩ shelfNode := .inside rfl
  have hslot : ("default", Site.ask Config.default ⟨[.space [0] "root"], 1, []⟩ "root" "default"
      cellNode) ∈ Node.buildSlots (Builder.bare Config.default) "root"
        ⟨[.space [0] "root"], 1, []⟩ shelfNode.slots := List.mem_cons_self
  have hstart : View.Reached shelfNode Config.default []
      (View.mount shelfNode (Builder.bare Config.default) 0) := .mounted 0
  have hreached := hstart.moved .render
  have hentered : ⟨[.space [0] "root"], 1⟩ ∈
      ((View.mount shelfNode (Builder.bare Config.default) 0).step .render).session.visits ++
        [] := by
    decide +kernel
  dsimp only
  exact ⟨⟨by decide +kernel, by decide +kernel, by decide +kernel⟩,
    (View.slots_fresh hproper hnames rfl hholds rfl hslot hreached _ _).1 hentered⟩

end Trellis
