import Trellis.Proofs.Build.Once
import Trellis.Proofs.Rendered.Steady
import Trellis.Proofs.Scope.Ageless
import Trellis.Proofs.View.Twice

/-!
# Rendering again

With expressions switched off and no components, rendering changes nothing that rendering depends
on: a second pass comes to what the first one came to, and if that is a tree it leaves every frame
as it was.

* `Session.Unwritten`: building writes nothing then.
* `Builder.bare_again`, `Builder.bare_again_error`: a second pass.
* `View.render_idempotent`: after any run of a view.
-/

namespace Trellis

open Schema Session Act Value

/-- Nothing was written in between. -/
def Session.Unwritten (s t : Session) : Prop :=
  t.handle.revision = s.handle.revision

namespace Session

variable {n : Node} {s t u : Session} {w : Way} {id : ScopeId} {data : Value}

theorem Arrives.unwritten (h : s.Arrives n w id data t) : s.Unwritten t := by
  obtain ⟨store, rfl⟩ := h.rest
  rfl

instance : AllowsEntering n Unwritten where
  refl _ := rfl
  trans _ _ _ h h' := Eq.trans h' h
  enter h _ := h.unwritten

end Session

/-- Equal functions are of one name and number. -/
theorem Value.Faithful.eq : Faithful Eq where
  name := by rintro _ _ rfl; rfl
  id := by rintro _ _ _ _ rfl rfl; exact Iff.rfl

namespace Tandem

/-- Two passes between which only equal functions count as the same. -/
def level (n : Node) (s t : Session) (watched : Way → Prop) : Tandem :=
  ⟨n, s.begun, t.begun, watched, fun _ => Eq⟩

variable {n : Node} {s t : Session} {watched : Way → Prop}

theorem level_regular (hn : n.All Node.Orderly) : (level n s t watched).Regular where
  orderly := hn
  shared := hn.imp fun m _ => Directives.Over.of_forall (fun v _ => Alike.self v) m.self

theorem level_fair (hfree : n.ClashFree) : (level n s t watched).Fair where
  free := hfree
  mono _ _ _ := id
  faithful _ := Faithful.eq

end Tandem

section Off

variable {n : Node} {config : Config} {s t : Session}

/-- The builder of plain trees without components. -/
abbrev Builder.bare (config : Config) : Builder Rendered Rendered.Component :=
  Builder.trees Registry.empty config

/-- No component is known. -/
theorem Registry.forall_empty {C : Type} {P : C → Prop} (name : String) (make : C)
    (h : Registry.empty name = some make) : P make := by
  cases h

theorem Builder.bare_lets (R : Session → Session → Prop) [Std.Refl R] [IsTrans Session R] :
    (Builder.bare config).Lets R :=
  Rendered.lets Registry.forall_empty config

variable (hn : n.All Node.Orderly) (hfree : n.ClashFree) (hoff : config.expressions = false)

include hn hfree hoff

omit hfree in
/-- **Building a schema** writes nothing, and leaves what stands. -/
theorem Builder.bare_passes (hs : s.Built n) :
    s.Passes n (((Builder.bare config).root n).runOn s.begun).2 ∧
      s.Unwritten (((Builder.bare config).root n).runOn s.begun).2 := by
  have hunwritten := (Builder.bare config).root_stays (K := Unwritten)
    (fun w id => (Builder.bare_lets _).respects_off hoff) hn s.begun hs.beginPass
    (.inl ⟨rfl, rfl⟩)
  exact ⟨Builder.root_passes (fun w id => (Builder.bare_lets _).respects) hn hs,
    hunwritten.2.2⟩

/-- **Two passes** in sessions of which the same stands on the ways the first one goes. -/
theorem Builder.bare_meet (watched : Way → Prop) (hs : s.Built n) (ht : t.Built n)
    (hroot : watched [])
    (hstands : ∀ w, watched w → ((Locus.content n).after w).isSome →
      t.standing n w = s.standing n w)
    (hwatched : ∀ v ∈ (((Builder.bare config).root n).runOn s.begun).2.visits, watched v.way) :
    (Tandem.level n s t watched).Meets Tandem.Pairs.root
      (fun P => Option.Rel (Rendered.Like Eq P.Scopes))
      (((Builder.bare config).root n).runOn s.begun)
      (((Builder.bare config).root n).runOn t.begun) := by
  have hc : (Tandem.level n s t watched).Fair := Tandem.level_fair hfree
  refine Tandem.passes_meet hc (Tandem.level_regular hn)
    (Rendered.trees_steady hc Registry.forall_empty Registry.forall_empty config)
    (hc.agrees_off hoff) ⟨rfl, rfl, hs, ht, hroot, fun w hw hleads => ?_⟩ hwatched
  change Alike Eq (s.standing n w) (t.standing n w)
  rw [hstands w hw hleads]
  exact Alike.self _

/-- **After a pass that fails** the next one fails with the same fault. -/
theorem Builder.bare_again_error (hs : s.Built n) {e : Fault}
    (hrun : (((Builder.bare config).root n).runOn s.begun).1 = .error e) :
    (((Builder.bare config).root n).runOn
      (((Builder.bare config).root n).runOn s.begun).2.begun).1 = .error e := by
  obtain ⟨hpasses, hunwritten⟩ := Builder.bare_passes hn hoff hs
  have hmeets := Builder.bare_meet hn hfree hoff (fun _ => True) hs hpasses.after trivial
    (fun w _ hleads => hpasses.standing hfree hunwritten hleads) fun _ _ => trivial
  generalize ((Builder.bare config).root n).runOn s.begun = x at hrun hmeets
  obtain ⟨_ | node, u⟩ := x <;> cases hrun
  revert hmeets
  rcases ((Builder.bare config).root n).runOn u.begun with ⟨_ | node', u'⟩ <;> intro hmeets
  · exact congrArg Except.error (Eq.symm hmeets)
  · exact hmeets.elim

end Off

/-! ### Frames -/

namespace Session

variable {n : Node} {s u t : Session} {watched : Way → Prop} {P : Tandem.Pairs}

section Again

variable (h : (Tandem.level n s u.finished watched).Abreast P u t) (hu : s.Passes n u)
  (ht : u.finished.Passes n t) (hfree : n.ClashFree)

include h hu ht hfree

/-- A way that both passes went has one frame. -/
theorem Passes.scope_eq {w : Way} {i j : ScopeId} (hij : P w i j) : i = j := by
  obtain ⟨hi, hj⟩ := (h.pairs w i j).1 hij
  obtain ⟨f, hf, hp⟩ := hi.frame hu.after
  obtain ⟨f', hf', hp', -⟩ := ht.persists hfree ((hi.frame?_finished hu.after).trans hf)
  obtain ⟨g, hg, hq⟩ := hj.frame ht.after
  exact ht.after.placed.sound.eq_of_path hf' hg (hp'.trans (hp.trans hq.symm))

/-- A frame that the first pass entered is left by the second one as it was. -/
theorem Passes.frame_again {w : Way} {id : ScopeId} (hw : u.Has w id) :
    (t.finished.store.frame? id).map Frame.ageless =
      (u.finished.store.frame? id).map Frame.ageless := by
  obtain ⟨j, hj⟩ := (h.ways w).1 ⟨id, hw⟩
  have hij := Passes.scope_eq h hu ht hfree ((h.pairs w id j).2 ⟨hw, hj⟩)
  subst hij
  obtain ⟨f, hf, hp⟩ := hw.frame hu.after
  have hleft : u.finished.store.frame? id = some f := (hw.frame?_finished hu.after).trans hf
  obtain ⟨f', hf', hp', hparent, hkind⟩ := ht.persists hfree hleft
  have hdata := h.seen w id id hw hj
  rw [dataAt_eq hu.after.placed.sound hf hp,
    dataAt_eq ht.after.placed.sound hf' (hp'.trans hp)] at hdata
  rw [hj.frame?_finished ht.after, hf', hleft]
  cases hdata with
  | some hdata =>
    unfold Frame.ageless
    rw [Option.map_some, Option.map_some, hp', hparent, hkind, hdata.eq]

/-- **The second pass** leaves every frame as the first one left it. -/
theorem Passes.frames_again (id : ScopeId) :
    (t.finished.store.frame? id).map Frame.ageless =
      (u.finished.store.frame? id).map Frame.ageless := by
  cases hf : u.finished.store.frame? id with
  | some f =>
    obtain ⟨-, w, hw⟩ := hu.frame?_finished.1 hf
    rw [Passes.frame_again h hu ht hfree hw, hf]
  | none =>
    cases hf' : t.finished.store.frame? id with
    | none => rfl
    | some f' =>
      -- what the second pass entered the first one entered, too
      obtain ⟨-, w, hw⟩ := ht.frame?_finished.1 hf'
      obtain ⟨i, hi⟩ := (h.ways w).2 ⟨id, hw⟩
      have hij := Passes.scope_eq h hu ht hfree ((h.pairs w i id).2 ⟨hi, hw⟩)
      subst hij
      have hagain := Passes.frame_again h hu ht hfree hi
      rw [hf, hf'] at hagain
      cases hagain

end Again

end Session

/-- **After a pass that succeeds** the next one makes the same tree, and leaves the same frames. -/
theorem Builder.bare_again {n : Node} {config : Config} {s u : Session} (hn : n.All Node.Orderly)
    (hfree : n.ClashFree) (hoff : config.expressions = false) (hs : s.Built n)
    {node : Option Rendered}
    (hrun : ((Builder.bare config).root n).runOn s.begun = (.ok node, u)) :
    ∃ t, ((Builder.bare config).root n).runOn u.finished.begun = (.ok node, t) ∧
      ∀ id, (t.finished.store.frame? id).map Frame.ageless =
        (u.finished.store.frame? id).map Frame.ageless := by
  obtain ⟨hu, hunwritten⟩ := Builder.bare_passes hn hoff hs
  rw [hrun] at hu hunwritten
  have ht := (Builder.bare_passes hn hoff hu.after.finished).1
  -- what stands on the ways of the first pass stands after it
  have hmeets := Builder.bare_meet hn hfree hoff (fun w => ∃ id, u.Has w id) hs
    hu.after.finished ⟨_, .inl ⟨rfl, rfl⟩⟩
    (fun w ⟨_, hw⟩ _ => hu.standing_finished hfree hunwritten hw) fun v hv => by
      rw [hrun] at hv
      exact ⟨v.scope, .inr hv⟩
  rw [hrun] at hmeets
  generalize ((Builder.bare config).root n).runOn u.finished.begun = y at ht hmeets
  obtain ⟨_ | node', t⟩ := y
  · exact hmeets.elim
  · obtain ⟨P, -, hnode, habreast⟩ := hmeets
    refine ⟨t, ?_, Passes.frames_again habreast hu ht hfree⟩
    have hscopes : ∀ i j, P.Scopes i j → i = j := fun i j ⟨_, hij⟩ =>
      Passes.scope_eq habreast hu ht hfree hij
    cases hnode with
    | none => rfl
    | some hlike => rw [(hlike.mono (fun _ _ => id) hscopes).eq]

theorem Builder.bare_confined (config : Config) : (Builder.bare config).Confined :=
  Rendered.confined Registry.forall_empty config

/-- **Rendering is idempotent.** In any view without a slash in the names of its slots, with
expressions switched off and no components, two renders in a row come to the same, whatever was done
to the view before; and if they succeed the second one leaves every frame as the first one left
it. -/
theorem View.render_idempotent {n : Node} (hslots : n.All fun m => m.slots.Distinct)
    (hnames : n.All Node.Unslashed) {config : Config} (hoff : config.expressions = false) (k : Nat)
    (moves : List Move) :
    let v := (View.mount n (Builder.bare config) k).run moves
    v.render.2.render.1 = v.render.1 ∧
      ∀ node, v.render.1 = .ok node → ∀ id,
        (v.render.2.render.2.session.store.frame? id).map Frame.ageless =
          (v.render.2.session.store.frame? id).map Frame.ageless := by
  intro v
  have horderly : n.once.All Node.Orderly := Node.orderly_once hslots
  have hfree : n.once.ClashFree := Node.clashFree_once hnames
  have hv : v.Built (Builder.bare config) n.once :=
    (View.mount_once n (Builder.bare config) k).run (Builder.bare_confined config) horderly moves
  cases hrun : ((Builder.bare config).root n.once).runOn v.session.begun with
  | mk outcome u =>
    cases outcome with
    | error e =>
      obtain ⟨hout, hsession⟩ := hv.render_error hrun
      have hagain := Builder.bare_again_error horderly hfree hoff hv.session (by rw [hrun])
      rw [hrun, ← hsession] at hagain
      rw [hout, hv.toBuilds.render.render_outcome]
      exact ⟨hagain, nofun⟩
    | ok node =>
      obtain ⟨hout, hsession⟩ := hv.render_ok hrun
      obtain ⟨t, hagain, hframes⟩ := Builder.bare_again horderly hfree hoff hv.session hrun
      rw [← hsession] at hagain hframes
      obtain ⟨hout', hsession'⟩ := hv.toBuilds.render.render_ok hagain
      rw [hout, hout', hsession']
      exact ⟨rfl, fun _ _ => hframes⟩

/-- A list, and a note below it. -/
def listNode : Node :=
  .mk
    { Directives.plain (.named "div") with
      ns := some "n"
      data := some
        [("items", .array [.string "a", .string "b"]), ("note", .object [("t", .string "x")])] }
    (some
      [.mk
        { Directives.plain (.named "p") with
          ns := some "m"
          loop := some (.path ⟨"n", none, ["items"]⟩)
          boundText := some (.path ⟨"m", none, ["$for", "value"]⟩) } none [],
      .mk
        { Directives.plain (.named "b") with
          boundText := some (.path ⟨"n", none, ["note", "t"]⟩) } none []])
    []

theorem listNode_distinct : listNode.All fun m => m.slots.Distinct :=
  ⟨List.nodup_nil, ⟨⟨List.nodup_nil, trivial⟩, ⟨List.nodup_nil, trivial⟩, trivial⟩, trivial⟩

theorem listNode_unslashed : listNode.All Node.Unslashed :=
  ⟨nofun, ⟨⟨nofun, trivial⟩, ⟨nofun, trivial⟩, trivial⟩, trivial⟩

/-- The note is overwritten, so that a render fails, and given its text again. -/
def noteMoves : List Move :=
  [.render, .write 1 ⟨"n", none, ["note"]⟩ (.string "y"), .render,
    .write 1 ⟨"n", none, ["note"]⟩ (.object [("t", .string "z")])]

/-- After a render that failed the list is rendered twice. -/
theorem View.render_idempotent_list :
    let v := (View.mount listNode (Builder.bare Config.default) 0).run noteMoves
    (v.render.1.isOk ∧ v.session.store.size = 5) ∧ v.render.2.render.1 = v.render.1 ∧
      ∀ node, v.render.1 = .ok node → ∀ id,
        (v.render.2.render.2.session.store.frame? id).map Frame.ageless =
          (v.render.2.session.store.frame? id).map Frame.ageless := by
  have hoff : Config.default.expressions = false := rfl
  exact ⟨⟨by decide +kernel, by decide +kernel⟩,
    View.render_idempotent listNode_distinct listNode_unslashed hoff 0 noteMoves⟩

end Trellis
