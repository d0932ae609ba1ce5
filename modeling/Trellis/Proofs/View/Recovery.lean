import Trellis.Proofs.View.Frames
import Trellis.Proofs.View.Idempotent
import Trellis.Proofs.View.Members

/-!
# After a pass that failed

A pass that fails leaves frames it has opened and data it has set, and drops nothing. None of it is
seen by later passes: with expressions switched off and no components, whatever the host writes then,
the next render comes to what it would have come to without the one that failed.

* `Session.Level`: sessions that later passes do not tell apart.
* `Session.Level.write`, `Session.Level.add`: writing to both.
* `View.render_after_failure`: rendering both.
-/

namespace Trellis

open Schema Session Act Value

/-! ### Stores with more frames -/

namespace Store

/-- Every frame of a store is in the other one, at its address, inside the same frame and as what it
was. -/
def Within (base s : Store) : Prop :=
  ∀ id f, base.frame? id = some f →
    ∃ f', s.frame? id = some f' ∧ f'.path = f.path ∧ f'.parent = f.parent ∧ f'.kind = f.kind

variable {base s t : Store} {id : ScopeId} {k : Nat}

/-- A change of a frame is what it makes of that frame. -/
theorem modify_congr (hs : s.Sound) {f : Frame} (hf : s.frame? id = some f) {g g' : Frame → Frame}
    (h : g f = g' f) : s.modify id g = s.modify id g' := by
  unfold modify
  congr 1
  refine List.map_congr_left fun e he => ?_
  split
  · next hid =>
    have hlook : s.frames.lookup e.1 = some e.2 := by
      have hids := hs.ids
      clear hf
      generalize s.frames = l at he hids
      induction l with
      | nil => cases he
      | cons e' l ih =>
        rw [List.map_cons, List.nodup_cons] at hids
        rcases List.mem_cons.1 he with rfl | he
        · exact List.lookup_cons_self
        · have hne : (e.1 == e'.1) = false :=
            beq_eq_false_iff_ne.2 fun heq => hids.1 (heq ▸ List.mem_map_of_mem he)
          rw [List.lookup_cons, hne]
          exact ih he hids.2
    rw [hid] at hlook
    have hframe := hf.symm.trans hlook
    cases hframe
    rw [h]
  · rfl

theorem Within.refl (s : Store) : s.Within s :=
  fun _ f hf => ⟨f, hf, rfl, rfl, rfl⟩

theorem Within.of_outline {s t : Session} (h : s.SameOutline t) : s.store.Within t.store := by
  intro id f hf
  obtain ⟨f', hf', hb⟩ := h.frame? hf
  obtain ⟨hp, hpar, hk, -⟩ := Session.bare_fields hb
  exact ⟨f', hf', hp, hpar, hk⟩

theorem Within.trans (h : base.Within s) (h' : s.Within t) : base.Within t := by
  intro id f hf
  obtain ⟨f', hf', hp, hpar, hk⟩ := h id f hf
  obtain ⟨f'', hf'', hp', hpar', hk'⟩ := h' id f' hf'
  exact ⟨f'', hf'', hp'.trans hp, hpar'.trans hpar, hk'.trans hk⟩

/-- Frames of one number, at one address and of one kind. -/
structure Akin (e e' : ScopeId × Frame) : Prop where
  id : e.1 = e'.1
  path : e.2.path = e'.2.path
  kind : e.2.kind = e'.2.kind

/-- **A whole chain** is the same in all stores that have its frames. -/
theorem Within.chains (hs : base.Within s) (ht : base.Within t)
    (h : (base.chainFrom k id).2 = true) :
    (s.chainFrom k id).2 = true ∧ (t.chainFrom k id).2 = true ∧
      List.Forall₂ Akin (s.chainFrom k id).1 (t.chainFrom k id).1 := by
  induction k generalizing id with
  | zero => cases h
  | succ k ih =>
    cases hf : base.frame? id with
    | none => rw [chainFrom_none hf] at h; cases h
    | some f =>
      obtain ⟨f', hf', hp, hpar, hk⟩ := hs id f hf
      obtain ⟨g, hg, hq, hqar, hl⟩ := ht id f hf
      have hakin : Akin (id, f') (id, g) := ⟨rfl, hp.trans hq.symm, hk.trans hl.symm⟩
      cases hparent : f.parent with
      | none =>
        rw [chainFrom_root hf' (hpar.trans hparent), chainFrom_root hg (hqar.trans hparent)]
        exact ⟨rfl, rfl, .cons hakin .nil⟩
      | some p =>
        rw [chainFrom_parent hf hparent] at h
        obtain ⟨hs', ht', hchains⟩ := ih h
        rw [chainFrom_parent hf' (hpar.trans hparent), chainFrom_parent hg (hqar.trans hparent)]
        exact ⟨hs', ht', .cons hakin hchains⟩

/-- **A namespace** is found in the same frame. -/
theorem Within.space (hs : base.Within s) (ht : base.Within t) (h : (base.chain id).2 = true)
    (ns : String) :
    SameOutcome Akin (s.space id ns) (t.space id ns) := by
  obtain ⟨hs', ht', hchains⟩ := hs.chains ht h
  have hkind : ∀ e e' : ScopeId × Frame, Akin e e' →
      decide (e.2.kind = .space ns) = decide (e'.2.kind = .space ns) := fun e e' h => by rw [h.kind]
  unfold Store.space
  rw [nearest?_of_whole hs', nearest?_of_whole ht']
  unfold chain
  rcases hchains.find?_split hkind with ⟨hl, hm⟩ | ⟨_, x, _, _, y, _, -, -, hx, hy, -, hxy, -⟩
  · rw [hl, hm]
    rfl
  · rw [hx, hy]
    exact hxy

end Store

namespace Session

variable {n : Node} {s t base : Session} {id : ScopeId} {f : Frame}

/-! ### Sessions that are level -/

/-- Sessions that have the frames of an earlier one, and in which the same stands on every way. -/
structure Level (n : Node) (base s t : Session) : Prop where
  before : base.Built n
  left : s.Built n
  right : t.Built n
  within : base.store.Within s.store
  within' : base.store.Within t.store
  ready : s.Ready n
  ready' : t.Ready n
  stands : ∀ w, ((Locus.content n).after w).isSome → s.standing n w = t.standing n w

/-- Further members for the frame at the end of a way. -/
theorem Rewrites.of_extend {w : Way} (hs : s.Built n) (hw : ((Locus.content n).after w).isSome)
    (hf : s.store.frame? id = some f) (hp : f.path = w.address) (members : Members Value) :
    s.Rewrites n w id (f.extend members).data
      (s.withStore (s.store.modify id (Frame.extend · members))) := by
  refine ⟨hs, hw, ⟨f, hf, hp⟩, ?_, rfl⟩
  show s.store.modify id (Frame.extend · members)
    = s.store.modify id fun f' => { f' with data := (f.extend members).data }
  refine Store.modify_congr hs.placed.sound hf ?_
  unfold Frame.extend
  split <;> rfl

namespace Level

variable {w : Way} {v v' : Value} {s' t' : Session}

theorem symm (h : Level n base s t) : Level n base t s :=
  ⟨h.before, h.right, h.left, h.within', h.within, h.ready', h.ready, fun w hw =>
    (h.stands w hw).symm⟩

/-- Other data in the same frames, of which the same lasts. -/
theorem of_rewrites (h : Level n base s t) (hfree : n.ClashFree) (hs : s.Rewrites n w id v s')
    (ht : t.Rewrites n w id v' t') (hready : s'.Ready n) (hready' : t'.Ready n)
    (hv : w.lasting v = w.lasting v') : Level n base s' t' where
  before := h.before
  left := hs.built
  right := ht.built
  within := h.within.trans (.of_outline hs.outline)
  within' := h.within'.trans (.of_outline ht.outline)
  ready := hready
  ready' := hready'
  stands u hu := by
    by_cases hne : u = w
    · subst hne
      unfold Session.standing
      rw [hs.dataAt, ht.dataAt]
      exact hv
    · rw [hs.standing hfree hu fun h => absurd h hne, ht.standing hfree hu fun h => absurd h hne]
      exact h.stands u hu

/-- Other data in one of them, which lasts as it did. -/
theorem of_rewrites_left (h : Level n base s t) (hfree : n.ClashFree)
    (hs : s.Rewrites n w id v s') (hready : s'.Ready n) (hv : w.lasting v = s.standing n w) :
    Level n base s' t :=
  { h with
    left := hs.built
    within := h.within.trans (.of_outline hs.outline)
    ready := hready
    stands := fun u hu => (hs.standing hfree hu fun _ => hv).trans (h.stands u hu) }

/-- The frame at the end of a way, in both. -/
structure Found (n : Node) (s t : Session) (w : Way) (j : ScopeId) (g g' : Frame) : Prop where
  leads : ((Locus.content n).after w).isSome
  left : s.store.frame? j = some g
  right : t.store.frame? j = some g'
  path : g.path = w.address
  path' : g'.path = w.address
  ready : Way.Ready w g.data
  ready' : Way.Ready w g'.data
  lasts : w.lasting g.data = s.standing n w
  lasts' : w.lasting g'.data = s.standing n w

/-- **A namespace** seen from a frame that both have is that of one way. -/
theorem space (h : Level n base s t) (hfree : n.ClashFree)
    (hf : base.store.frame? id = some f) (ns : String) :
    (∃ e, s.store.space id ns = .error e ∧ t.store.space id ns = .error e) ∨
      ∃ w j g g', s.store.space id ns = .ok (j, g) ∧ t.store.space id ns = .ok (j, g') ∧
        Found n s t w j g g' := by
  have hspaces := h.within.space h.within' (h.before.chain_whole hfree id f hf) ns
  revert hspaces
  cases hs : s.store.space id ns with
  | error e =>
    cases ht : t.store.space id ns with
    | error e' => exact fun he => .inl ⟨e, rfl, congrArg Except.error (Eq.symm he)⟩
    | ok y => exact False.elim
  | ok x =>
    cases ht : t.store.space id ns with
    | error e' => exact False.elim
    | ok y =>
      intro hakin
      obtain ⟨j, g⟩ := x
      obtain ⟨j', g'⟩ := y
      obtain ⟨hid, hpath, -⟩ := hakin
      simp only at hid hpath
      subst hid
      have hg := (Store.frame?_of_space hs).1
      have hg' := (Store.frame?_of_space ht).1
      obtain ⟨w, hw, hp, -⟩ := h.left.way_of_live hfree hg
      have hp' := hpath.symm.trans hp
      have hdata := dataAt_eq h.left.placed.sound hg hp
      have hdata' := dataAt_eq h.right.placed.sound hg' hp'
      refine .inr ⟨w, j, g, g', rfl, rfl, hw, hg, hg', hp, hp', h.ready w _ hw hdata,
        h.ready' w _ hw hdata', ?_, ?_⟩
      · unfold Session.standing
        rw [hdata]
        rfl
      · rw [h.stands w hw]
        unfold Session.standing
        rw [hdata']
        rfl

section Write

variable (h : Level n base s t) (hfree : n.ClashFree) (hf : base.store.frame? id = some f)
  {path : Path} {x : Value} {handle handle' : Handle}

include h hfree hf

/-- What a write finds and does in the one session, and what is there in the other. -/
theorem wrote (hs : s.handle.writePath id path x = .ok handle) :
    ∃ w j g g' d, s.handle.Wrote id path.ns path.keys x j g d handle ∧
      t.store.space id path.ns = .ok (j, g') ∧ Found n s t w j g g' ∧
      s.Rewrites n w j d { s with handle := handle } := by
  obtain ⟨j₁, g₁, d, hwrote⟩ := Handle.wrote_of_write (Handle.write_of_writePath hs)
  rcases h.space hfree hf path.ns with ⟨e, he, -⟩ | ⟨w, j, g, g', hsp, hsp', hfound⟩
  · exact absurd (hwrote.space.symm.trans he) nofun
  · cases hwrote.space.symm.trans hsp
    exact ⟨w, _, _, g', d, hwrote, hsp', hfound, h.left, hfound.leads,
      ⟨_, hfound.left, hfound.path⟩, hwrote.store, rfl⟩

/-- A write that succeeds in one of them alone changes what does not last. -/
theorem write_left (hs : s.handle.writePath id path x = .ok handle) {e : Fault}
    (ht : t.handle.writePath id path x = .error e) :
    Level n base { s with handle := handle } t := by
  obtain ⟨w, j, g, g', d, hwrote, hsp', hfound, hrewrites⟩ := h.wrote hfree hf hs
  refine h.of_rewrites_left hfree hrewrites (h.ready.write (Handle.write_of_writePath hs)) ?_
  rcases Way.lasting_replace hfound.ready hfound.ready' (hfound.lasts.trans hfound.lasts'.symm)
    hwrote.below x with hsame | ⟨hleft, -⟩
  · -- the other would have succeeded as well
    rw [hwrote.replaced] at hsame
    cases hd' : g'.data.replace path.keys x with
    | error e' => rw [hd'] at hsame; exact hsame.elim
    | ok d' =>
      obtain ⟨handle', hok⟩ := Handle.write_ok_of_replace hwrote.below hsp' hd'
      rw [Handle.writePath_eq hs, hok] at ht
      cases ht
  · exact (hleft d hwrote.replaced).trans hfound.lasts

/-- A write that succeeds in both makes data that lasts the same. -/
theorem write_both (hs : s.handle.writePath id path x = .ok handle)
    (ht : t.handle.writePath id path x = .ok handle') :
    Level n base { s with handle := handle } { t with handle := handle' } := by
  obtain ⟨w, j, g, g', d, hwrote, hsp', hfound, hrewrites⟩ := h.wrote hfree hf hs
  obtain ⟨j₁, g₁, d', hwrote'⟩ := Handle.wrote_of_write (Handle.write_of_writePath ht)
  cases hwrote'.space.symm.trans hsp'
  refine h.of_rewrites hfree hrewrites ⟨h.right, hfound.leads, ⟨g', hfound.right, hfound.path'⟩,
    hwrote'.store, rfl⟩ (h.ready.write (Handle.write_of_writePath hs))
    (h.ready'.write (Handle.write_of_writePath ht)) ?_
  rcases Way.lasting_replace hfound.ready hfound.ready' (hfound.lasts.trans hfound.lasts'.symm)
    hwrote.below x with hsame | ⟨hleft, hleft'⟩
  · rw [hwrote.replaced, hwrote'.replaced] at hsame
    exact hsame
  · rw [hleft d hwrote.replaced, hleft' d' hwrote'.replaced, hfound.lasts, hfound.lasts']

variable (path x)

/-- **Writing** to both, from a frame that both have. -/
theorem write :
    Level n base ((Act.writingPath id path x).runOn s).2
      ((Act.writingPath id path x).runOn t).2 := by
  rcases Act.writingPath_runOn s id path x with ⟨e, hs, heq⟩ | ⟨handle, hs, heq⟩ <;>
    rcases Act.writingPath_runOn t id path x with ⟨e', ht, heq'⟩ | ⟨handle', ht, heq'⟩ <;>
    rw [heq, heq']
  · exact h
  · exact (h.symm.write_left hfree hf ht hs).symm
  · exact h.write_left hfree hf hs ht
  · exact h.write_both hfree hf hs ht

omit path x in
/-- **Adding** members in both. -/
theorem add (ns : String) (members : Members Value) :
    Level n base ((Act.adding id ns members).runOn s).2 ((Act.adding id ns members).runOn t).2 := by
  rcases h.space hfree hf ns with ⟨e, hsp, hsp'⟩ | ⟨w, j, g, g', hsp, hsp', hfound⟩
  · rw [Act.adding_error hsp, Act.adding_error hsp']
    exact h
  · rw [Act.adding_ok hsp, Act.adding_ok hsp']
    exact h.of_rewrites hfree (.of_extend h.left hfound.leads hfound.left hfound.path members)
      (.of_extend h.right hfound.leads hfound.right hfound.path' members)
      (h.ready.modify (t := s.withStore _) rfl fun w f _ hready => hready.extend members)
      (h.ready'.modify (t := t.withStore _) rfl fun w f _ hready => hready.extend members)
      (Way.lasting_extend hfound.ready hfound.ready' (hfound.lasts.trans hfound.lasts'.symm) members)

end Write

end Level

end Session

/-! ### Host writes -/

/-- What a host writes from a scope that is live. -/
def Move.WritesTo (s : Store) : Move → Prop
  | .render => False
  | .fire _ _ => False
  | .write scope _ _ => (s.frame? scope).isSome
  | .add scope _ _ => (s.frame? scope).isSome

/-- **A host's writes** to both of two views leave their sessions level. -/
theorem View.run_level {N C : Type} {n : Node} {base : Session} (hfree : n.ClashFree)
    {writes : List Move} (hwrites : ∀ m ∈ writes, m.WritesTo base.store) :
    ∀ v w : View N C, Session.Level n base v.session w.session →
      Session.Level n base (v.run writes).session (w.run writes).session := by
  induction writes with
  | nil => exact fun _ _ h => h
  | cons m writes ih =>
    intro v w h
    refine ih (fun m' hm' => hwrites m' (List.mem_cons_of_mem _ hm')) (v.step m) (w.step m) ?_
    have hm := hwrites m List.mem_cons_self
    cases m with
    | render => exact hm.elim
    | fire => exact hm.elim
    | write scope path x =>
      obtain ⟨f, hf⟩ := Option.isSome_iff_exists.1 hm
      exact h.write hfree hf path x
    | add scope ns members =>
      obtain ⟨f, hf⟩ := Option.isSome_iff_exists.1 hm
      exact h.add hfree hf ns members

/-! ### What is found -/

namespace Store

/-- The kind and the data of the frame at an address. -/
def found (s : Store) (path : String) : Option (FrameKind × Value) :=
  ((s.scopeAt? path).bind s.frame?).map fun f => (f.kind, f.data)

/-- Frames of two stores at one address. -/
def SamePlace (s t : Store) (i j : ScopeId) : Prop :=
  ∃ f g, s.frame? i = some f ∧ t.frame? j = some g ∧ f.path = g.path

theorem found_eq {s : Store} (hs : s.Sound) {id : ScopeId} {f : Frame} (hf : s.frame? id = some f) :
    s.found f.path = some (f.kind, f.data) := by
  unfold found
  rw [hs.indexed id f hf, Option.bind_some, hf]
  rfl

end Store

namespace Session

variable {n : Node} {s t u u' : Session} {w : Way} {i j : ScopeId}

section Abreast

variable {c : Tandem} {P : Tandem.Pairs} (habreast : c.Abreast P u u') (hu : s.Passes c.schema u)
  (hu' : t.Passes c.schema u')

include habreast hu hu'

/-- Frames of one way are at one address after both passes. -/
theorem Passes.samePlace (hij : P w i j) :
    u.finished.store.SamePlace u'.finished.store i j := by
  obtain ⟨hi, hj⟩ := (habreast.pairs w i j).1 hij
  obtain ⟨f, hf, hp⟩ := hi.frame hu.after
  obtain ⟨g, hg, hq⟩ := hj.frame hu'.after
  exact ⟨f, g, (hi.frame?_finished hu.after).trans hf, (hj.frame?_finished hu'.after).trans hg,
    hp.trans hq.symm⟩

variable (hfree : c.schema.ClashFree) (heq : c.fellows P = Eq)

include hfree heq

/-- At the end of a way that both passes went the same is found. -/
theorem Passes.found_way (hi : u.Has w i) (hj : u'.Has w j) :
    u.finished.store.found w.address = u'.finished.store.found w.address := by
  obtain ⟨f, hf, hp⟩ := hi.frame hu.after
  obtain ⟨g, hg, hq⟩ := hj.frame hu'.after
  have hfound := Store.found_eq hu.after.finished.placed.sound
    ((hi.frame?_finished hu.after).trans hf)
  have hfound' := Store.found_eq hu'.after.finished.placed.sound
    ((hj.frame?_finished hu'.after).trans hg)
  rw [hp, hu.after.kind_eq hfree hi hf] at hfound
  rw [hq, hu'.after.kind_eq hfree hj hg] at hfound'
  have hdata := habreast.seen w i j hi hj
  rw [dataAt_eq hu.after.placed.sound hf hp, dataAt_eq hu'.after.placed.sound hg hq, heq] at hdata
  cases hdata with
  | some hdata => rw [hfound, hfound', hdata.eq]

/-- **Two passes** that come to the same leave the same at all addresses. -/
theorem Passes.found_eq (path : String) :
    u.finished.store.found path = u'.finished.store.found path := by
  -- what is found was entered
  have hentered : ∀ {s u : Session}, s.Passes c.schema u → u.finished.store.found path ≠ none →
      ∃ w i, u.Has w i ∧ path = w.address := by
    intro s u hu hne
    obtain ⟨x, hx⟩ := Option.ne_none_iff_exists'.1 hne
    obtain ⟨f, hf, -⟩ := Option.map_eq_some_iff.1 hx
    obtain ⟨i, hi, hf⟩ := Option.bind_eq_some_iff.1 hf
    obtain ⟨g, hg, hp⟩ := hu.after.finished.placed.sound.live _ i hi
    obtain ⟨hg', w, hw⟩ := hu.frame?_finished.1 hg
    obtain ⟨g', hg'', hp'⟩ := hw.frame hu.after
    rw [hg'] at hg''
    cases hg''
    exact ⟨w, i, hw, hp.symm.trans hp'⟩
  by_cases hnone : u.finished.store.found path = none
  · by_cases hnone' : u'.finished.store.found path = none
    · rw [hnone, hnone']
    · obtain ⟨w, j, hj, rfl⟩ := hentered hu' hnone'
      obtain ⟨i, hi⟩ := (habreast.ways w).2 ⟨j, hj⟩
      exact Passes.found_way habreast hu hu' hfree heq hi hj
  · obtain ⟨w, i, hi, rfl⟩ := hentered hu hnone
    obtain ⟨j, hj⟩ := (habreast.ways w).1 ⟨i, hi⟩
    exact Passes.found_way habreast hu hu' hfree heq hi hj

end Abreast

end Session

/-! ### Rendering -/

section Render

variable {n : Node} {config : Config} (hn : n.All Node.Orderly) (hfree : n.ClashFree)
  (hoff : config.expressions = false)

include hn hfree hoff

/-- **Rendering from sessions that are level.** -/
theorem View.Builds.render_level {base : Session} {v v' : View Rendered Rendered.Component}
    (hv : v.Builds (Builder.bare config) n) (hv' : v'.Builds (Builder.bare config) n)
    (hlevel : Session.Level n base v.session v'.session) :
    SameOutcome
        (Option.Rel (Rendered.Like Eq
          (v.render.2.session.store.SamePlace v'.render.2.session.store)))
        v.render.1 v'.render.1 ∧
      ∀ node, v.render.1 = .ok node → ∀ path,
        v.render.2.session.store.found path = v'.render.2.session.store.found path := by
  have hu := (Builder.bare_passes hn hoff hlevel.left).1
  have hu' := (Builder.bare_passes hn hoff hlevel.right).1
  have hmeets := Builder.bare_meet hn hfree hoff (fun _ => True) hlevel.left
    hlevel.right trivial (fun w _ hleads => (hlevel.stands w hleads).symm) fun _ _ => trivial
  cases hrun : ((Builder.bare config).root n).runOn v.session.begun with
  | mk outcome u =>
  cases hrun' : ((Builder.bare config).root n).runOn v'.session.begun with
  | mk outcome' u' =>
  rw [hrun] at hu hmeets
  rw [hrun'] at hu' hmeets
  rcases outcome with e | node <;> rcases outcome' with e' | node'
  · have he : e = e' := hmeets
    rw [(hv.render_error hrun).1, (hv'.render_error hrun').1]
    exact ⟨he, nofun⟩
  · exact hmeets.elim
  · exact hmeets.elim
  · obtain ⟨hout, hsession⟩ := hv.render_ok hrun
    obtain ⟨hout', hsession'⟩ := hv'.render_ok hrun'
    obtain ⟨P, -, hnode, habreast⟩ := hmeets
    rw [hout, hout', hsession, hsession']
    refine ⟨?_, fun _ _ => Passes.found_eq habreast hu hu' hfree rfl⟩
    cases hnode with
    | none => exact .none
    | some hlike =>
      exact .some (hlike.mono (fun _ _ => id) fun _ _ ⟨_, hij⟩ =>
        Passes.samePlace habreast hu hu' hij)

/-- **A pass that failed** leaves the session level with the one it began in. -/
theorem View.Built.render_failed_level {v : View Rendered Rendered.Component}
    (hv : v.Built (Builder.bare config) n) (hready : v.session.Ready n) {e : Fault}
    (hfail : v.render.1 = .error e) :
    Session.Level n v.session v.session v.render.2.session := by
  obtain ⟨hpasses, hunwritten⟩ := Builder.bare_passes hn hoff hv.session
  have hsession : v.render.2.session =
      (((Builder.bare config).root n).runOn v.session.begun).2 := by
    cases hrun : ((Builder.bare config).root n).runOn v.session.begun with
    | mk outcome u =>
      cases outcome with
      | ok node => rw [(hv.render_ok hrun).1] at hfail; cases hfail
      | error e => exact (hv.render_error hrun).2
  refine ⟨hv.session, hv.session, ?_, .refl _, ?_, hready,
    hv.render_ready (fun _ => Builder.bare_lets _) hn hfree hready, fun w hleads => ?_⟩
  · rw [hsession]
    exact hpasses.after
  · rw [hsession]
    exact fun id f hf => hpasses.persists hfree hf
  · rw [hsession]
    exact (hpasses.standing hfree hunwritten hleads).symm

end Render

/-- **A pass that failed is not seen** by later ones. In any view without a slash in the names of its
slots, with expressions switched off and no components, whatever a host writes to scopes that were
live before a render that failed, rendering then comes to what it would have come to without that
render, and leaves the same at every address. -/
theorem View.render_after_failure {n : Node} (hslots : n.All fun m => m.slots.Distinct)
    (hnames : n.All Node.Unslashed) {config : Config} (hoff : config.expressions = false) (k : Nat)
    (moves : List Move) :
    let v := (View.mount n (Builder.bare config) k).run moves
    ∀ e, v.render.1 = .error e → ∀ writes : List Move,
      (∀ m ∈ writes, m.WritesTo v.session.store) →
      let x := (v.run writes).render
      let y := (v.render.2.run writes).render
      SameOutcome
          (Option.Rel (Rendered.Like Eq (x.2.session.store.SamePlace y.2.session.store))) x.1 y.1 ∧
        x.1.map (·.map Rendered.toJson) = y.1.map (·.map Rendered.toJson) ∧
        ∀ node, x.1 = .ok node → ∀ path,
          x.2.session.store.found path = y.2.session.store.found path := by
  intro v e hfail writes hwrites x y
  have horderly : n.once.All Node.Orderly := Node.orderly_once hslots
  have hfree : n.once.ClashFree := Node.clashFree_once hnames
  have hmounted := View.mount_once n (Builder.bare config) k
  have hv : v.Built (Builder.bare config) n.once :=
    hmounted.run (Builder.bare_confined config) horderly moves
  have hready : v.session.Ready n.once := hmounted.run_ready (fun _ => Builder.bare_lets _) horderly
    hfree (Session.Ready.start hfree rfl) moves
  have hlevel := hv.render_failed_level horderly hfree hoff hready hfail
  obtain ⟨hsame, hfound⟩ := View.Builds.render_level horderly hfree hoff (hv.toBuilds.run writes)
    (hv.toBuilds.render.run writes) (View.run_level hfree hwrites v v.render.2 hlevel)
  refine ⟨hsame, ?_, hfound⟩
  change SameOutcome _ x.1 y.1 at hsame
  revert hsame
  rcases x.1 with e | node <;> rcases y.1 with e' | node' <;> intro hsame
  · exact congrArg Except.error hsame
  · exact hsame.elim
  · exact hsame.elim
  · cases hsame with
    | none => rfl
    | some hlike => simp only [Except.map, Option.map_some, hlike.toJson_eq]

/-- What is overwritten before a render that fails, and what is written after it. -/
def failingMoves : List Move :=
  [.render, .write 1 ⟨"n", none, ["items"]⟩ (.array [.string "a", .string "b", .string "c"]),
    .write 1 ⟨"n", none, ["note"]⟩ (.string "y")]

/-- A list that has grown is rendered alike, whether or not a render failed that had begun to show
what is new. -/
theorem View.render_after_failure_list :
    let v := (View.mount listNode (Builder.bare Config.default) 0).run failingMoves
    let writes := [Move.write 1 ⟨"n", none, ["note"]⟩ (.object [("t", .string "z")])]
    let x := (v.run writes).render
    let y := (v.render.2.run writes).render
    v.render.1 = .error (.keyMissing "n" "t") ∧ v.session.store.size = 5 ∧
      v.render.2.session.store.size = 6 ∧
      SameOutcome
          (Option.Rel (Rendered.Like Eq (x.2.session.store.SamePlace y.2.session.store))) x.1 y.1 ∧
        x.1.map (·.map Rendered.toJson) = y.1.map (·.map Rendered.toJson) ∧
        ∀ node, x.1 = .ok node → ∀ path,
          x.2.session.store.found path = y.2.session.store.found path := by
  have hoff : Config.default.expressions = false := rfl
  have hafter := View.render_after_failure listNode_distinct listNode_unslashed hoff 0 failingMoves
  generalize hv :
    (View.mount listNode (Builder.bare Config.default) 0).run failingMoves = v at hafter ⊢
  have hfault : (match v.render.1 with
      | .error e => some e
      | .ok _ => none) = some (.keyMissing "n" "t") := by
    rw [← hv]
    decide +kernel
  have hfail : v.render.1 = .error (.keyMissing "n" "t") := by
    revert hfault
    rcases v.render.1 with e | node <;> intro hfault
    · exact congrArg _ (Option.some.inj hfault)
    · cases hfault
  have hlive : (v.session.store.frame? 1).isSome := by
    rw [← hv]
    decide +kernel
  refine ⟨hfail, ?_, ?_, hafter _ hfail _ fun m hm => ?_⟩
  · rw [← hv]
    decide +kernel
  · rw [← hv]
    decide +kernel
  · rw [List.mem_singleton.1 hm]
    exact hlive

end Trellis
