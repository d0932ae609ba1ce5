import Trellis.Build
import Trellis.Proofs.Schema.Loading
import Trellis.Proofs.Scope.Sound

/-!
# Frames of a schema

What the scopes of a schema are like while it is built: every frame that was entered stands at the
address of its way, and the way leads through the schema. If no ways clash, every live frame stands
inside the frame of the way one step shorter.

* `Session.Placed`, `Session.Nested`: the two invariants; `Session.Built` holds the second where no
  ways clash.
* `Session.Built.of_outline`: neither depends on data.
* `Session.Built.openFrame`, `Session.Built.visit`: opening a frame one step further, and entering
  it.
-/

namespace Trellis

open Schema

namespace Session

/-- The frame at the end of a way: the root's, or one that was entered. -/
def Has (s : Session) (w : Way) (id : ScopeId) : Prop :=
  (w = [] ∧ id = Store.rootId) ∨ ⟨w, id⟩ ∈ s.visits

/-- The frame `id` is at the end of a way, and the pass has touched it. -/
def Touched (s : Session) (w : Way) (id : ScopeId) : Prop :=
  ∃ f, s.store.frame? id = some f ∧ f.path = w.address ∧ f.epoch = s.store.epoch

/-- A frame at the end of a way, inside the frame that is one step nearer to the root. -/
structure Seat (s : Store) (id : ScopeId) (f : Frame) (o : Way) (step : Step) (p : ScopeId)
    (g : Frame) : Prop where
  path : f.path = Way.address (o ++ [step])
  kind : f.kind = step.kind
  parent : f.parent = some p
  older : p < id
  outer : s.frame? p = some g
  around : g.path = o.address
  touched : f.epoch = s.epoch → g.epoch = s.epoch

/-- Frames that were entered are where their ways through the schema lead. -/
structure Placed (n : Node) (s : Session) : Prop where
  sound : s.store.Sound
  way : ∀ x ∈ s.visits, x.way ≠ [] ∧ ((Locus.content n).after x.way).isSome
  touched : ∀ x ∈ s.visits, s.Touched x.way x.scope

/-- Every frame is inside the frame of the way one step shorter. -/
structure Nested (n : Node) (s : Session) : Prop where
  seat : ∀ id f, s.store.frame? id = some f → id ≠ Store.rootId →
    ∃ o step p g, ((Locus.content n).after (o ++ [step])).isSome ∧ Seat s.store id f o step p g
  outer : ∀ x ∈ s.visits, ∀ o step, x.way = o ++ [step] → ∃ id, s.Has o id

/-- What building a schema keeps. -/
structure Built (n : Node) (s : Session) : Prop where
  placed : s.Placed n
  nested : n.ClashFree → s.Nested n

variable {n : Node} {s t : Session} {w : Way} {id : ScopeId}

theorem Has.mono (hv : s.visits ⊆ t.visits) (h : s.Has w id) : t.Has w id :=
  h.imp_right fun h => hv h

/-- The frame at the end of a way is live, and the pass has touched it. -/
theorem Placed.has (h : s.Placed n) (hw : s.Has w id) : s.Touched w id := by
  rcases hw with ⟨rfl, rfl⟩ | hw
  · obtain ⟨f, hf, hp, -, -, he⟩ := h.sound.root
    exact ⟨f, hf, hp, he⟩
  · exact h.touched _ hw

/-! ### Changes of data -/

/-- Only the data of frames, and what is no part of the scopes, is different. -/
structure SameOutline (s t : Session) : Prop where
  outline : t.store.outline = s.store.outline
  visits : t.visits = s.visits

theorem SameOutline.refl (s : Session) : SameOutline s s := ⟨rfl, rfl⟩

theorem SameOutline.trans {u : Session} (h : SameOutline s t) (h' : SameOutline t u) :
    SameOutline s u :=
  ⟨h'.outline.trans h.outline, h'.visits.trans h.visits⟩

theorem SameOutline.frame? (h : SameOutline s t) {f : Frame} (hf : s.store.frame? id = some f) :
    ∃ f', t.store.frame? id = some f' ∧ f'.bare = f.bare := by
  have ht : t.store.outline.frame? id = some f.bare := by
    rw [h.outline, Store.frame?_outline, hf]
    rfl
  rw [Store.frame?_outline] at ht
  exact Option.map_eq_some_iff.1 ht

theorem SameOutline.symm (h : SameOutline s t) : SameOutline t s := ⟨h.outline.symm, h.visits.symm⟩

theorem SameOutline.epoch (h : SameOutline s t) : t.store.epoch = s.store.epoch :=
  (congrArg Store.epoch h.outline : t.store.outline.epoch = s.store.outline.epoch)

theorem bare_fields {f f' : Frame} (h : f'.bare = f.bare) :
    f'.path = f.path ∧ f'.parent = f.parent ∧ f'.kind = f.kind ∧ f'.epoch = f.epoch :=
  ⟨(congrArg Frame.path h : f'.bare.path = f.bare.path),
    (congrArg Frame.parent h : f'.bare.parent = f.bare.parent),
    (congrArg Frame.kind h : f'.bare.kind = f.bare.kind),
    (congrArg Frame.epoch h : f'.bare.epoch = f.bare.epoch)⟩

theorem Touched.of_outline (h : SameOutline s t) (ht : s.Touched w id) : t.Touched w id := by
  obtain ⟨f, hf, hp, he⟩ := ht
  obtain ⟨f', hf', hb⟩ := h.frame? hf
  obtain ⟨hpath, -, -, hepoch⟩ := bare_fields hb
  exact ⟨f', hf', hpath.trans hp, hepoch.trans (he.trans h.epoch.symm)⟩

theorem Has.of_outline (h : SameOutline s t) (hw : s.Has w id) : t.Has w id := by
  unfold Has at hw ⊢
  rw [h.visits]
  exact hw

/-- **Data** is no part of what building keeps. -/
theorem Built.of_outline (hs : s.Built n) (h : SameOutline s t) : t.Built n where
  placed :=
    { sound := hs.placed.sound.of_outline h.outline
      way := h.visits ▸ hs.placed.way
      touched := fun x hx => (hs.placed.touched x (h.visits ▸ hx)).of_outline h }
  nested hfree := by
    have hn := hs.nested hfree
    refine ⟨fun id f hf hid => ?_, fun x hx o step hw => ?_⟩
    -- the frame and the one around it are in both stores, with other data
    · obtain ⟨f₀, hf₀, hb⟩ := h.symm.frame? hf
      obtain ⟨o, step, p, g, hafter, hseat⟩ := hn.seat id f₀ hf₀ hid
      obtain ⟨g', hg', hgb⟩ := h.frame? hseat.outer
      obtain ⟨hpath, hparent, hkind, hepoch⟩ := bare_fields hb
      obtain ⟨hgpath, -, -, hgepoch⟩ := bare_fields hgb
      refine ⟨o, step, p, g', hafter, hpath.symm.trans hseat.path, hkind.symm.trans hseat.kind,
        hparent.symm.trans hseat.parent, hseat.older, hg', hgpath.trans hseat.around, fun he => ?_⟩
      rw [hgepoch, h.epoch]
      exact hseat.touched (by rw [hepoch, he, h.epoch])
    · obtain ⟨id, hid⟩ := hn.outer x (h.visits ▸ hx) o step hw
      exact ⟨id, hid.of_outline h⟩

/-! ### Opening and entering -/

/-- The session with another store. -/
def withStore (s : Session) (store : Store) : Session :=
  { s with handle := { s.handle with store := store } }

/-- A change of the store that goes well. -/
theorem runOn_opening_ok {α : Type} {change : Store → Except Fault (α × Store)} {a : α}
    {store : Store} (h : change s.store = .ok (a, store)) :
    (Act.opening change).runOn s = (.ok a, s.withStore store) := by
  rw [Act.runOn_opening, h]
  rfl

/-- Two ways that lead through a schema to frames of one address. -/
theorem way_unique (hfree : n.ClashFree) {p q : Way} (hp : ((Locus.content n).after p).isSome)
    (hq : ((Locus.content n).after q).isSome) (h : p.address = q.address) : p = q := by
  rcases (Locus.address_eq_iff hp hq).1 h with h | h
  · exact h
  · exact absurd h (hfree p q hp hq)

variable {p : ScopeId} {step : Step} {store : Store} {created : Bool}

/-- What opening the frame one step further does: it is there and touched, and no other frame
changed, nor where any frame is. -/
theorem openFrame_frames (hs : s.Placed n) (hw : s.Has w p)
    (ho : s.store.openFrame p step.segment step.kind = .ok ((id, created), store)) :
    (∃ f, store.frame? id = some f ∧ f.path = Way.address (w ++ [step]) ∧ f.kind = step.kind ∧
      f.epoch = s.store.epoch ∧
      ((∃ f₀, s.store.frame? id = some f₀ ∧ f₀.path = f.path ∧ f.parent = f₀.parent) ∨
        (id = s.store.nextId ∧ f.parent = some p))) ∧
    (∀ j, j ≠ id → store.frame? j = s.store.frame? j) ∧ store.epoch = s.store.epoch := by
  obtain ⟨outer, houter, hpath, -⟩ := hs.has hw
  have haddr : outer.address step.segment = Way.address (w ++ [step]) := by
    rw [Way.address_append, Frame.address, hpath]
  rcases Store.openFrame_cases hs.sound houter step.segment step.kind with
    ⟨i, f, c, g, hf, hp, he, hok⟩ | ⟨-, hok⟩
  · rw [hok] at ho
    cases ho
    refine ⟨⟨g f, ?_, ?_, he.kind, he.epoch f, .inl ⟨f, hf, (he.path f).symm, he.parent f⟩⟩,
      fun j hj => Store.frame?_modify_of_ne g hj, rfl⟩
    · rw [Store.frame?_modify_self, hf]
      rfl
    · rw [he.path, hp, haddr]
  · rw [hok] at ho
    cases ho
    exact ⟨⟨_, Store.frame?_insert_self _, haddr, rfl, rfl, .inr ⟨rfl, rfl⟩⟩,
      fun j hj => Store.frame?_insert_of_ne _ hj, rfl⟩

/-- A frame that was live is live still, at its address, whether or not it is the one opened. -/
theorem openFrame_keeps (hs : s.Placed n) (hw : s.Has w p)
    (ho : s.store.openFrame p step.segment step.kind = .ok ((id, created), store)) {j : ScopeId}
    {g : Frame} (hg : s.store.frame? j = some g) :
    ∃ g', store.frame? j = some g' ∧ g'.path = g.path ∧
      (g.epoch = s.store.epoch → g'.epoch = store.epoch) := by
  obtain ⟨⟨f, hf, -, -, hepoch, hbefore⟩, hother, hnow⟩ := openFrame_frames hs hw ho
  by_cases hj : j = id
  · subst hj
    refine ⟨f, hf, ?_, fun _ => hepoch.trans hnow.symm⟩
    rcases hbefore with ⟨f₀, hf₀, hp₀, -⟩ | ⟨hid, -⟩
    · rw [hg] at hf₀
      cases hf₀
      exact hp₀.symm
    · exact absurd hid (hs.sound.ne_nextId hg)
  · exact ⟨g, (hother j hj).trans hg, rfl, fun he => he.trans hnow.symm⟩

/-- Where no ways clash, the frame that is opened is inside the one it was opened in. -/
theorem openFrame_parent (hs : s.Placed n) (hn : s.Nested n) (hfree : n.ClashFree)
    (hw : s.Has w p) (hstep : ((Locus.content n).after (w ++ [step])).isSome)
    (ho : s.store.openFrame p step.segment step.kind = .ok ((id, created), store))
    (hid : id ≠ Store.rootId) {f : Frame} (hf : store.frame? id = some f) :
    f.parent = some p ∧ p < id := by
  obtain ⟨outer, houter, hopath, -⟩ := hs.has hw
  obtain ⟨⟨f', hf', hpath, -, -, hbefore⟩, -, -⟩ := openFrame_frames hs hw ho
  rw [hf] at hf'
  cases hf'
  rcases hbefore with ⟨f₀, hf₀, hp₀, hpar⟩ | ⟨hnew, hpar⟩
  · -- it was opened on this way before, since no other way has its address
    obtain ⟨o, st, q, r, hafter, hseat⟩ := hn.seat id f₀ hf₀ hid
    have hways := way_unique hfree hafter hstep (hseat.path.symm.trans (hp₀.trans hpath))
    obtain ⟨rfl, -⟩ := List.append_inj' hways rfl
    have hq := hs.sound.eq_of_path hseat.outer houter (hseat.around.trans hopath.symm)
    subst hq
    exact ⟨hpar.trans hseat.parent, hseat.older⟩
  · exact ⟨hpar, hnew ▸ hs.sound.fresh p outer houter⟩

/-- **Opening** a frame one step further along a way. -/
theorem Built.openFrame (hs : s.Built n) (hw : s.Has w p)
    (hstep : ((Locus.content n).after (w ++ [step])).isSome)
    (ho : s.store.openFrame p step.segment step.kind = .ok ((id, created), store)) :
    (s.withStore store).Built n ∧ (s.withStore store).Touched (w ++ [step]) id := by
  obtain ⟨outer, houter, hopath, hoepoch⟩ := hs.placed.has hw
  obtain ⟨⟨f, hf, hpath, hkind, hepoch, -⟩, hother, hnow⟩ := openFrame_frames hs.placed hw ho
  have hsound : store.Sound := hs.placed.sound.openFrame houter ho
  have htouched : ∀ x ∈ s.visits, (s.withStore store).Touched x.way x.scope := by
    intro x hx
    obtain ⟨g, hg, hgp, hge⟩ := hs.placed.touched x hx
    obtain ⟨g', hg', hgp', hge'⟩ := openFrame_keeps hs.placed hw ho hg
    exact ⟨g', hg', hgp'.trans hgp, hge' hge⟩
  refine ⟨⟨⟨hsound, hs.placed.way, htouched⟩, fun hfree => ?_⟩, f, hf, hpath,
    hepoch.trans hnow.symm⟩
  have hn := hs.nested hfree
  refine ⟨fun j g hg hj => ?_, hn.outer⟩
  by_cases hjid : j = id
  · subst hjid
    have hgf : g = f := Option.some.inj (hg.symm.trans hf)
    subst hgf
    obtain ⟨hparent, holder⟩ := openFrame_parent hs.placed hn hfree hw hstep ho hj hf
    obtain ⟨outer', houter', hopath', hoepoch'⟩ := openFrame_keeps hs.placed hw ho houter
    exact ⟨w, step, p, outer', hstep, hpath, hkind, hparent, holder, houter',
      hopath'.trans hopath, fun _ => hoepoch' hoepoch⟩
  · -- any other frame is where it was, and so is the one around it
    have hg' : s.store.frame? j = some g := (hother j hjid).symm.trans hg
    obtain ⟨o, st, q, r, hafter, hseat⟩ := hn.seat j g hg' hj
    obtain ⟨r', hr', hrpath, hrepoch⟩ := openFrame_keeps hs.placed hw ho hseat.outer
    exact ⟨o, st, q, r', hafter, hseat.path, hseat.kind, hseat.parent, hseat.older, hr',
      hrpath.trans hseat.around, fun he => hrepoch (hseat.touched (he.trans hnow))⟩

/-- **Entering** a frame that was opened one step further. -/
theorem Built.visit (hs : s.Built n) (hw : s.Has w p)
    (hstep : ((Locus.content n).after (w ++ [step])).isSome) (ht : s.Touched (w ++ [step]) id) :
    { s with visits := ⟨w ++ [step], id⟩ :: s.visits }.Built n := by
  have hmono : s.visits ⊆ ⟨w ++ [step], id⟩ :: s.visits := List.subset_cons_self _ _
  refine ⟨⟨hs.placed.sound, fun x hx => ?_, fun x hx => ?_⟩, fun hfree =>
    ⟨(hs.nested hfree).seat, fun x hx o st hx' => ?_⟩⟩
  · rcases List.mem_cons.1 hx with rfl | hx
    · exact ⟨by simp, hstep⟩
    · exact hs.placed.way x hx
  · rcases List.mem_cons.1 hx with rfl | hx
    · exact ht
    · exact hs.placed.touched x hx
  · rcases List.mem_cons.1 hx with rfl | hx
    · obtain ⟨rfl, -⟩ := List.append_inj' hx' rfl
      exact ⟨p, hw.mono hmono⟩
    · obtain ⟨q, hq⟩ := (hs.nested hfree).outer x hx o st hx'
      exact ⟨q, hq.mono hmono⟩

/-! ### Passes -/

/-- A session in which nothing was opened. -/
theorem Built.start (hstore : s.store = Store.new) (hv : s.visits = []) : s.Built n where
  placed :=
    { sound := hstore ▸ Store.Sound.new
      way := by rw [hv]; exact nofun
      touched := by rw [hv]; exact nofun }
  nested _ :=
    { seat := by
        intro id f hf hid
        rw [hstore] at hf
        exact absurd (Store.frame?_new hf).1 hid
      outer := by rw [hv]; exact nofun }

/-- The session in which a pass begins. -/
def begun (s : Session) : Session :=
  { s.withStore s.store.beginPass with visits := [] }

/-- **Beginning a pass**, in which nothing is touched yet but the root. -/
theorem Built.beginPass (hs : s.Built n) : s.begun.Built n := by
  refine ⟨⟨hs.placed.sound.beginPass, nofun, nofun⟩, fun hfree => ⟨fun id f hf hid => ?_, nofun⟩⟩
  change s.store.beginPass.frame? id = some f at hf
  rw [Store.frame?_beginPass] at hf
  obtain ⟨f₀, hf₀, rfl⟩ := Option.map_eq_some_iff.1 hf
  obtain ⟨o, step, p, g, hafter, hseat⟩ := (hs.nested hfree).seat id f₀ hf₀ hid
  have hpast := hs.placed.sound.past id f₀ hf₀
  rw [Store.changed, if_neg hid]
  refine ⟨o, step, p, _, hafter, hseat.path, hseat.kind, hseat.parent, hseat.older,
    (Store.frame?_beginPass p).trans (by rw [hseat.outer]; rfl), ?_, fun he => ?_⟩
  · unfold Store.changed
    split <;> exact hseat.around
  · change f₀.epoch = s.store.epoch + 1 at he
    omega

/-- **Finishing a pass** keeps what was touched, and a touched frame is inside a touched one. -/
theorem Built.finishPass (hs : s.Built n) : (s.withStore s.store.finishPass.2).Built n := by
  have hkeep : ∀ {id f}, s.store.frame? id = some f → f.epoch = s.store.epoch →
      s.store.finishPass.2.frame? id = some f :=
    fun hf he => (Store.frame?_finishPass_iff hs.placed.sound).2 ⟨hf, he⟩
  refine ⟨⟨hs.placed.sound.finishPass, hs.placed.way, fun x hx => ?_⟩,
    fun hfree => ⟨fun id f hf hid => ?_, (hs.nested hfree).outer⟩⟩
  · obtain ⟨f, hf, hp, he⟩ := hs.placed.touched x hx
    exact ⟨f, hkeep hf he, hp, he⟩
  · obtain ⟨hf, he⟩ := (Store.frame?_finishPass_iff hs.placed.sound).1 hf
    obtain ⟨o, step, p, g, hafter, hseat⟩ := (hs.nested hfree).seat id f hf hid
    exact ⟨o, step, p, g, hafter, hseat.path, hseat.kind, hseat.parent, hseat.older,
      hkeep hseat.outer (hseat.touched he), hseat.around, fun _ => hseat.touched he⟩

end Session

end Trellis
