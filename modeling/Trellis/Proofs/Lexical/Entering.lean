import Trellis.Proofs.Build.Places
import Trellis.Proofs.Lexical.Layers

/-!
# The first pass

In the first pass over a schema without clashes no frame is entered twice. A way that was not gone
yet has no frame, so entering it makes one, with the data that its layer holds, and leaves all other
frames as they are.

* `Session.First`: sessions of the first pass.
* `Site.Opens`: acts that make a frame one step further; `Site.enterSpace_opens`,
  `Site.enterTurn_opens` and `Site.enterSlot_opens` say with which data.
-/

namespace Trellis

open Schema Session Act

namespace Store

variable {s : Store} {id p : ScopeId} {f outer : Frame}

/-- Opening an address nobody has makes a frame. -/
theorem openFrame_new (hp : s.frame? p = some outer) {segment : String}
    (hnone : s.scopeAt? (outer.address segment) = none) (kind : FrameKind) :
    s.openFrame p segment kind =
      .ok ((s.nextId, true), s.insert (opened s.epoch p (outer.address segment) kind)) := by
  unfold openFrame
  simp only [hp, hnone]
  rfl

/-- Seeding the last frame that was made. -/
theorem addData_insert (h : s.Sound) {ns : String} (hk : f.kind = .space ns)
    (members : Members Value) :
    (s.insert f).addData s.nextId ns members = .ok (s.insert (f.extend members)) := by
  have hpath : (f.extend members).path = f.path := by
    unfold Frame.extend
    split <;> rfl
  have hnear := nearest?_self (frame?_insert_self (s := s) f)
  rw [hk] at hnear
  unfold addData space
  rw [hnear]
  exact congrArg Except.ok (modify_insert h hpath)

/-- Setting the turn in the last frame that was made. -/
theorem setLoop_insert (h : s.Sound) {ns : String} (hk : f.kind = .space ns)
    {members : Members Value} (hd : f.data = .object members) (v : Value) :
    (s.insert f).setLoop s.nextId v =
      .ok (s.insert { f with data := .object (Members.assign members loopKey v) }) := by
  obtain ⟨path, parent, kind, data, epoch⟩ := f
  cases hk
  cases hd
  unfold setLoop
  rw [frame?_insert_self]
  exact congrArg Except.ok (modify_insert h rfl)

end Store

namespace Session

variable {n : Node} {s : Session} {w : Way} {p : ScopeId} {step : Step} {outer f : Frame}

/-- Every frame but the root was entered in this pass. -/
structure First (n : Node) (s : Session) : Prop where
  built : s.Built n
  entered : ∀ id f, s.store.frame? id = some f → id ≠ Store.rootId → ∃ w, ⟨w, id⟩ ∈ s.visits

/-- The session with one more frame, which was entered. -/
def entered (s : Session) (w : Way) (f : Frame) : Session :=
  { s.withStore (s.store.insert f) with visits := ⟨w, s.store.nextId⟩ :: s.visits }

/-- **A way that was not gone yet** has no frame. -/
theorem First.scopeAt?_eq_none (hs : s.First n) (hfree : n.ClashFree) (hw : s.Has w p)
    (hstep : ((Locus.content n).after (w ++ [step])).isSome)
    (hnew : ∀ x ∈ s.visits, x.way ≠ w ++ [step]) (houter : s.store.frame? p = some outer) :
    s.store.scopeAt? (outer.address step.segment) = none := by
  have hplaced := hs.built.placed
  obtain ⟨o, ho, hpath, -⟩ := hplaced.has hw
  rw [houter] at ho
  cases ho
  -- a frame at the address would have been entered on this very way
  by_contra hsome
  obtain ⟨id, hid⟩ := Option.ne_none_iff_exists'.1 hsome
  obtain ⟨g, hg, hgp⟩ := hplaced.sound.live _ id hid
  obtain ⟨v, hv⟩ := hs.entered id g hg (hplaced.sound.ne_root hg hgp)
  obtain ⟨g', hg', hgp', -⟩ := hplaced.touched _ hv
  rw [hg] at hg'
  cases hg'
  refine hnew _ hv (way_unique hfree (hplaced.way _ hv).2 hstep ?_)
  rw [← hgp', hgp, Way.address_append, ← hpath, Frame.address]

/-- One more frame in the first pass. -/
theorem First.entered_first (hs : s.First n) (hbuilt : (s.entered w f).Built n) :
    (s.entered w f).First n where
  built := hbuilt
  entered := by
    intro id g hg hid
    by_cases hnew : id = s.store.nextId
    · exact ⟨w, hnew ▸ List.mem_cons_self⟩
    · rw [show (s.entered w f).store.frame? id = s.store.frame? id from
        Store.frame?_insert_of_ne f hnew] at hg
      obtain ⟨v, hv⟩ := hs.entered id g hg hid
      exact ⟨v, List.mem_cons_of_mem _ hv⟩

end Session

namespace Site

variable {n : Node} {s : Session} {site : Site} {step : Step} {act : Act Site}

/-- An act that makes and enters the frame one step further, with some data. -/
def Opens (site : Site) (step : Step) (data : Value) (s : Session) (act : Act Site) : Prop :=
  ∃ f : Frame, f.kind = step.kind ∧ f.parent = some site.scope ∧ f.data = data ∧
    act.runOn s = (.ok ⟨site.way ++ [step], s.store.nextId, []⟩, s.entered (site.way ++ [step]) f)

/-- What is needed for it: the site's frame is there, and the way has not been gone yet. -/
structure Unopened (n : Node) (site : Site) (step : Step) (s : Session) : Prop where
  first : s.First n
  has : s.Has site.way site.scope
  leads : ((Locus.content n).after (site.way ++ [step])).isSome
  untaken : ∀ x ∈ s.visits, x.way ≠ site.way ++ [step]

theorem Unopened.openFrame (h : Unopened n site step s) (hfree : n.ClashFree) :
    ∃ f : Frame, f.kind = step.kind ∧ f.parent = some site.scope ∧ f.data = .empty ∧
      s.store.openFrame site.scope step.segment step.kind =
        .ok ((s.store.nextId, true), s.store.insert f) := by
  obtain ⟨outer, houter, -⟩ := h.first.built.placed.has h.has
  have hnone := h.first.scopeAt?_eq_none hfree h.has h.leads h.untaken houter
  exact ⟨_, rfl, rfl, rfl, Store.openFrame_new houter hnone step.kind⟩

/-- **Entering a namespace** for the first time: it holds what it is seeded with. -/
theorem enterSpace_opens (hfree : n.ClashFree) (h : Unopened n site step s) {ns : String}
    (hkind : step.kind = .space ns) (seed : Option (Members Value)) :
    site.Opens step (.object (Members.ofList (seed.getD []))) s (site.enterSpace step ns seed) := by
  obtain ⟨f, hk, hp, hd, hopen⟩ := h.openFrame hfree
  have hspace : s.store.openSpace site.scope step.segment ns =
      .ok ((s.store.nextId, true), s.store.insert f) := by
    rw [Store.openSpace, ← hkind, hopen]
  have hsound := h.first.built.placed.sound
  cases seed with
  | none =>
    refine ⟨f, hk, hp, hd, ?_⟩
    unfold enterSpace
    rw [runOn_bind, runOn_opening_ok hspace]
    rfl
  | some members =>
    refine ⟨f.extend members, ?_, ?_, ?_, ?_⟩
    · rw [← hk]
      unfold Frame.extend
      split <;> rfl
    · rw [← hp]
      unfold Frame.extend
      split <;> rfl
    · unfold Frame.extend
      rw [hd]
      rfl
    · have hfill : ((s.store.insert f).addData s.store.nextId ns members).map (((), ·)) =
          .ok ((), s.store.insert (f.extend members)) := by
        rw [Store.addData_insert hsound (hk.trans hkind)]
        rfl
      unfold enterSpace fill
      rw [runOn_bind, runOn_opening_ok hspace]
      simp only [runOn_bind]
      rw [runOn_opening_ok hfill]
      rfl

/-- **Entering a turn** for the first time: the namespace also holds the turn. -/
theorem enterTurn_opens (hfree : n.ClashFree) {ns : String} (turn : Iteration)
    (h : Unopened n site (.turn turn.index ns) s) (seed : Option (Members Value)) :
    site.Opens (.turn turn.index ns)
      (.object (Members.ofList (seed.getD [] ++ [(loopKey, turn.toValue)]))) s
      (site.enterTurn ns seed turn) := by
  obtain ⟨f, hk, hp, hd, hrun⟩ := enterSpace_opens hfree h rfl seed
  have hsound := h.first.built.placed.sound
  refine ⟨{ f with data := .object (Members.assign (Members.ofList (seed.getD [])) loopKey
    turn.toValue) }, hk, hp, ?_, ?_⟩
  · unfold Members.ofList Members.extend
    rw [List.foldl_append]
    rfl
  · have hloop : ((s.store.insert f).setLoop s.store.nextId turn.toValue).map (((), ·)) =
        .ok ((), s.store.insert { f with
          data := .object (Members.assign (Members.ofList (seed.getD [])) loopKey turn.toValue) }) := by
      rw [Store.setLoop_insert hsound hk hd]
      rfl
    unfold enterTurn
    rw [runOn_bind, hrun]
    simp only [runOn_bind]
    rw [runOn_opening_ok hloop]
    rfl

/-- **Entering a slot** for the first time: it holds what it is given. -/
theorem enterSlot_opens (hfree : n.ClashFree) {ns slot : String}
    (h : Unopened n site (.slot ns slot) s) (given : Value) :
    site.Opens (.slot ns slot) given s (site.enterSlot ns slot given) := by
  obtain ⟨f, hk, hp, -, hopen⟩ := h.openFrame hfree
  have hslot : s.store.openSlot site.scope ns slot given =
      .ok (s.store.nextId, s.store.insert { f with data := given }) := by
    unfold Store.openSlot
    rw [show FrameKind.slot ns slot = (Step.slot ns slot).kind from rfl, hopen]
    exact congrArg (fun t => Except.ok (s.store.nextId, t))
      (Store.modify_insert h.first.built.placed.sound rfl)
  refine ⟨{ f with data := given }, hk, hp, rfl, ?_⟩
  unfold enterSlot
  rw [runOn_bind, runOn_opening_ok hslot]
  rfl

end Site

end Trellis
