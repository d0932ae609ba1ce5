import Trellis.Proofs.Build.Growth
import Trellis.Proofs.Scope.Writes
import Trellis.Proofs.View.Run

/-!
# What a pass leaves

A pass drops the frames it did not enter, and those only if it succeeds. Whether it does or not, the
frames that are left are where they were and what they were, and as long as nothing is written what
stood stands: on all ways after a pass that failed, on the ways it went after one that succeeded.

* `Session.Passes`: from the session before a pass to the one in which its root is built.
* `Session.Passes.frame?_finished`: which frames are left after a pass that succeeds.
* `Session.Passes.standing`, `Session.Passes.standing_finished`: what stands.
* `View.Built.run_keeps`: what all the moves of a run keep.
* `View.Built.run_tallied`: what a view is told.
-/

namespace Trellis

open Schema Session Act

namespace Session

variable {n : Node} {s t u : Session} {w : Way} {id : ScopeId} {f : Frame}

/-- The session after a pass that succeeds, which drops what it did not touch. -/
def finished (s : Session) : Session :=
  s.withStore s.store.finishPass.2

theorem Built.finished (hs : s.Built n) : s.finished.Built n :=
  hs.finishPass

theorem dataAt_begun : s.begun.dataAt w = s.dataAt w := by
  have hframe : ∀ id, (s.begun.store.frame? id).map Frame.data = (s.store.frame? id).map Frame.data :=
    fun id => by
      change (s.store.beginPass.frame? id).map Frame.data = _
      rw [Store.frame?_beginPass, Option.map_map]
      congr 1
      funext f
      simp only [Function.comp, Store.changed]
      split <;> rfl
  have hat : ∀ path, s.begun.store.scopeAt? path = s.store.scopeAt? path := fun _ => rfl
  unfold dataAt
  rw [hat]
  cases s.store.scopeAt? w.address with
  | none => rfl
  | some id => exact hframe id

theorem standing_begun : s.begun.standing n w = s.standing n w := by
  unfold standing
  rw [dataAt_begun]

/-- A frame that was entered is left. -/
theorem Has.frame?_finished (hu : u.Built n) (hw : u.Has w id) :
    u.finished.store.frame? id = u.store.frame? id := by
  obtain ⟨f, hf, -, he⟩ := hu.placed.has hw
  rw [hf]
  exact (Store.frame?_finishPass_iff hu.placed.sound).2 ⟨hf, he⟩

/-- The root of the schema was built in between, or as much of it as could be. -/
structure Passes (n : Node) (s u : Session) : Prop where
  before : s.Built n
  after : u.Built n
  grows : s.begun.Grows n u

namespace Passes

variable (h : s.Passes n u)

include h

/-- **Frames persist**, at their addresses and as what they were. -/
theorem persists (hfree : n.ClashFree) (hf : s.store.frame? id = some f) :
    ∃ f', u.store.frame? id = some f' ∧ f'.path = f.path ∧ f'.parent = f.parent ∧ f'.kind = f.kind := by
  have hbegun : s.begun.store.frame? id =
      some (Store.changed Store.rootId (fun f => { f with epoch := s.store.epoch + 1 }) id f) := by
    change s.store.beginPass.frame? id = _
    rw [Store.frame?_beginPass, hf]
    rfl
  obtain ⟨f', hf', hp, hpar, hk⟩ := h.grows.frames hfree id _ hbegun
  refine ⟨f', hf', hp.trans ?_, hpar.trans ?_, hk.trans ?_⟩
  all_goals
    unfold Store.changed
    split <;> rfl

/-- What stood stands, if nothing was written. -/
theorem standing (hfree : n.ClashFree) (hr : u.handle.revision = s.handle.revision)
    (hw : ((Locus.content n).after w).isSome) : u.standing n w = s.standing n w :=
  (h.grows.standing hfree hr w hw).trans standing_begun

/-- **What is touched** was entered. -/
theorem has (hf : u.store.frame? id = some f) (he : f.epoch = u.store.epoch) :
    ∃ w, u.Has w id := by
  rcases h.grows.touched id f hf he with ⟨f₀, hf₀, he₀⟩ | ⟨w, hw⟩
  · -- nothing but the root is touched when the pass begins
    refine ⟨[], .inl ⟨rfl, by_contra fun hid => ?_⟩⟩
    change s.store.beginPass.frame? id = some f₀ at hf₀
    rw [Store.frame?_beginPass] at hf₀
    obtain ⟨f₁, hf₁, rfl⟩ := Option.map_eq_some_iff.1 hf₀
    have hpast := h.before.placed.sound.past id f₁ hf₁
    rw [Store.changed, if_neg hid] at he₀
    change f₁.epoch = s.store.epoch + 1 at he₀
    omega
  · exact ⟨w, .inr hw⟩

/-- **The frames of a pass** that succeeds are those it entered, as it left them. -/
theorem frame?_finished : u.finished.store.frame? id = some f ↔
    u.store.frame? id = some f ∧ ∃ w, u.Has w id := by
  constructor
  · intro hf
    obtain ⟨hf, he⟩ := (Store.frame?_finishPass_iff h.after.placed.sound).1 hf
    exact ⟨hf, h.has hf he⟩
  · rintro ⟨hf, w, hw⟩
    exact (Has.frame?_finished h.after hw).trans hf

theorem dataAt_finished (hw : u.Has w id) : u.finished.dataAt w = u.dataAt w := by
  obtain ⟨f, hf, hp⟩ := hw.frame h.after
  have hf' : u.finished.store.frame? id = some f := (Has.frame?_finished h.after hw).trans hf
  rw [dataAt_eq h.after.placed.sound hf hp, dataAt_eq h.after.finished.placed.sound hf' hp]

/-- What stood on a way stands after a pass that went it. -/
theorem standing_finished (hfree : n.ClashFree) (hr : u.handle.revision = s.handle.revision)
    (hw : u.Has w id) : u.finished.standing n w = s.standing n w := by
  rw [← h.standing hfree hr (hw.leads h.after), Session.standing, Session.standing,
    h.dataAt_finished hw]

end Passes

end Session

/-! ### Rendering -/

namespace View.Builds

variable {N C : Type} {b : Builder N C} {n : Node} {v : View N C} (hv : v.Builds b n) {u : Session}

include hv

/-- **Rendering** comes to what building the root comes to, and drops what the pass did not touch if
that went well. -/
theorem render_ok {node : Option N} (h : (b.root n).runOn v.session.begun = (.ok node, u)) :
    v.render.1 = .ok node ∧ v.render.2.session = u.finished := by
  refine ⟨by rw [hv.render_outcome, h], ?_⟩
  rw [hv.render_session, View.pass_eq, h]
  rfl

theorem render_error {e : Fault} (h : (b.root n).runOn v.session.begun = (.error e, u)) :
    v.render.1 = .error e ∧ v.render.2.session = u := by
  refine ⟨by rw [hv.render_outcome, h], ?_⟩
  rw [hv.render_session, View.pass_eq, h]

/-- What a render that succeeds has built. -/
theorem render_made {node : Option N} (h : v.render.1 = .ok node) :
    ∃ u, (b.root n).runOn v.session.begun = (.ok node, u) ∧ v.render.2.session = u.finished := by
  rw [hv.render_outcome] at h
  exact ⟨_, Prod.ext h rfl, (hv.render_ok (Prod.ext h rfl)).2⟩

end View.Builds

/-- **Building the root** passes from the one session to the other. -/
theorem Builder.root_passes {N C : Type} {b : Builder N C} {n : Node}
    (hb : ∀ w id, b.Respects (Stays n (Session.Grows n) w id)) (hn : n.All Node.Orderly) {s : Session}
    (hs : s.Built n) : s.Passes n ((b.root n).runOn s.begun).2 := by
  obtain ⟨hu, -, hgrows⟩ := b.root_stays hb hn s.begun hs.beginPass (.inl ⟨rfl, rfl⟩)
  exact ⟨hs, hu, hgrows⟩

/-! ### What runs keep -/

/-- Whatever held holds still. -/
def Session.Keeping (I : Session → Prop) (s t : Session) : Prop := I s → I t

section Runs

variable {N C : Type} {b : Builder N C} {n : Node} {I : Session → Prop} {v : View N C}

/-- **A move** keeps what building keeps, if it is no render and adds nothing. -/
theorem View.step_keeps (n : Node) [AllowsBuilding n (Keeping I)] (move : Move)
    (hrender : move = .render → I v.render.2.session)
    (hadd : ∀ scope ns members, move = .add scope ns members →
      I ((Act.adding scope ns members).runOn v.session).2)
    (h : I v.session) : I (v.step move).session := by
  have : AllowsEvaluation (Keeping I) := AllowsBuilding.toAllowsEvaluation n
  cases move with
  | render => exact hrender rfl
  | fire listeners args =>
    exact Rendered.fireAll_keeps (R := Keeping I) v.builder.config args listeners .null v.session h
  | write scope path x =>
    have hkeeps : Keeps (Keeping I) (Act.writingPath scope path x) :=
      Keeps.writing fun s handle hw =>
        AllowsEvaluation.write s scope path.ns path.keys x handle (Handle.write_of_writePath hw)
    exact hkeeps v.session h
  | add scope ns members => exact hadd scope ns members rfl

section Building

variable [AllowsBuilding n (Keeping I)] (hv : v.Built b n) (hb : b.Honest) (hn : n.All Node.Orderly)

include hv hb hn

/-- **A render** keeps what building keeps, if the beginning of the pass does and its end. -/
theorem View.Built.render_keeps (hbegun : I v.session.begun)
    (hfinished : ∀ node u, v.render.1 = .ok node → v.render.2.session = u.finished →
      u.Built n → I u → I u.finished) : I v.render.2.session := by
  obtain ⟨hu, -, hI⟩ := b.root_stays (K := Keeping I) (fun w id => (hb _).respects) hn
    v.session.begun hv.session.beginPass (.inl ⟨rfl, rfl⟩)
  replace hI := hI hbegun
  cases hrun : (b.root n).runOn v.session.begun with
  | mk outcome u =>
    rw [hrun] at hu hI
    cases outcome with
    | error e => exact (hv.render_error hrun).2 ▸ hI
    | ok node =>
      obtain ⟨hout, hsession⟩ := hv.render_ok hrun
      exact hsession ▸ hfinished node u hout hsession hu hI

/-- **A run** keeps what all its moves keep. -/
theorem View.Built.run_keeps (hbegun : ∀ s, s.Built n → I s → I s.begun)
    (hfinished : ∀ s, s.Built n → I s → I s.finished)
    (hadd : ∀ s scope ns members, I s → I ((Act.adding scope ns members).runOn s).2)
    (moves : List Move) (h : I v.session) : I (v.run moves).session := by
  induction moves generalizing v with
  | nil => exact h
  | cons move moves ih =>
    refine ih (hv.step hb.confined hn move)
      (View.step_keeps n move (fun _ => ?_) (fun scope ns members _ => hadd _ scope ns members h) h)
    exact hv.render_keeps hb hn (hbegun _ hv.session h) fun _ u _ _ hu hI => hfinished u hu hI

end Building

end Runs

/-! ### What a view is told -/

/-- There is one subscriber, and it was told of every write. -/
structure Session.Tallied (s : Session) : Prop where
  subscribers : s.handle.subscribers = 1
  deliveries : s.handle.deliveries.length = s.handle.revision
  own : ∀ d ∈ s.handle.deliveries, d.subscriber = 0

instance {n : Node} : AllowsBuilding n (Keeping Session.Tallied) where
  trans _ _ _ h h' hs := h' (h hs)
  inner s t hh _ hs := ⟨hh ▸ hs.subscribers, hh ▸ hs.deliveries, hh ▸ hs.own⟩
  write s scope ns keys v h hw hs := by
    obtain ⟨id, f, data, hwrote⟩ := Handle.wrote_of_write hw
    obtain ⟨hone, htold⟩ := hwrote.told hs.subscribers
    refine ⟨hone, ?_, fun d hd => ?_⟩
    · change h.deliveries.length = h.revision
      rw [htold, List.length_append, hs.deliveries, revision_write hw]
      rfl
    · change d ∈ h.deliveries at hd
      rw [htold] at hd
      rcases List.mem_append.1 hd with hd | hd
      · exact hs.own d hd
      · rw [List.mem_singleton.1 hd]
  enter h _ hs := by
    obtain ⟨store, rfl⟩ := h.rest
    exact ⟨hs.subscribers, hs.deliveries, hs.own⟩

/-- **After every run** the view was told of every write. -/
theorem View.Built.run_tallied {N C : Type} {b : Builder N C} {n : Node} {v : View N C}
    (hv : v.Built b n) (hb : b.Honest) (hn : n.All Node.Orderly) (h : v.session.Tallied)
    (moves : List Move) : (v.run moves).session.Tallied :=
  hv.run_keeps hb hn (fun _ _ h => ⟨h.subscribers, h.deliveries, h.own⟩)
    (fun _ _ h => ⟨h.subscribers, h.deliveries, h.own⟩)
    (fun s scope ns members h => by
      cases hs : s.store.space scope ns with
      | error e => rwa [Act.adding_error hs]
      | ok x => rw [Act.adding_ok hs]; exact ⟨h.subscribers, h.deliveries, h.own⟩)
    moves h

/-- It was when it was mounted. -/
theorem View.mount_tallied {N C : Type} (n : Node) (b : Builder N C) (k : Nat) :
    (View.mount n b k).session.Tallied :=
  ⟨rfl, rfl, nofun⟩

end Trellis
