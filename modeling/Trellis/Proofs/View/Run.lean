import Trellis.Proofs.Build.Places
import Trellis.View

/-!
# Runs of a view

What a host does to a view: it renders it, fires listeners of what was rendered, and writes to the
scopes. A run is any number of these in any order.

* `Move`, `View.step`, `View.run`: the moves and runs of them.
* `View.Builds`: what the passes of a view build, whichever schema it holds; no move changes it.
* `View.Built.run`: what building keeps holds after every run.
-/

namespace Trellis

open Schema Session Act

/-- What a host does: a render pass, firing listeners in order, writing at a path, or assigning
members to a namespace. -/
inductive Move where
  | render
  | fire (listeners : List Listener) (args : List Value)
  | write (scope : ScopeId) (path : Path) (v : Value)
  | add (scope : ScopeId) (ns : String) (members : Members Value)

/-- Assigns members to the nearest frame of a namespace. -/
def Act.adding (scope : ScopeId) (ns : String) (members : Members Value) : Act Unit :=
  Act.opening fun s => (s.addData scope ns members).map ((), ·)

/-- Writes at a path. -/
def Act.writingPath (scope : ScopeId) (path : Path) (v : Value) : Act Unit :=
  Act.writing (·.writePath scope path v)

namespace View

variable {N C : Type}

/-- The view after a move. -/
def step (v : View N C) : Move → View N C
  | .render => v.render.2
  | .fire listeners args => (v.perform (Rendered.fireAll v.builder.config args .null listeners)).2
  | .write scope path x => (v.perform (Act.writingPath scope path x)).2
  | .add scope ns members => (v.perform (Act.adding scope ns members)).2

/-- The view after a run. -/
def run (v : View N C) (moves : List Move) : View N C :=
  moves.foldl step v

theorem render_eq (v : View N C) :
    v.render = (((pass v.schema v.builder).runOn v.session).1,
      match ((pass v.schema v.builder).runOn v.session).1 with
      | .ok _ => { (v.perform (pass v.schema v.builder)).2 with
          settled := some (v.perform (pass v.schema v.builder)).2.heard }
      | .error _ => (v.perform (pass v.schema v.builder)).2) := by
  unfold render perform
  simp only
  cases ((pass v.schema v.builder).runOn v.session).1 <;> rfl

theorem render_session (v : View N C) :
    v.render.2.session = ((pass v.schema v.builder).runOn v.session).2 := by
  rw [render_eq]
  simp only
  split <;> rfl

theorem render_schema (v : View N C) : v.render.2.schema = v.schema := by
  rw [render_eq]
  simp only
  split <;> rfl

theorem render_builder (v : View N C) : v.render.2.builder = v.builder := by
  rw [render_eq]
  simp only
  split <;> rfl

theorem step_schema (v : View N C) (move : Move) : (v.step move).schema = v.schema := by
  cases move
  case render => exact v.render_schema
  all_goals rfl

theorem step_builder (v : View N C) (move : Move) : (v.step move).builder = v.builder := by
  cases move
  case render => exact v.render_builder
  all_goals rfl

theorem run_schema (moves : List Move) : ∀ v : View N C, (v.run moves).schema = v.schema := by
  induction moves with
  | nil => exact fun _ => rfl
  | cons move moves ih => exact fun v => (ih (v.step move)).trans (v.step_schema move)

theorem run_builder (moves : List Move) : ∀ v : View N C, (v.run moves).builder = v.builder := by
  induction moves with
  | nil => exact fun _ => rfl
  | cons move moves ih => exact fun v => (ih (v.step move)).trans (v.step_builder move)

theorem render_subscriber (v : View N C) : v.render.2.subscriber = v.subscriber := by
  rw [render_eq]
  simp only
  split <;> rfl

theorem step_subscriber (v : View N C) (move : Move) : (v.step move).subscriber = v.subscriber := by
  cases move
  case render => exact v.render_subscriber
  all_goals rfl

theorem run_subscriber (moves : List Move) :
    ∀ v : View N C, (v.run moves).subscriber = v.subscriber := by
  induction moves with
  | nil => exact fun _ => rfl
  | cons move moves ih => exact fun v => (ih (v.step move)).trans (v.step_subscriber move)

/-- Whichever schema the view holds, its passes build the root that `b` builds of `n`. -/
structure Builds (v : View N C) (b : Builder N C) (n : Node) : Prop where
  builder : v.builder = b
  root : b.root v.schema = b.root n

namespace Builds

variable {v : View N C} {b : Builder N C} {n : Node} (h : v.Builds b n)

include h

/-- **No move** changes what the passes build. -/
theorem step (move : Move) : (v.step move).Builds b n :=
  ⟨(v.step_builder move).trans h.builder, (v.step_schema move).symm ▸ h.root⟩

theorem render : v.render.2.Builds b n :=
  h.step .render

theorem run (moves : List Move) : (v.run moves).Builds b n :=
  ⟨(run_builder moves v).trans h.builder, (run_schema moves v).symm ▸ h.root⟩

theorem pass : View.pass v.schema v.builder = View.pass n b := by
  unfold View.pass
  rw [h.builder, h.root]

theorem render_session : v.render.2.session = ((View.pass n b).runOn v.session).2 := by
  rw [v.render_session, h.pass]

end Builds

/-- A render that succeeds settles what the view has heard of. -/
theorem render_settled_ok {v : View N C} {node : Option N} (h : v.render.1 = .ok node) :
    v.render.2.settled = some v.render.2.heard := by
  rw [render_eq] at h ⊢
  simp only at h ⊢
  rw [h]
  rfl

/-- One that fails settles nothing. -/
theorem render_settled_error {v : View N C} (h : ∀ node, v.render.1 ≠ .ok node) :
    v.render.2.settled = v.settled := by
  rw [render_eq] at h ⊢
  simp only at h ⊢
  cases hout : ((pass v.schema v.builder).runOn v.session).1 with
  | error e => rfl
  | ok node => exact absurd hout (h node)

end View

/-! ### What runs keep -/

variable {n : Node}

theorem Handle.outline_writePath {h h' : Handle} {scope : ScopeId} {path : Path} {v : Value}
    (hw : h.writePath scope path v = .ok h') : h'.store.outline = h.store.outline := by
  unfold Handle.writePath at hw
  split at hw
  · cases hw
  · exact Handle.outline_write hw

theorem Act.writingPath_keeps (scope : ScopeId) (path : Path) (v : Value) :
    Keeps SameOutline (Act.writingPath scope path v) :=
  Keeps.writing fun _ _ hw => ⟨Handle.outline_writePath hw, rfl⟩

theorem Act.adding_keeps (scope : ScopeId) (ns : String) (members : Members Value) :
    Keeps SameOutline (Act.adding scope ns members) :=
  Site.opening_outline (fun _ _ h => h) fun _ _ h => Site.addData_outline h

/-- Writing at a path changes nothing, or it writes. -/
theorem Act.writingPath_runOn (s : Session) (scope : ScopeId) (path : Path) (v : Value) :
    (∃ e, s.handle.writePath scope path v = .error e ∧
        ((Act.writingPath scope path v).runOn s).2 = s) ∨
      ∃ handle, s.handle.writePath scope path v = .ok handle ∧
        ((Act.writingPath scope path v).runOn s).2 = { s with handle := handle } := by
  unfold Act.writingPath
  rw [runOn_writing]
  cases s.handle.writePath scope path v with
  | error e => exact .inl ⟨e, rfl, rfl⟩
  | ok handle => exact .inr ⟨handle, rfl, rfl⟩

/-- Where there is no namespace nothing is added. -/
theorem Act.adding_error {s : Session} {scope : ScopeId} {ns : String} {e : Fault}
    (h : s.store.space scope ns = .error e) (members : Members Value) :
    ((Act.adding scope ns members).runOn s).2 = s := by
  unfold Act.adding Store.addData
  rw [runOn_opening, show s.handle.store.space scope ns = .error e from h]
  rfl

/-- Members are added to the nearest frame of a namespace. -/
theorem Act.adding_ok {s : Session} {scope id : ScopeId} {ns : String} {f : Frame}
    (h : s.store.space scope ns = .ok (id, f)) (members : Members Value) :
    ((Act.adding scope ns members).runOn s).2 =
      s.withStore (s.store.modify id (Frame.extend · members)) := by
  unfold Act.adding Store.addData
  rw [runOn_opening, show s.handle.store.space scope ns = .ok (id, f) from h]
  rfl

section Passes

variable {N C : Type} {b : Builder N C}

/-- A pass is the building of the root between its beginning and its end. -/
theorem View.pass_eq (n : Node) (s : Session) :
    (View.pass n b).runOn s =
      match (b.root n).runOn s.begun with
      | (.ok node, t) => (.ok node, t.withStore t.store.finishPass.2)
      | (.error e, t) => (.error e, t) := by
  have hbegin : Act.beginPass.runOn s = (.ok (), s.begun) := rfl
  unfold View.pass
  rw [runOn_bind, hbegin]
  simp only [runOn_bind]
  rcases (b.root n).runOn s.begun with ⟨_ | _, _⟩ <;> rfl

/-- What a render comes to is what building the root comes to. -/
theorem View.render_outcome (v : View N C) :
    v.render.1 = ((v.builder.root v.schema).runOn v.session.begun).1 := by
  rw [View.render_eq, View.pass_eq]
  rcases (v.builder.root v.schema).runOn v.session.begun with ⟨_ | _, _⟩ <;> rfl

theorem View.Builds.render_outcome {v : View N C} (h : v.Builds b n) :
    v.render.1 = ((b.root n).runOn v.session.begun).1 := by
  rw [v.render_outcome, h.builder, h.root]

/-- **Building the root** keeps what building keeps. -/
theorem Builder.root_stays {K : Session → Session → Prop} [AllowsEntering n K]
    (hb : ∀ w id, b.Respects (Stays n K w id)) (hn : n.All Node.Orderly) :
    Keeps (Stays n K [] Store.rootId) (b.root n) := by
  unfold Builder.root
  split
  · exact Keeps.throw _
  · next hloop =>
    -- the root is a node in a frame of its own, like the content of a slot
    refine Site.place_stays Site.Lists.root (by simpa using hloop) fun site hsite => ?_
    exact Node.build_stays hb n site hn hsite

/-- **A pass** over a whole schema, if one can begin. -/
theorem View.pass_built (hb : b.Confined) (hn : n.All Node.Orderly) {s : Session}
    (hs : s.begun.Built n) : ((View.pass n b).runOn s).2.Built n := by
  have hroot : Keeps (Stays n (fun _ _ => True) [] Store.rootId) (b.root n) :=
    b.root_stays (fun _ _ => (hb.lets fun _ _ _ => trivial).respects) hn
  have hbuilt := hroot _ hs (.inl ⟨rfl, rfl⟩)
  rw [View.pass_eq]
  revert hbuilt
  rcases (b.root n).runOn s.begun with ⟨outcome, t⟩
  intro hbuilt
  cases outcome with
  | error e => exact hbuilt.1
  | ok node => exact hbuilt.1.finishPass

/-- A render leaves what building keeps, if its pass can begin. -/
theorem View.Builds.render_built {v : View N C} (h : v.Builds b n) (hb : b.Confined)
    (hn : n.All Node.Orderly) (hv : v.session.begun.Built n) : v.render.2.session.Built n := by
  rw [h.render_session]
  exact View.pass_built hb hn hv

/-- **Any other move** changes data, if anything. -/
theorem View.step_outline (v : View N C) {move : Move} (hmove : move ≠ .render) :
    SameOutline v.session (v.step move).session := by
  cases move with
  | render => exact absurd rfl hmove
  | fire listeners args =>
    exact Rendered.fireAll_keeps v.builder.config args listeners .null v.session
  | write scope path x => exact Act.writingPath_keeps scope path x v.session
  | add scope ns members => exact Act.adding_keeps scope ns members v.session

/-- The passes of the view build what `b` builds of `n`, and its session is as that leaves it. -/
structure View.Built (v : View N C) (b : Builder N C) (n : Node) : Prop extends v.Builds b n where
  session : v.session.Built n

/-- A view is so when it is mounted. -/
theorem View.mount_built (n : Node) (b : Builder N C) (k : Nat) : (View.mount n b k).Built b n :=
  ⟨⟨rfl, rfl⟩, Session.Built.start rfl rfl⟩

namespace View.Built

variable {v : View N C} (h : v.Built b n) (hb : b.Confined) (hn : n.All Node.Orderly)

include h hb hn

/-- It is so after each move. -/
theorem step (move : Move) : (v.step move).Built b n := by
  refine ⟨h.toBuilds.step move, ?_⟩
  by_cases hmove : move = .render
  · subst hmove
    exact h.toBuilds.render_built hb hn h.session.beginPass
  · exact h.session.of_outline (v.step_outline hmove)

theorem render : v.render.2.Built b n :=
  h.step hb hn .render

/-- It is so after **every run**. -/
theorem run (moves : List Move) : (v.run moves).Built b n := by
  induction moves generalizing v with
  | nil => exact h
  | cons move moves ih => exact ih (h.step hb hn move)

end View.Built

end Passes

end Trellis
