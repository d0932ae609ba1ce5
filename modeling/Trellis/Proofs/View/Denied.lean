import Trellis.Proofs.Build.Verbatim
import Trellis.Proofs.View.Run

/-!
# Expressions are denied

With expressions switched off no run of a view evaluates one, as long as its host writes no
functions: the view goes through the same states as that of the schema with literals in place of
the expressions, and renders the same.

* `View.Denied`: what can be said of a view in which nothing is evaluated.
* `View.Mirrors`: a view and that of the schema with literals.
* `View.expressions_denied`: both, after every run.
-/

namespace Trellis

open Schema Value Act

/-- A move that brings no function in. -/
def Move.Plain : Move → Prop
  | render => True
  | fire listeners _ => ∀ l ∈ listeners, l.Plain
  | write _ _ v => v.Plain
  | add _ _ members => PlainMembers members

/-- The move in the view of the schema with literals. -/
def Move.verbatim : Move → Move
  | fire listeners args => fire (listeners.map Listener.verbatim) args
  | move => move

namespace View

section Moves

variable {N C : Type}

/-- What a move comes to, its value apart. -/
def attempt (v : View N C) : Move → Except Fault Unit
  | .render => v.render.1.map fun _ => ()
  | .fire listeners args =>
    (v.perform (Rendered.fireAll v.builder.config args .null listeners)).1.map fun _ => ()
  | .write scope path x => (v.perform (Act.writingPath scope path x)).1
  | .add scope ns members => (v.perform (Act.adding scope ns members)).1

/-- The number of writes in a move: one if it is a write that succeeds. -/
def writes (v : View N C) : Move → Nat
  | .write scope path x => if (v.session.handle.writePath scope path x).isOk then 1 else 0
  | _ => 0

/-- The number of writes in a run. -/
def written (v : View N C) : List Move → Nat
  | [] => 0
  | move :: rest => v.writes move + (v.step move).written rest

end Moves

/-- Nothing is evaluated: no move comes to a fault of an expression, and rendering changes frames
alone. Listeners of what is rendered are bound to no functions; firing such a listener changes
nothing, and one bound to an expression gives its text. -/
structure Denied (v : View Rendered Rendered.Component) : Prop where
  attempt : ∀ move : Move, move.Plain → Tame (fun _ => True) (v.attempt move)
  render : v.session.Still v.render.2.session
  listeners : ∀ tree, v.render.1 = .ok (some tree) → ∀ l ∈ tree.listeners, l.Plain
  fire : ∀ l : Listener, l.Plain → ∀ args,
    ((l.fire v.builder.config args).runOn v.session).2 = v.session
  expression : ∀ (l : Listener) raw, l.handler = .binding (.expression raw) → ∀ args,
    (l.fire v.builder.config args).runOn v.session = (.ok (.string raw), v.session)

/-- The view differs from the other in its schema alone, which has literals for expressions. It
renders the same, with the same literals in listeners, and is left alike. -/
structure Mirrors (w v : View Rendered Rendered.Component) : Prop where
  state : w = { v with schema := v.schema.verbatim }
  outcome : w.render.1 = v.render.1.map (Option.map (Rendered.mapListeners Listener.verbatim))
  shown : w.render.1.map (Option.map Rendered.toJson) = v.render.1.map (Option.map Rendered.toJson)
  rendered : w.render.2 = { v.render.2 with schema := v.schema.verbatim }

/-- A view of a schema without functions, with none in its scopes and expressions switched off,
that renders plain trees of modest components. -/
structure Inert (v : View Rendered Rendered.Component) : Prop where
  builder : ∃ known config, v.builder = Builder.trees known config ∧
    ∀ name make, known name = some make → make.Modest
  off : v.builder.config.expressions = false
  schema : v.schema.All Node.Plain
  store : v.session.store.Plain

variable {v : View Rendered Rendered.Component}

theorem Inert.quiet (h : v.Inert) : v.builder.Quiet := by
  obtain ⟨known, config, hb, hknown⟩ := h.builder
  have hoff := h.off
  rw [hb] at hoff ⊢
  exact Builder.trees_quiet hoff fun name make hk => (hknown name make hk).quiet

/-! ### Rendering -/

theorem Inert.pass_quiet (h : v.Inert) :
    Act.Quiet (fun _ => True) (pass v.schema v.builder) := by
  refine Quiet.beginPass.bind fun _ _ => ?_
  refine (h.quiet.root h.schema).bind fun _ _ => ?_
  have hfinish : Act.Quiet (fun _ => True) (Act.opening fun s => .ok s.finishPass) :=
    .opening fun _ hs => ⟨trivial, hs.finishPass⟩
  exact hfinish.bind fun _ _ => .pure trivial

theorem Inert.render_still (h : v.Inert) : v.session.Still v.render.2.session := by
  rw [render_session]
  exact (h.pass_quiet v.session h.store).1

theorem Inert.render_tame (h : v.Inert) : Tame (fun _ => True) v.render.1 := by
  rw [render_eq]
  exact (h.pass_quiet v.session h.store).2

theorem Inert.listeners_plain (h : v.Inert) {tree : Rendered} (ht : v.render.1 = .ok (some tree)) :
    ∀ l ∈ tree.listeners, l.Plain := by
  obtain ⟨known, config, hb, hknown⟩ := h.builder
  rw [render_outcome, hb] at ht
  exact Builder.root_listeners (fun name make hk => (hknown name make hk).blind) h.schema ht

/-- **A pass** with literals in place of expressions. -/
theorem Inert.pass_verbatim (h : v.Inert) :
    pass v.schema.verbatim v.builder =
      Option.map (Rendered.mapListeners Listener.verbatim) <$> pass v.schema v.builder := by
  obtain ⟨known, config, hb, hknown⟩ := h.builder
  have hoff : config.expressions = false := by
    have := h.off
    rwa [hb] at this
  have hroot := Builder.root_rebind (Binding.resolve_verbatim hoff) (ψ := Handler.verbatim)
    (fun name make hk => (hknown name make hk).blind) v.schema
  unfold pass
  rw [hb, hroot]
  simp only [bind_map_left, map_bind, map_pure]

/-- **Rendering** with literals in place of expressions. -/
theorem Inert.render_verbatim (h : v.Inert) :
    View.render { v with schema := v.schema.verbatim } =
      (v.render.1.map (Option.map (Rendered.mapListeners Listener.verbatim)),
        { v.render.2 with schema := v.schema.verbatim }) := by
  have hrun : (pass v.schema.verbatim v.builder).runOn v.session =
      (((pass v.schema v.builder).runOn v.session).1.map
          (Option.map (Rendered.mapListeners Listener.verbatim)),
        ((pass v.schema v.builder).runOn v.session).2) := by
    rw [h.pass_verbatim, runOn_map]
  unfold render perform
  simp only [hrun]
  rcases (pass v.schema v.builder).runOn v.session with ⟨_ | _, _⟩ <;> rfl

/-! ### Moves -/

/-- **Assigning** members that are no functions is quiet. -/
theorem adding_quiet (scope : ScopeId) (ns : String) {members : Members Value}
    (hm : PlainMembers members) : Act.Quiet (fun _ => True) (Act.adding scope ns members) :=
  .opening fun _ hs => (hs.addData ns hm).map fun _ h => ⟨trivial, h⟩

/-- **Writing** what is no function keeps functions out, and is counted if it succeeds. -/
theorem writingPath_plain {s : Session} (hs : s.store.Plain) (scope : ScopeId) (path : Path)
    {x : Value} (hx : x.Plain) :
    Tame (fun _ => True) ((Act.writingPath scope path x).runOn s).1 ∧
      ((Act.writingPath scope path x).runOn s).2.store.Plain ∧
      ((Act.writingPath scope path x).runOn s).2.handle.revision =
        s.handle.revision + if (s.handle.writePath scope path x).isOk then 1 else 0 := by
  have hw : Tame (fun h : Handle => h.store.Plain ∧ h.revision = s.handle.revision + 1)
      (s.handle.writePath scope path x) := by
    unfold Handle.writePath
    split
    · exact id
    · exact (Store.Plain.write hs hx).bind fun _ hr => ⟨hr, rfl⟩
  rw [Act.writingPath, runOn_writing]
  cases hc : s.handle.writePath scope path x with
  | error e =>
    rw [hc] at hw
    exact ⟨hw, hs, rfl⟩
  | ok handle =>
    rw [hc] at hw
    exact ⟨trivial, hw⟩

theorem Inert.denied (h : v.Inert) : v.Denied where
  attempt move hm := by
    cases move with
    | render => exact h.render_tame.map fun _ _ => trivial
    | fire listeners args =>
      have hfire := Rendered.fireAll_plain h.off h.store args hm (v := .null) trivial
      exact hfire.1.map fun _ _ => trivial
    | write scope path x => exact (writingPath_plain h.store scope path hm).1
    | add scope ns members => exact (adding_quiet scope ns hm v.session h.store).2
  render := h.render_still
  listeners _ ht := h.listeners_plain ht
  fire l hl args := (l.fire_plain h.off h.store hl args).2
  expression _ _ hl args := Listener.fire_expression h.off hl args

/-- What a move leaves, if it brings no function in: an inert view again, with its writes counted. -/
theorem Inert.step (h : v.Inert) {move : Move} (hm : move.Plain) :
    (v.step move).Inert ∧
      (v.step move).session.handle.revision = v.session.handle.revision + v.writes move := by
  have hkept : (v.step move).session.store.Plain → (v.step move).Inert := fun hstore => by
    refine ⟨?_, ?_, ?_, hstore⟩
    · rw [v.step_builder]
      exact h.builder
    · rw [v.step_builder]
      exact h.off
    · rw [v.step_schema]
      exact h.schema
  -- all moves but writes leave the revision as it is
  have hstill : ∀ {t : Session}, v.session.Still t → (v.step move).session = t →
      v.writes move = 0 → (v.step move).Inert ∧
        (v.step move).session.handle.revision = v.session.handle.revision + v.writes move := by
    rintro t ⟨hplain, _, _, rfl⟩ ht hnone
    exact ⟨hkept (ht ▸ hplain), by rw [ht, hnone]; rfl⟩
  cases move with
  | render => exact hstill h.render_still rfl rfl
  | fire listeners args =>
    have hsame := (Rendered.fireAll_plain h.off h.store args hm (v := .null) trivial).2
    exact hstill (.refl h.store) hsame rfl
  | write scope path x =>
    obtain ⟨-, hplain, hcount⟩ := writingPath_plain h.store scope path hm
    exact ⟨hkept hplain, hcount⟩
  | add scope ns members => exact hstill (adding_quiet scope ns hm v.session h.store).1 rfl rfl

/-- **A move** in the view of the schema with literals. -/
theorem Inert.step_verbatim (h : v.Inert) {move : Move} (hm : move.Plain) :
    View.step { v with schema := v.schema.verbatim } move.verbatim =
      { v.step move with schema := v.schema.verbatim } := by
  cases move with
  | render => exact congrArg Prod.snd h.render_verbatim
  | fire listeners args =>
    have hverbatim : ∀ l ∈ listeners.map Listener.verbatim, l.Plain := by
      intro l hl
      obtain ⟨l', hl', rfl⟩ := List.mem_map.1 hl
      exact Listener.plain_verbatim (hm l' hl')
    -- firing leaves the session of either view as it was
    have hstep : ∀ ls, (∀ l ∈ ls, l.Plain) →
        ((Rendered.fireAll v.builder.config args .null ls).runOn v.session).2 = v.session :=
      fun ls hls => (Rendered.fireAll_plain h.off h.store args hls (v := .null) trivial).2
    have hleft := congrArg (fun s => { v with schema := v.schema.verbatim, session := s })
      ((hstep _ hverbatim).trans (hstep listeners hm).symm)
    exact hleft
  | write scope path x => rfl
  | add scope ns members => rfl

/-- **Every run** of an inert view goes through inert views, and counts the writes of its host. -/
theorem Inert.run (moves : List Move) : ∀ {v : View Rendered Rendered.Component}, v.Inert →
    (∀ move ∈ moves, move.Plain) → (v.run moves).Inert ∧
      (v.run moves).session.handle.revision = v.session.handle.revision + v.written moves := by
  induction moves with
  | nil => exact fun h _ => ⟨h, rfl⟩
  | cons move moves ih =>
    intro v h hmoves
    obtain ⟨hm, hrest⟩ := List.forall_mem_cons.1 hmoves
    obtain ⟨hstep, hcount⟩ := h.step hm
    obtain ⟨hrun, htotal⟩ := ih hstep hrest
    refine ⟨hrun, htotal.trans ?_⟩
    rw [hcount, written, Nat.add_assoc]

/-- **Every run** in the view of the schema with literals. -/
theorem Inert.run_verbatim (moves : List Move) : ∀ {v : View Rendered Rendered.Component}, v.Inert →
    (∀ move ∈ moves, move.Plain) →
      View.run { v with schema := v.schema.verbatim } (moves.map Move.verbatim) =
        { v.run moves with schema := v.schema.verbatim } := by
  induction moves with
  | nil => exact fun _ _ => rfl
  | cons move moves ih =>
    intro v h hmoves
    obtain ⟨hm, hrest⟩ := List.forall_mem_cons.1 hmoves
    -- the rest of the run begins in the two views this move leaves
    have hnext := ih (h.step hm).1 hrest
    rw [v.step_schema] at hnext
    change View.run (View.step _ move.verbatim) _ = _
    rw [h.step_verbatim hm, hnext]
    rfl

theorem Inert.mirrors (h : v.Inert) : Mirrors { v with schema := v.schema.verbatim } v where
  state := rfl
  outcome := congrArg Prod.fst h.render_verbatim
  shown := by
    rw [h.render_verbatim]
    rcases v.render.1 with e | _ | tree
    · rfl
    · rfl
    · exact congrArg (fun j => Except.ok (some j)) tree.toJson_mapListeners
  rendered := congrArg Prod.snd h.render_verbatim

/-- A view of a loaded schema is inert before its first move. -/
theorem Inert.mount {j : Json} {n : Node} (hn : Node.ofJson j = .ok n)
    {known : Registry Rendered.Component}
    (hknown : ∀ name make, known name = some make → make.Modest) {config : Config}
    (hoff : config.expressions = false) (k : Nat) :
    (View.mount n (Builder.trees known config) k).Inert :=
  ⟨⟨known, config, rfl, hknown⟩, hoff, Node.plain_of_ofJson hn, Store.plain_new⟩

/-- **Expressions are denied.** With expressions switched off, whatever schema was loaded and
whatever its host does, as long as it writes no functions and its components are modest: nothing is
evaluated, the view goes along with that of the schema with literals in place of its expressions,
and the writes of the host are all that is counted. -/
theorem expressions_denied {j : Json} {n : Node} (hn : Node.ofJson j = .ok n)
    {known : Registry Rendered.Component}
    (hknown : ∀ name make, known name = some make → make.Modest) {config : Config}
    (hoff : config.expressions = false) (k : Nat) {moves : List Move}
    (hmoves : ∀ move ∈ moves, move.Plain) :
    let mounted := View.mount n (Builder.trees known config) k
    let mirror := View.mount n.verbatim (Builder.trees known config) k
    (mounted.run moves).Denied ∧
      (mirror.run (moves.map Move.verbatim)).Mirrors (mounted.run moves) ∧
      (mounted.run moves).session.handle.revision = mounted.written moves := by
  intro mounted mirror
  have hmounted : mounted.Inert := .mount hn hknown hoff k
  obtain ⟨hinert, hcount⟩ := Inert.run moves hmounted hmoves
  have hmirror : mirror.run (moves.map Move.verbatim) =
      { mounted.run moves with schema := n.verbatim } := Inert.run_verbatim moves hmounted hmoves
  have hschema : (mounted.run moves).schema = n := mounted.run_schema moves
  rw [hmirror, ← hschema]
  exact ⟨hinert.denied, hinert.mirrors, hcount.trans (Nat.zero_add _)⟩

/-- A node whose text and listener are expressions. -/
def deniedSchema : Json :=
  .object
    [("component", .string "b"), ("namespace", .string "n"),
      ("data", .object [("a", .null)]), (":text", .string "|> n.a"),
      ("on", .object [(":click", .string "|> f()")])]

/-- The schema it loads to. -/
def deniedNode : Node :=
  .mk
    { Directives.plain (.named "b") with
      ns := some "n"
      data := some [("a", .null)]
      boundText := some (.expression "|> n.a")
      on := [("click", .binding (.expression "|> f()"))] }
    none []

/-- It is rendered and clicked, its data is written and added to, and it is rendered again. -/
def deniedMoves : List Move :=
  [.render, .fire [⟨"click", .binding (.expression "|> f()"), 1⟩] [],
    .write 1 ⟨"n", none, ["a"]⟩ (.bool true), .add 1 "n" [("b", .null)], .render]

/-- One of these moves is a write; the others are not counted. -/
theorem expressions_denied_click :
    Node.ofJson deniedSchema = .ok deniedNode ∧ (∀ move ∈ deniedMoves, move.Plain) ∧
      let mounted := View.mount deniedNode (Builder.trees Rendered.samples Config.default) 0
      let mirror := View.mount deniedNode.verbatim (Builder.trees Rendered.samples Config.default) 0
      (mounted.run deniedMoves).Denied ∧
        (mirror.run (deniedMoves.map Move.verbatim)).Mirrors (mounted.run deniedMoves) ∧
        (mounted.run deniedMoves).session.handle.revision = 1 := by
  have hload : Node.ofJson deniedSchema = .ok deniedNode := rfl
  have hmoves : ∀ move ∈ deniedMoves, move.Plain := by
    simp [deniedMoves, Move.Plain, Listener.Plain, Handler.Plain, Binding.Plain, Value.Plain,
      PlainMembers]
  have hoff : Config.default.expressions = false := rfl
  obtain ⟨hdenied, hmirrors, hcount⟩ :=
    expressions_denied hload Rendered.samples_modest hoff 0 hmoves
  refine ⟨hload, hmoves, hdenied, hmirrors, hcount.trans ?_⟩
  decide +kernel

end View

end Trellis
