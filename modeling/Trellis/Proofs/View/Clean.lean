import Trellis.Proofs.Scope.Plain
import Trellis.Proofs.View.Idempotent

/-!
# A view that is clean

A view is clean if it was rendered and nothing was written since. Rendering it again comes to the
same document with expressions switched off, and otherwise if the render before wrote nothing itself
and found no functions in the namespaces: what was written in the middle of a render is not written
since, and what a function keeps to itself changes without a write.

* `View.Shows`: the last render of a run that succeeds.
* `View.fails_or_shows`, `View.Shows.unwritten`: a clean view was rendered, and heard of nothing
  since.
* `Session.Calm`: evaluating that writes nothing changes no frame.
* `Builder.trees_again`: a second pass; `Builder.Repeats`: all passes from there on.
* `View.clean_up_to_date`: rendering a clean view.
-/

namespace Trellis

open Schema Session Act Value

/-! ### The last render -/

namespace View

variable {N C : Type}

/-- No render of a run succeeds. -/
def Fails : View N C → List Move → Prop
  | _, [] => True
  | v, move :: moves =>
    (move = .render → ∀ node, v.render.1 ≠ .ok node) ∧ (v.step move).Fails moves

/-- The last render of a run that succeeds: what was done before it and after it, and what it made. -/
structure Shows (v : View N C) (moves before after : List Move) (node : Option N) : Prop where
  split : moves = before ++ .render :: after
  made : (v.run before).render.1 = .ok node
  last : (v.run before).render.2.Fails after

theorem step_settled {v : View N C} {move : Move}
    (h : move = .render → ∀ node, v.render.1 ≠ .ok node) : (v.step move).settled = v.settled := by
  cases move with
  | render => exact render_settled_error (h rfl)
  | fire => rfl
  | write => rfl
  | add => rfl

theorem fails_settled (moves : List Move) :
    ∀ v : View N C, v.Fails moves → (v.run moves).settled = v.settled := by
  induction moves with
  | nil => exact fun _ _ => rfl
  | cons move moves ih => exact fun v h => (ih _ h.2).trans (step_settled h.1)

/-- **In a run** no render succeeds, or one is the last that does. -/
theorem fails_or_shows (moves : List Move) :
    ∀ v : View N C, v.Fails moves ∨ ∃ before after node, v.Shows moves before after node := by
  induction moves with
  | nil => exact fun _ => .inl trivial
  | cons move moves ih =>
    intro v
    rcases ih (v.step move) with hfails | ⟨before, after, node, hsplit, hmade, hlast⟩
    · by_cases hmove : move = .render → ∀ node, v.render.1 ≠ .ok node
      · exact .inl ⟨hmove, hfails⟩
      · push Not at hmove
        obtain ⟨rfl, node, hnode⟩ := hmove
        exact .inr ⟨[], moves, node, rfl, hnode, hfails⟩
    · exact .inr ⟨move :: before, after, node, congrArg _ hsplit, hmade, hlast⟩

/-- What a run settles is what the view had heard of when it was last rendered. -/
theorem Shows.settled {v : View N C} {moves before after : List Move} {node : Option N}
    (h : v.Shows moves before after node) :
    (v.run moves).settled = some (v.run before).render.2.heard := by
  rw [h.split, run, List.foldl_append]
  exact (fails_settled after _ h.last).trans (render_settled_ok h.made)

end View

/-! ### Nothing written -/

namespace Session

variable {n : Node} {s t u : Session} {w : Way}

/-- As long as nothing is written, no frame is changed. -/
structure Calm (s t : Session) : Prop where
  revision : s.handle.revision ≤ t.handle.revision
  same : t.handle.revision = s.handle.revision → t.handle = s.handle

instance : AllowsEvaluation Calm where
  trans s t u h h' := by
    have hle := h.revision
    have hle' := h'.revision
    refine ⟨Nat.le_trans hle hle', fun heq => ?_⟩
    rw [h'.same (by omega), h.same (by omega)]
  inner s t hh _ := ⟨Nat.le_of_eq (by rw [hh]), fun _ => hh.symm⟩
  write s scope ns keys v h hw := by
    have hr := revision_write hw
    refine ⟨?_, fun heq => ?_⟩
    · change s.handle.revision ≤ h.revision
      omega
    · change h.revision = s.handle.revision at heq
      omega

theorem standing_of_handle (h : t.handle = s.handle) : t.standing n w = s.standing n w := by
  unfold standing dataAt Session.store
  rw [h]

/-- The namespaces hold no functions, but for what loops set. -/
def Functionless (n : Node) (s : Session) : Prop :=
  ∀ w, ((Locus.content n).after w).isSome → (s.standing n w).Plain

/-- A store without functions has none in the namespaces. -/
theorem Functionless.of_plain (hs : s.store.Plain) (hn : n.All Node.Plain) : s.Functionless n := by
  intro w _
  have hdata : ((s.dataAt w).getD (n.fresh w)).Plain := by
    cases hd : s.dataAt w with
    | some d =>
      obtain ⟨f, hf, rfl⟩ := Option.map_eq_some_iff.1 hd
      obtain ⟨id, -, hf⟩ := Option.bind_eq_some_iff.1 hf
      exact Store.Plain.frame? hs hf
    | none =>
      refine PlainMembers.extend (m := []) trivial ?_
      cases hseed : n.seedAt w with
      | none => exact trivial
      | some members =>
        obtain ⟨m, hm, hmembers⟩ := Node.seedAt_all hn hseed
        exact hm.data members hmembers
  unfold standing Way.lasting
  cases w.getLast? with
  | none => exact hdata
  | some step =>
    cases step with
    | space => exact hdata
    | slot => exact trivial
    | turn =>
      revert hdata
      cases (s.dataAt w).getD (n.fresh w) with
      | object members => exact fun h => PlainMembers.assign h loopKey trivial
      | _ => exact id

/-- Writes are counted upwards. -/
instance (r : Nat) : AllowsBuilding n (Keeping fun s => r ≤ s.handle.revision) where
  trans _ _ _ h h' hs := h' (h hs)
  inner s t hh _ hs := by
    change r ≤ t.handle.revision
    rw [← hh]
    exact hs
  write s scope ns keys v h hw hs := by
    have hr := revision_write hw
    change r ≤ h.revision
    change r ≤ s.handle.revision at hs
    omega
  enter h _ hs := by
    obtain ⟨store, rfl⟩ := h.rest
    exact hs

end Session

/-! ### A second pass -/

/-- From the frames of a handle on, passes over the schema come to the same document. -/
def Builder.Repeats (b : Builder Rendered Rendered.Component) (n : Node) (handle : Handle)
    (node : Option Rendered) : Prop :=
  ∀ t : Session, t.Built n → t.handle = handle →
    ∃ node' u, (b.root n).runOn t.begun = (.ok node', u) ∧
      node'.map Rendered.toJson = node.map Rendered.toJson

section Again

variable {n : Node} {config : Config} {known : Registry Rendered.Component} {s t u : Session}

/-- Two passes between which functions count as the same that are made in corresponding steps. -/
def Tandem.paced (n : Node) (s t : Session) (watched : Way → Prop) : Tandem :=
  ⟨n, s.begun, t.begun, watched, Tandem.Fellow s.begun t.begun⟩

theorem Tandem.paced_fair (hfree : n.ClashFree) (watched : Way → Prop) :
    (Tandem.paced n s t watched).Fair where
  free := hfree
  mono h _ _ := Tandem.Fellow.mono h
  faithful _ := Tandem.Fellow.faithful

theorem Tandem.paced_regular (hn : n.All Node.Orderly) (hplain : n.All Node.Plain)
    (watched : Way → Prop) : (Tandem.paced n s t watched).Regular where
  orderly := hn
  shared := hplain.imp fun _ h => Directives.Over.of_plain (fun _ hv => Tandem.Shared.of_plain hv) h

variable (hhonest : ∀ name make, known name = some make → make.Honest)
  (hsteady : ∀ name make, known name = some make → make.Steady)

include hhonest hsteady

/-- **A second pass** over the frames as the first one left them comes to the same document, if the
first one wrote nothing and what it found counts as the same as itself. -/
theorem Builder.trees_again {c : Tandem} (hc : c.Fair) (hn : c.Regular) (hagrees : c.Agrees config)
    (hs : s.Built c.schema) {node : Option Rendered}
    (hrun : ((Builder.trees known config).root c.schema).runOn s.begun = (.ok node, u))
    (hunwritten : s.Unwritten u) (ht : t.Built c.schema) (hsame : t.handle = u.finished.handle)
    (hleft : c.left = s.begun) (hright : c.right = t.begun)
    (hwatched : c.watched = fun w => ∃ id, u.Has w id)
    (hself : ∀ w, ((Locus.content c.schema).after w).isSome →
      Alike (c.fellows Tandem.Pairs.root) (s.standing c.schema w) (s.standing c.schema w)) :
    ∃ node' u', ((Builder.trees known config).root c.schema).runOn t.begun = (.ok node', u') ∧
      node'.map Rendered.toJson = node.map Rendered.toJson := by
  have hu : s.Passes c.schema u := by
    have hpasses := Builder.root_passes (b := Builder.trees known config)
      (fun w id => (Rendered.honest hhonest config _).respects) hn.orderly hs
    rwa [hrun] at hpasses
  have hmeets := Tandem.passes_meet hc hn (Rendered.trees_steady hc hhonest hsteady config) hagrees
    ⟨hleft, hright, hs, ht, hwatched ▸ ⟨_, .inl ⟨rfl, rfl⟩⟩, fun w hw hleads => by
      -- what the first pass found on its ways it has left there
      rw [hwatched] at hw
      obtain ⟨id, hw⟩ := hw
      rw [(standing_of_handle hsame).trans (hu.standing_finished hc.free hunwritten hw)]
      exact hself w hleads⟩
    fun v hv => by
      rw [hrun] at hv
      rw [hwatched]
      exact ⟨v.scope, .inr hv⟩
  rw [hrun] at hmeets
  generalize ((Builder.trees known config).root c.schema).runOn t.begun = y at hmeets
  obtain ⟨_ | node', u'⟩ := y
  · exact hmeets.elim
  · obtain ⟨P, -, hnode, -⟩ := hmeets
    refine ⟨node', u', rfl, ?_⟩
    cases hnode with
    | none => rfl
    | some hlike => exact congrArg some hlike.toJson_eq.symm

variable (hn : n.All Node.Orderly) (hfree : n.ClashFree)

include hn hfree

/-- So it does after a pass that wrote nothing and found no functions. -/
theorem Builder.trees_repeat (hplain : n.All Node.Plain) (hs : s.Built n) {node : Option Rendered}
    (hrun : ((Builder.trees known config).root n).runOn s.begun = (.ok node, u))
    (hunwritten : s.Unwritten u) (hfunctionless : s.Functionless n) :
    (Builder.trees known config).Repeats n u.finished.handle node := fun t ht hsame =>
  have hc := Tandem.paced_fair (s := s) (t := t) hfree fun w => ∃ id, u.Has w id
  Builder.trees_again hhonest hsteady hc (Tandem.paced_regular hn hplain _) (hc.agrees rfl config) hs
    hrun hunwritten ht hsame rfl rfl rfl fun w hleads => Alike.refl (hfunctionless w hleads)

omit hhonest in
/-- So it does with expressions switched off. -/
theorem Builder.trees_repeat_off (hoff : config.expressions = false)
    (hsecluded : ∀ name make, known name = some make → make.Secluded) (hs : s.Built n)
    {node : Option Rendered}
    (hrun : ((Builder.trees known config).root n).runOn s.begun = (.ok node, u)) :
    (Builder.trees known config).Repeats n u.finished.handle node := fun t ht hsame => by
  have hunwritten := (Builder.trees known config).root_stays (K := Unwritten)
    (fun w id => Builder.Lets.respects_off hoff
      (Rendered.lets (fun name make hk => hsecluded name make hk _) config)) hn s.begun hs.beginPass
    (.inl ⟨rfl, rfl⟩)
  rw [hrun] at hunwritten
  have hc : (Tandem.level n s t fun w => ∃ id, u.Has w id).Fair := Tandem.level_fair hfree
  exact Builder.trees_again (fun name make hk R _ => hsecluded name make hk R) hsteady hc
    (Tandem.level_regular hn) (hc.agrees_off hoff) hs hrun hunwritten.2.2 ht hsame rfl rfl rfl
    fun w _ => Alike.self _

end Again

/-! ### Runs -/

/-- The view is told of what such a move writes, as it is not of members that are added. -/
def Move.Tells : Move → Prop
  | .add _ _ _ => False
  | _ => True

namespace View

variable {N C : Type} {b : Builder N C} {n : Node} {handle : Handle}

/-- Firing and writing are calm. -/
theorem step_calm {v : View N C} {move : Move} (htells : move.Tells) (hmove : move ≠ .render) :
    v.session.Calm (v.step move).session := by
  cases move with
  | render => exact absurd rfl hmove
  | fire listeners args =>
    exact Rendered.fireAll_keeps (R := Calm) v.builder.config args listeners .null v.session
  | write scope path x =>
    have hkeeps : Keeps Calm (Act.writingPath scope path x) :=
      Keeps.writing fun s h hw =>
        AllowsEvaluation.write s scope path.ns path.keys x h (Handle.write_of_writePath hw)
    exact hkeeps v.session
  | add => exact htells.elim

/-- **As long as nothing is written** and no render succeeds, no frame is changed, if rendering would
succeed as long as none is. -/
theorem Built.run_same (hb : b.Honest) (hn : n.All Node.Orderly)
    (hagain : ∀ t : Session, t.Built n → t.handle = handle →
      ∃ node u, (b.root n).runOn t.begun = (.ok node, u))
    {moves : List Move} (htells : ∀ move ∈ moves, move.Tells) {v : View N C} (hv : v.Built b n)
    (hsame : v.session.handle = handle) (hfails : v.Fails moves)
    (hunwritten : (v.run moves).session.handle.revision ≤ handle.revision) :
    (v.run moves).session.handle = handle := by
  induction moves generalizing v with
  | nil => exact hsame
  | cons move moves ih =>
    have hstep := hv.step hb.confined hn move
    by_cases hmove : move = .render
    · -- it would have succeeded
      obtain ⟨node, u, hrun⟩ := hagain v.session hv.session hsame
      exact absurd (hv.render_ok hrun).1 (hfails.1 hmove node)
    · have hcalm := step_calm (v := v) (htells move List.mem_cons_self) hmove
      have hlater : (v.step move).session.handle.revision ≤
          ((v.step move).run moves).session.handle.revision :=
        hstep.run_keeps (I := fun s => (v.step move).session.handle.revision ≤ s.handle.revision)
          hb hn (fun _ _ h => h) (fun _ _ h => h)
          (fun s scope ns members h => by
            cases hspace : s.store.space scope ns with
            | error e => rwa [Act.adding_error hspace]
            | ok x => rw [Act.adding_ok hspace]; exact h)
          moves (Nat.le_refl _)
      have hle := hcalm.revision
      refine ih (fun m hm => htells m (List.mem_cons_of_mem _ hm)) hstep
        ((hcalm.same ?_).trans hsame) hfails.2 hunwritten
      change ((v.step move).run moves).session.handle.revision ≤ handle.revision at hunwritten
      rw [hsame] at hle ⊢
      omega

/-- **A view is shown again** as long as nothing is written, if from its frames on passes come to the
same document. -/
theorem Built.render_again {known : Registry Rendered.Component} {config : Config}
    {v : View Rendered Rendered.Component} (hv : v.Built (Builder.trees known config) n)
    (hb : (Builder.trees known config).Honest) (hn : n.All Node.Orderly) {node : Option Rendered}
    (hrepeats : (Builder.trees known config).Repeats n v.session.handle node) {after : List Move}
    (htells : ∀ move ∈ after, move.Tells) (hfails : v.Fails after)
    (hunheard : (v.run after).session.handle.revision ≤ v.session.handle.revision) :
    ∃ node', (v.run after).render.1 = .ok node' ∧
      node'.map Rendered.toJson = node.map Rendered.toJson := by
  -- no render since has failed, and nothing else has changed a frame
  have hsame : (v.run after).session.handle = v.session.handle :=
    Built.run_same hb hn (fun t ht hsame =>
      have ⟨node', u, hrun, _⟩ := hrepeats t ht hsame
      ⟨node', u, hrun⟩) htells hv rfl hfails hunheard
  have hafter := hv.run hb.confined hn after
  obtain ⟨node', u, hrun, hjson⟩ := hrepeats _ hafter.session hsame
  exact ⟨node', (hafter.render_ok hrun).1, hjson⟩

/-- A view that was mounted has heard of all writes. -/
theorem run_heard (hb : b.Honest) (hn : n.All Node.Orderly) (k : Nat) (moves : List Move) :
    ((View.mount n b k).run moves).heard =
      ((View.mount n b k).run moves).session.handle.revision := by
  have htallied := (View.mount_built n b k).run_tallied hb hn (View.mount_tallied n b k) moves
  have hsubscriber : ((View.mount n b k).run moves).subscriber = 0 := View.run_subscriber moves _
  unfold heard Handle.heard
  rw [hsubscriber, List.filter_eq_self.2 fun d hd => decide_eq_true (htallied.own d hd),
    htallied.deliveries]

/-- A run up to its last render that succeeds, and from there on. -/
theorem Shows.run_eq {v : View N C} {moves before after : List Move} {node : Option N}
    (h : v.Shows moves before after node) : v.run moves = (v.run before).render.2.run after := by
  rw [h.split, View.run, List.foldl_append]
  rfl

/-- **A clean view** was not written to since it was last rendered. -/
theorem Shows.unwritten (hb : b.Honest) (hn : n.All Node.Orderly) {k : Nat}
    {moves before after : List Move} {node : Option N}
    (h : (View.mount n b k).Shows moves before after node)
    (hclean : ((View.mount n b k).run moves).isDirty = false) :
    ((View.mount n b k).run moves).session.handle.revision ≤
      ((View.mount n b k).run before).render.2.session.handle.revision := by
  have hrendered : (View.mount n b k).run (before ++ [.render]) =
      ((View.mount n b k).run before).render.2 := by
    rw [View.run, List.foldl_append]
    rfl
  rw [← View.run_heard hb hn k moves, ← hrendered, ← View.run_heard hb hn k _, hrendered]
  unfold View.isDirty at hclean
  rw [h.settled] at hclean
  simpa using hclean

end View

/-- **A clean view is up to date.** A view of a loaded schema in whose slots' names there is no slash
is clean after a run only if it was rendered. With expressions switched off and components that do
nothing but reach through their slots, or if the last render that succeeded wrote nothing and found
no functions in the namespaces, the next one succeeds and makes the same document. -/
theorem View.clean_up_to_date {j : Json} {n : Node} (hn : Node.ofJson j = .ok n)
    (hnames : n.All Node.Unslashed) {known : Registry Rendered.Component}
    (hhonest : ∀ name make, known name = some make → make.Honest)
    (hsteady : ∀ name make, known name = some make → make.Steady) (config : Config) (k : Nat)
    (moves : List Move) (htells : ∀ move ∈ moves, move.Tells)
    (hclean : ((View.mount n (Builder.trees known config) k).run moves).isDirty = false) :
    let mounted := View.mount n (Builder.trees known config) k
    (∃ before after node, mounted.Shows moves before after node) ∧
      ∀ before after node, mounted.Shows moves before after node →
        let u := mounted.run before
        (config.expressions = false ∧ ∀ name make, known name = some make → make.Secluded) ∨
          (u.render.2.session.handle.revision = u.session.handle.revision ∧
            u.session.Functionless n) →
        ∃ node', (mounted.run moves).render.1 = .ok node' ∧
          node'.map Rendered.toJson = node.map Rendered.toJson := by
  intro mounted
  have hb : (Builder.trees known config).Honest := Rendered.honest hhonest config
  have horderly := (Node.proper_of_ofJson hn).orderly
  have hfree := Node.ClashFree.of_unslashed hnames
  constructor
  · rcases View.fails_or_shows moves mounted with hfails | hshows
    · have hsettled : (mounted.run moves).settled = none := View.fails_settled moves mounted hfails
      have hdirty : (mounted.run moves).isDirty = true := by
        unfold View.isDirty
        rw [hsettled]
      exact absurd (hclean.symm.trans hdirty) nofun
    · exact hshows
  · intro before after node hshows u hcalm
    have hu : u.Built (Builder.trees known config) n :=
      (View.mount_built n _ k).run hb.confined horderly before
    obtain ⟨u', hrun, hsession⟩ := hu.render_made hshows.made
    have hrepeats : (Builder.trees known config).Repeats n u.render.2.session.handle node := by
      rw [hsession]
      rcases hcalm with ⟨hoff, hsecluded⟩ | ⟨hunwritten, hfunctionless⟩
      · exact Builder.trees_repeat_off hsteady horderly hfree hoff hsecluded hu.session hrun
      · rw [hsession] at hunwritten
        exact Builder.trees_repeat hhonest hsteady horderly hfree (Node.plain_of_ofJson hn)
          hu.session hrun hunwritten hfunctionless
    have hunheard := hshows.unwritten hb horderly hclean
    rw [hshows.run_eq] at hunheard ⊢
    exact (hu.render hb.confined horderly).render_again hb horderly hrepeats
      (fun m hm => htells m (hshows.split ▸ List.mem_append_right _ (List.mem_cons_of_mem _ hm)))
      hshows.last hunheard

/-- A text that a click changes. -/
def textSchema : Json :=
  .object
    [("component", .string "p"), ("namespace", .string "n"),
      ("data", .object [("a", .string "x")]), (":text", .string "|> n.a"),
      ("on", .object [(":click", .string "|> n.a = 'y'")])]

/-- The schema it loads to. -/
def textNode : Node :=
  .mk
    { Directives.plain (.named "p") with
      ns := some "n"
      data := some [("a", .string "x")]
      boundText := some (.expression "|> n.a")
      on := [("click", .binding (.expression "|> n.a = 'y'"))] }
    none []

/-- The text is rendered; then a listener reads it, and a write fails. -/
def readingMoves : List Move :=
  [.render, .fire [⟨"focus", .binding (.expression "|> n.a"), 1⟩] [],
    .write 1 ⟨"n", none, ["b", "c"]⟩ .null]

/-- A text that was only read is rendered as before. -/
theorem View.clean_up_to_date_text :
    Node.ofJson textSchema = .ok textNode ∧
      let mounted := View.mount textNode (Builder.trees Rendered.samples ⟨true⟩) 0
      (mounted.run readingMoves).isDirty = false ∧
        ∃ node node', mounted.render.1 = .ok node ∧
          (mounted.run readingMoves).render.1 = .ok node' ∧
            node'.map Rendered.toJson = node.map Rendered.toJson := by
  have hload : Node.ofJson textSchema = .ok textNode := rfl
  have hnames : textNode.All Node.Unslashed := ⟨nofun, trivial⟩
  have hclean : ((View.mount textNode (Builder.trees Rendered.samples ⟨true⟩) 0).run
      readingMoves).isDirty = false := by
    decide +kernel
  have hok :
      (View.mount textNode (Builder.trees Rendered.samples ⟨true⟩) 0).render.1.isOk = true := by
    decide +kernel
  have hunwritten : (View.mount textNode (Builder.trees Rendered.samples ⟨true⟩)
      0).render.2.session.handle.revision = (View.mount textNode
        (Builder.trees Rendered.samples ⟨true⟩) 0).session.handle.revision := by
    decide +kernel
  have hfunctionless : (View.mount textNode (Builder.trees Rendered.samples ⟨true⟩)
      0).session.Functionless textNode :=
    .of_plain Store.plain_new (Node.plain_of_ofJson hload)
  have htells : ∀ move ∈ readingMoves, move.Tells := by
    simp [readingMoves, Move.Tells]
  have hagain := (View.clean_up_to_date hload hnames Rendered.samples_honest
    Rendered.samples_steady ⟨true⟩ 0 readingMoves htells hclean).2 [] readingMoves.tail
  have hrun : ∀ v : View Rendered Rendered.Component, v.run [] = v := fun _ => rfl
  simp only [hrun] at hagain
  generalize View.mount textNode (Builder.trees Rendered.samples ⟨true⟩) 0 = mounted at *
  refine ⟨hload, hclean, ?_⟩
  cases hmade : mounted.render.1 with
  | error e => rw [hmade] at hok; cases hok
  | ok node =>
    obtain ⟨node', hrender, hjson⟩ := hagain node ⟨rfl, hmade, nofun, nofun, trivial⟩
      (.inr ⟨hunwritten, hfunctionless⟩)
    exact ⟨node, node', rfl, hrender, hjson⟩

/-! ### Clean views that are not up to date -/

/-- A view of the schema that was rendered, and is clean after further moves, of which none is a
render; and the next render makes another document. -/
def Json.Outdated (j : Json) (config : Config) (before after : List Move) : Prop :=
  ∃ n, Node.ofJson j = .ok n ∧ Move.render ∉ after ∧
    let u := (View.mount n (Builder.trees Registry.empty config) 0).run before
    let v := u.render.2.run after
    v.isDirty = false ∧ ∃ node node', u.render.1 = .ok (some node) ∧
      v.render.1 = .ok (some node') ∧ node'.toJson ≠ node.toJson

/-- Whether their texts tell. -/
def Json.outdated (j : Json) (config : Config) (before after : List Move) : Bool :=
  match Node.ofJson j with
  | .error _ => false
  | .ok n =>
    let u := (View.mount n (Builder.trees Registry.empty config) 0).run before
    let v := u.render.2.run after
    !v.isDirty && match u.render.1, v.render.1 with
      | .ok (some node), .ok (some node') => node'.toJson.text != node.toJson.text
      | _, _ => false

theorem Json.Outdated.of_check {j : Json} {config : Config} {before after : List Move}
    (hafter : Move.render ∉ after) (h : j.outdated config before after = true) :
    j.Outdated config before after := by
  unfold outdated at h
  split at h
  · cases h
  · next n hn =>
    simp only [Bool.and_eq_true, Bool.not_eq_true'] at h
    obtain ⟨hclean, hshown⟩ := h
    refine ⟨n, hn, hafter, hclean, ?_⟩
    split at hshown
    · next node node' hmade hrender =>
      refine ⟨node, node', hmade, hrender, fun heq => ?_⟩
      rw [heq, bne_self_eq_false] at hshown
      cases hshown
    · cases hshown

/-- An attribute that is read before another one writes what it shows. -/
def lateSchema : Json :=
  .object
    [("component", .string "p"), ("namespace", .string "n"),
      ("data", .object [("a", .string "old")]),
      ("attrs", .object [(":x", .string "n.a"), (":y", .string "|> n.a = 'new'")])]

/-- A function that keeps what it was called with last. -/
def keepingSchema : Json :=
  .object
    [("component", .string "p"), ("namespace", .string "n"), ("data", .object [("f", .null)]),
      (":text", .string "|> n.f && n.f()"),
      ("on", .object
        [(":click", .string "|> n.f = (x => y => x = y || x)('old')"),
          (":input", .string "|> n.f('new')")])]

/-- What a click on it does. -/
def keepingClick : Move :=
  .fire [⟨"click", .binding (.expression "|> n.f = (x => y => x = y || x)('old')"), 1⟩] []

/-- What an input to it does. -/
def keepingInput : Move :=
  .fire [⟨"input", .binding (.expression "|> n.f('new')"), 1⟩] []

/-- A node of a namespace that shows its data. -/
def labelSchema (v : String) : Json :=
  .object
    [("component", .string "i"), ("namespace", .string "k"), ("data", .object [("v", .string v)]),
      (":text", .string "k.v")]

/-- Slots the names of two of which spell steps into the content of others. -/
def spelledSchema : Json :=
  .object
    [("component", .object [("tag", .string "div")]), ("namespace", .string "n"),
      ("scopedSlots", .object
        [("s/0:m", labelSchema "three"), ("s/0:m/0:k", .object [("component", .string "u")]),
          ("s", .object
            [("component", .string "b"), ("namespace", .string "m"),
              ("children", .array [labelSchema "one"])])])]

/-- A write in the middle of a render, one that a function keeps to itself, and one frame for three
places: views that are clean and are not up to date. -/
theorem View.clean_outdated :
    lateSchema.Outdated ⟨true⟩ [] [] ∧
      keepingSchema.Outdated ⟨true⟩ [.render, keepingClick] [keepingInput] ∧
        spelledSchema.Outdated ⟨false⟩ [] [] :=
  ⟨Json.Outdated.of_check nofun (by decide +kernel),
    Json.Outdated.of_check (by simp [keepingInput]) (by decide +kernel),
    Json.Outdated.of_check nofun (by decide +kernel)⟩

end Trellis
