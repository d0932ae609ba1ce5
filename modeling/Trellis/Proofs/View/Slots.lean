import Trellis.Proofs.Build.Beyond
import Trellis.Proofs.Build.Once
import Trellis.Proofs.View.Frames
import Trellis.Proofs.View.Passes

/-!
# What the content of a slot reads

A slot has one frame, however often it is asked in a pass, and asking it again replaces what the
frame holds. A listener is resolved when it is fired, so that the listeners of everything the slot
has built read what the slot was given last, until the next pass.

* `Session.Given`: what a slot was given in between, in order, whatever else was done.
* `Session.Given.holds`: its frame holds the last of it.
* `Site.slotContent_given`, `Builder.root_given`, `View.render_given`, `View.run_given`: building the
  content of a slot gives it what it is asked with, and everything a view does gives slots nothing
  otherwise.
* `View.slots_share`: what listeners read after a pass.
* `View.slots_share_rows`: two rows, both with the listener of the second.
-/

namespace Trellis

open Schema Session Act

/-- The nearest frame of a slot is live. -/
theorem Store.frame?_of_slotFrame {s : Store} {scope id : ScopeId} {f : Frame} {ns name : String}
    (h : s.slotFrame scope ns name = .ok (id, f)) : s.frame? id = some f := by
  unfold slotFrame at h
  cases hn : s.nearest? scope (.slot ns name) with
  | error e => rw [hn] at h; cases h
  | ok found =>
    rw [hn] at h
    cases found with
    | none => cases h
    | some x =>
      cases h
      exact frame?_of_mem_chainFrom (mem_of_nearest? hn).1

namespace Session

/-- Between two sessions the frame at the end of the way to a slot was given these values, in order.
Whatever else was done: functions were called and namespaces written to, members were added to
them, other frames were entered, and a pass was finished. -/
inductive Given (n : Node) (w : Way) : List Value → Session → Session → Prop where
  | inner {s t} (hh : s.handle = t.handle) (hv : s.visits = t.visits) : Given n w [] s t
  | write {s scope ns keys v handle} (h : s.handle.write scope ns keys v = .ok handle) :
    Given n w [] s { s with handle := handle }
  | add {s scope ns members store} (h : s.store.addData scope ns members = .ok store) :
    Given n w [] s (s.withStore store)
  | enter {s t u id data} (h : s.Arrives n u id data t) (hne : u ≠ w) : Given n w [] s t
  | give {s t id given} (h : s.Arrives n w id given t) : Given n w [given] s t
  | finish {s} : Given n w [] s s.finished
  | trans {s t u ps qs} (h : Given n w ps s t) (h' : Given n w qs t u) : Given n w (ps ++ qs) s u

/-- The frame at the end of a way was entered, and holds a value. -/
def Filled (w : Way) (p : Value) (s : Session) : Prop :=
  ∃ id f, ⟨w, id⟩ ∈ s.visits ∧ s.store.frame? id = some f ∧ f.data = p

variable {n : Node} {s t u : Session} {w : Way} {o : Way} {ns name : String} {p : Value}
  {ps qs : List Value}

instance : AllowsBuilding n fun s t => ∃ ps, Given n w ps s t where
  trans := fun _ _ _ ⟨ps, h⟩ ⟨qs, h'⟩ => ⟨ps ++ qs, h.trans h'⟩
  inner _ _ hh hv := ⟨[], .inner hh hv⟩
  write _ _ _ _ _ _ h := ⟨[], .write h⟩
  enter {s t u id data} h _ := by
    by_cases hu : u = w
    · subst hu
      exact ⟨[data], .give h⟩
    · exact ⟨[], .enter h hu⟩

/-- A frame is entered for each value it is given. -/
theorem Given.visits (h : Given n w ps s t) :
    ∃ new, t.visits = new ++ s.visits ∧ new.countP (fun x => x.way = w) = ps.length := by
  induction h with
  | inner _ hv => exact ⟨[], hv.symm, rfl⟩
  | write => exact ⟨[], rfl, rfl⟩
  | add => exact ⟨[], rfl, rfl⟩
  | enter h hne => exact ⟨[⟨_, _⟩], h.visits, by simp [hne]⟩
  | give h => exact ⟨[⟨_, _⟩], h.visits, by simp⟩
  | finish => exact ⟨[], rfl, rfl⟩
  | trans _ _ ih ih' =>
    obtain ⟨new, hnew, hcount⟩ := ih
    obtain ⟨new', hnew', hcount'⟩ := ih'
    refine ⟨new' ++ new, by rw [hnew', hnew, List.append_assoc], ?_⟩
    rw [List.countP_append, hcount, hcount', List.length_append, Nat.add_comm]

/-- Nothing was given if no frame was entered but further along the way. -/
theorem Given.nil_of_beyond (h : Given n w ps s t) (hbeyond : s.Beyond w t) : ps = [] := by
  obtain ⟨new, hnew, hcount⟩ := h.visits
  obtain ⟨new', hnew', hway⟩ := hbeyond
  rw [hnew] at hnew'
  rw [List.append_cancel_right hnew'] at hcount
  have hzero : new'.countP (fun x => x.way = w) = 0 := by
    rw [List.countP_eq_zero]
    intro x hx
    obtain ⟨step, v, hx⟩ := hway x hx
    simp [hx]
  exact List.eq_nil_of_length_eq_zero (by omega)

theorem Given.built (h : Given n w ps s t) : s.Built n → t.Built n := by
  induction h with
  | inner hh hv => exact fun hs => hs.of_outline ⟨by rw [store, store, hh], hv.symm⟩
  | write h => exact fun hs => hs.of_outline ⟨Handle.outline_write h, rfl⟩
  | add h => exact fun hs => hs.of_outline ⟨Site.addData_outline h, rfl⟩
  | enter h _ => exact fun _ => h.after
  | give h => exact fun _ => h.after
  | finish => exact fun hs => hs.finished
  | trans _ _ ih ih' => exact fun hs => ih' (ih hs)

/-- **Changing the data of a namespace** changes no frame of a slot. -/
theorem Filled.modify (hs : s.Built n) (hfree : n.ClashFree) {scope id : ScopeId} {f : Frame}
    {space : String} (hspace : s.store.space scope space = .ok (id, f)) {g : Frame → Frame}
    (hstore : t.store = s.store.modify id g) (hv : t.visits = s.visits)
    (h : s.Filled (o ++ [.slot ns name]) p) : t.Filled (o ++ [.slot ns name]) p := by
  obtain ⟨j, f', hj, hf', hp⟩ := h
  refine ⟨j, f', hv ▸ hj, ?_, hp⟩
  have hne : j ≠ id := by
    rintro rfl
    obtain ⟨hf, hkind⟩ := Store.frame?_of_space hspace
    have hslot := hs.kind_eq hfree (.inr hj) hf
    rw [hkind, Way.kind, List.getLast?_concat] at hslot
    cases hslot
  rw [hstore, Store.frame?_modify_of_ne _ hne, hf']

/-- **The frame of a slot** holds what it was given last. -/
theorem Given.filled (h : Given n (o ++ [.slot ns name]) ps s t) (hfree : n.ClashFree)
    (hs : s.Built n)
    (hp : ps.getLast? = some p ∨ ps = [] ∧ s.Filled (o ++ [.slot ns name]) p) :
    t.Filled (o ++ [.slot ns name]) p := by
  induction h with
  | inner hh hv =>
    obtain ⟨id, f, hid, hf, hdata⟩ := hp.resolve_left nofun |>.2
    exact ⟨id, f, hv ▸ hid, by rw [store, ← hh]; exact hf, hdata⟩
  | write h =>
    obtain ⟨id, f, data, hwrote⟩ := Handle.wrote_of_write h
    exact (hp.resolve_left nofun).2.modify hs hfree hwrote.space hwrote.store rfl
  | add h =>
    obtain ⟨⟨id, f⟩, hspace, h⟩ := Except.bind_eq_ok.1 h
    cases h
    exact (hp.resolve_left nofun).2.modify (g := (Frame.extend · _)) hs hfree hspace rfl rfl
  | enter h hne =>
    obtain ⟨id, f, hid, hf, hdata⟩ := hp.resolve_left nofun |>.2
    refine ⟨id, f, h.subset hid, ?_, hdata⟩
    -- the frame that was entered is at another way
    rw [h.other id, hf]
    rintro rfl
    obtain ⟨g, hg, hpath, -⟩ := hs.placed.touched _ hid
    exact hne (way_unique hfree h.leads (hs.placed.way _ hid).2 ((h.again g hg).symm.trans hpath))
  | give h =>
    obtain ⟨f, hf, -, hdata⟩ := h.frame
    obtain rfl : _ = p := by simpa using hp
    exact ⟨_, f, h.visits ▸ List.mem_cons_self, hf, hdata⟩
  | finish =>
    obtain ⟨id, f, hid, hf, hdata⟩ := hp.resolve_left nofun |>.2
    exact ⟨id, f, hid, (Has.frame?_finished hs (.inr hid)).trans hf, hdata⟩
  | @trans _ _ _ ps qs h h' ih ih' =>
    refine ih' (h.built hs) ?_
    rw [List.getLast?_append] at hp
    cases hq : qs.getLast? with
    | some q =>
      rw [hq] at hp
      rcases hp with hp | ⟨hp, -⟩
      · exact .inl hp
      · obtain ⟨-, rfl⟩ := List.append_eq_nil_iff.1 hp
        cases hq
    | none =>
      obtain rfl := List.getLast?_eq_none_iff.1 hq
      rw [hq, Option.none_or, List.append_nil] at hp
      exact .inr ⟨rfl, ih hs hp⟩

/-- **In the content of a slot** names of the slot lead into what its frame holds. -/
theorem Filled.get (hs : s.Built n) (hfree : n.ClashFree) (h : s.Filled (o ++ [.slot ns name]) p)
    {x : Visit} (hx : x ∈ s.visits) {v : Way} (hway : x.way = o ++ .slot ns name :: v)
    (hv : ∀ step ∈ v, step.kind ≠ .slot ns name) (keys : List String) :
    s.store.get x.scope ⟨ns, some name, keys⟩ =
      (p.at? keys).mapError (Fault.keyMissing (Path.root ⟨ns, some name, keys⟩)) := by
  obtain ⟨id, f, hid, hf, rfl⟩ := h
  obtain ⟨j, g, hj, hslot⟩ := (hs.enclosed hfree hx).bucket o ns name v hway hv
  have hjd : j = id := (hs.placed.has_eq_iff hfree hj (.inr hid)).2 rfl
  subst hjd
  have hg := Store.frame?_of_slotFrame hslot
  rw [hf] at hg
  cases hg
  unfold Store.get
  simp only [hslot, bind, Except.bind]
  cases f.data.at? keys <;> rfl

end Session

/-! ### Asking a slot, and everything else -/

section Building

variable {N C : Type} {b : Builder N C} {n k : Node} {ns name : String}

/-- **The content of a slot** of an orderly schema is orderly, and no loop. -/
theorem Locus.orderly_content (hn : n.All Node.Orderly) {o : Way}
    (hk : (Locus.content n).after (o ++ [.slot ns name]) = some (Locus.content k)) :
    k.All Node.Orderly ∧ k.self.loop = none := by
  have hwithin : (Locus.content n).Within Node.Orderly := .content hn
  refine ⟨(hwithin.after hk).kids.1, ?_⟩
  rw [Locus.after_concat] at hk
  obtain ⟨l, hl, hnext⟩ := Option.bind_eq_some_iff.1 hk
  obtain ⟨contents, k', hslots, hget, heq⟩ := Locus.next_slot hnext
  obtain rfl : k = k' := (List.cons.inj (congrArg Locus.kids heq)).1
  obtain ⟨m, rfl, hm⟩ := (hwithin.after hl).slots ns contents hslots
  exact hm.self.once _ (Members.mem_of_get? hget)

/-- **Asking a slot** gives it what it is asked with, once, whatever comes of building its
content. -/
theorem Site.slotContent_given (hb : b.Honest) (hn : n.All Node.Orderly) {owner : Site}
    (hk : (Locus.content n).after (owner.way ++ [.slot ns name]) = some (Locus.content k))
    {s : Session} (hs : s.Built n) (hw : s.Has owner.way owner.scope) (p : Value) :
    Given n (owner.way ++ [.slot ns name]) [p] s
      ((owner.slotContent ns name k.self (k.build b) p).runOn s).2 := by
  obtain ⟨id, t, hrun, harrives⟩ := Site.enterSlot_runOn owner hs hw (by rw [hk]; rfl) p
  obtain ⟨horderly, hloop⟩ := Locus.orderly_content hn hk
  -- the content is built further along the way, so that the slot is not asked again
  have hbeyond : Keeps (Beyond (owner.way ++ [.slot ns name]))
      (Site.place ⟨owner.way ++ [.slot ns name], id, []⟩ 0 k.self (k.build b)) :=
    Site.place_beyond fun site => Node.build_beyond hb.confined k site
  have hgiven : Keeps (Stays n (fun s t => ∃ qs, Given n (owner.way ++ [.slot ns name]) qs s t)
        (owner.way ++ [.slot ns name]) id)
      (Site.place ⟨owner.way ++ [.slot ns name], id, []⟩ 0 k.self (k.build b)) :=
    Site.place_stays (Site.Lists.content hk) hloop fun site hsite =>
      Node.build_stays (fun _ _ => (hb _).respects) k site horderly hsite
  obtain ⟨-, -, qs, hqs⟩ := hgiven t harrives.after harrives.has
  obtain rfl := hqs.nil_of_beyond (hbeyond t)
  unfold Site.slotContent
  rw [runOn_bind, hrun]
  exact (Given.give harrives).trans hqs

/-- **Building the root** gives slots nothing but what they are asked with. -/
theorem Builder.root_given (hb : b.Honest) (hn : n.All Node.Orderly) (w : Way) {s : Session}
    (hs : s.Built n) : ∃ ps, Given n w ps s.begun ((b.root n).runOn s.begun).2 := by
  obtain ⟨-, -, hgiven⟩ := b.root_stays (K := fun s t => ∃ ps, Given n w ps s t)
    (fun _ _ => (hb _).respects) hn s.begun hs.beginPass (.inl ⟨rfl, rfl⟩)
  exact hgiven

/-- So does a render, whether or not it succeeds. -/
theorem View.Built.render_given {v : View N C} (hv : v.Built b n) (hb : b.Honest)
    (hn : n.All Node.Orderly) (w : Way) :
    ∃ ps, Given n w ps v.session.begun v.render.2.session := by
  obtain ⟨ps, hps⟩ := Builder.root_given hb hn w hv.session
  rw [hv.render_session, View.pass_eq]
  cases hrun : (b.root n).runOn v.session.begun with
  | mk outcome t =>
    rw [hrun] at hps
    cases outcome with
    | error e => exact ⟨ps, hps⟩
    | ok node => exact ⟨ps ++ [], hps.trans .finish⟩

/-- Any move but a render gives slots nothing at all. -/
theorem View.step_given (n : Node) (w : Way) (v : View N C) {move : Move} (hmove : move ≠ .render) :
    ∃ ps, Given n w ps v.session (v.step move).session := by
  have : AllowsEvaluation fun s t => ∃ ps, Given n w ps s t := AllowsBuilding.toAllowsEvaluation n
  cases move with
  | render => exact absurd rfl hmove
  | fire listeners args =>
    exact Rendered.fireAll_keeps (R := fun s t => ∃ ps, Given n w ps s t) v.builder.config args
      listeners .null v.session
  | write scope path x =>
    have hkeeps : Keeps (fun s t => ∃ ps, Given n w ps s t) (Act.writingPath scope path x) :=
      Keeps.writing fun _ _ hw => ⟨[], .write (Handle.write_of_writePath hw)⟩
    exact hkeeps v.session
  | add scope ns members =>
    change ∃ ps, Given n w ps v.session ((Act.adding scope ns members).runOn v.session).2
    unfold Act.adding
    rw [runOn_opening]
    cases hadd : v.session.handle.store.addData scope ns members with
    | error e => exact ⟨[], .inner rfl rfl⟩
    | ok store => exact ⟨[], .add hadd⟩

/-- So do any number of them. -/
theorem View.run_given (n : Node) (w : Way) (moves : List Move)
    (hmoves : ∀ move ∈ moves, move ≠ .render) :
    ∀ v : View N C, ∃ ps, Given n w ps v.session (v.run moves).session := by
  induction moves with
  | nil => exact fun _ => ⟨[], .inner rfl rfl⟩
  | cons move moves ih =>
    intro v
    obtain ⟨ps, hps⟩ := View.step_given n w v (hmoves move List.mem_cons_self)
    obtain ⟨qs, hqs⟩ := ih (fun m hm => hmoves m (List.mem_cons_of_mem _ hm)) (v.step move)
    exact ⟨ps ++ qs, hps.trans hqs⟩

end Building

/-- **The invocations of a slot share what it holds.** In any run of a view without a slash in the
names of its slots, take a pass, and a slot. Whenever its factory is called it is given what it is
called with. All that is done in the pass and after it, up to the next one, gives it values in some
order, one each time its frame is entered; and when that is done, every listener of whatever the
slot has built in the pass that is bound to a path into the slot reads the last of these. -/
theorem View.slots_share {N C : Type} {n : Node} (hslots : n.All fun m => m.slots.Distinct)
    (hnames : n.All Node.Unslashed) {b : Builder N C} (hb : b.Honest) (m : Nat)
    (before : List Move) {o : Way} {ns name : String} {k : Node}
    (hk : (Locus.content n.once).after (o ++ [.slot ns name]) = some (Locus.content k)) :
    let v := (View.mount n b m).run before
    let w := o ++ [Step.slot ns name]
    (∀ ps s (owner : Site) p, Given n.once w ps v.session.begun s → owner.way = o →
      s.Has o owner.scope → Given n.once w (ps ++ [p]) v.session.begun
        ((owner.slotContent ns name k.self (k.build b) p).runOn s).2) ∧
    ∀ after, (∀ move ∈ after, move ≠ .render) →
      let u := (v.render.2.run after).session
      (∃ ps, Given n.once w ps v.session.begun u ∧
        ps.length = u.visits.countP fun x => x.way = w) ∧
      ∀ ps p, Given n.once w (ps ++ [p]) v.session.begun u →
        ∀ x ∈ u.visits, ∀ rest, x.way = w ++ rest → (∀ step ∈ rest, step.kind ≠ .slot ns name) →
          ∀ config event keys args,
            (Listener.fire config ⟨event, .binding (.path ⟨ns, some name, keys⟩), x.scope⟩
                args).runOn u =
              (Act.ofExcept ((p.at? keys).mapError
                  (Fault.keyMissing (Path.root ⟨ns, some name, keys⟩))) >>=
                Listener.deliver event (.path ⟨ns, some name, keys⟩) args).runOn u := by
  intro v w
  have horderly : n.once.All Node.Orderly := Node.orderly_once hslots
  have hfree : n.once.ClashFree := Node.clashFree_once hnames
  have hv : v.Built b n.once := (View.mount_once n b m).run hb.confined horderly before
  have hs := hv.session
  refine ⟨fun ps s owner p hgiven ho hw => ?_, fun after hafter => ?_⟩
  · subst ho
    exact hgiven.trans (Site.slotContent_given hb horderly hk (hgiven.built hs.beginPass) hw p)
  intro u
  refine ⟨?_, fun ps p hgiven x hx rest hway hrest config event keys args => ?_⟩
  · obtain ⟨ps, hps⟩ := hv.render_given hb horderly w
    obtain ⟨qs, hqs⟩ := View.run_given n.once w after hafter v.render.2
    have hgiven := hps.trans hqs
    obtain ⟨new, hnew, hcount⟩ := hgiven.visits
    rw [show v.session.begun.visits = [] from rfl, List.append_nil] at hnew
    exact ⟨ps ++ qs, hgiven, by rw [← hcount, ← hnew]⟩
  · have hu := hgiven.built hs.beginPass
    have hfilled := hgiven.filled hfree hs.beginPass (.inl List.getLast?_concat)
    rw [List.append_assoc] at hway
    change ((Act.scopes fun s => s.get x.scope ⟨ns, some name, keys⟩) >>= _).runOn u = _
    rw [runOn_bind, runOn_bind, runOn_scopes, runOn_ofExcept]
    rw [show u.handle.store.get x.scope ⟨ns, some name, keys⟩ = _ from
      hfilled.get hu hfree hx hway hrest keys]

/-- A row, which calls the function its slot is given on a click. -/
def rowNode : Node :=
  .mk
    { Directives.plain (.named "b") with
      on := [("click", .binding (.path ⟨"root", some "default", ["f"]⟩))] } none []

/-- A list of two rows. -/
def rowsNode : Node :=
  .mk
    { Directives.plain (.named "ul") with
      ns := some "root"
      data := some
        [("rows", .object
          [("default", .array
            [.object [("f", .function (.host 0 "args"))],
              .object [("f", .function (.host 1 "first"))]])])]
      props := ⟨[("slotProps", .path ⟨"root", none, ["rows"]⟩)], none⟩ }
    none
    [("default", rowNode)]

/-- The renderer that asks the slot for each row. -/
def rowsBuilder : Builder Record String := ⟨Record.renderer, Registry.empty, Config.default⟩

/-- The slot is given two rows, and its listeners read the second. -/
theorem View.slots_share_rows :
    let v := (View.mount rowsNode rowsBuilder 2).run []
    let w : Way := [.space [0] "root"] ++ [.slot "root" "default"]
    let u := (v.render.2.run []).session
    ∃ p q, Given rowsNode.once w [p, q] v.session.begun u ∧ ∀ x ∈ u.visits, x.way = w →
      (Listener.fire Config.default
          ⟨"click", .binding (.path ⟨"root", some "default", ["f"]⟩), x.scope⟩
          [.string "x"]).runOn u =
        (Act.ofExcept ((q.at? ["f"]).mapError
            (Fault.keyMissing (Path.root ⟨"root", some "default", ["f"]⟩))) >>=
          Listener.deliver "click" (.path ⟨"root", some "default", ["f"]⟩)
            [.string "x"]).runOn u := by
  have hslots : rowsNode.All fun m => m.slots.Distinct :=
    ⟨by unfold Members.Distinct; decide, ⟨List.nodup_nil, trivial⟩, trivial⟩
  have hnames : rowsNode.All Node.Unslashed :=
    ⟨by unfold Node.Unslashed; decide, ⟨nofun, trivial⟩, trivial⟩
  have hslot : (Locus.content rowsNode.once).after
      ([.space [0] "root"] ++ [.slot "root" "default"]) = some (Locus.content rowNode) := rfl
  have hhonest : rowsBuilder.Honest := Record.honest Registry.empty Config.default
  have hshare := View.slots_share hslots hnames hhonest 2 [] hslot
  dsimp only
  obtain ⟨⟨ps, hps, hlength⟩, hread⟩ := hshare.2 [] nofun
  have htwo : ps.length = 2 := by
    rw [hlength]
    decide +kernel
  obtain ⟨p, q, rfl⟩ := List.length_eq_two.1 htwo
  exact ⟨p, q, hps, fun x hx hway =>
    hread [p] q hps x hx [] (hway.trans (List.append_nil _).symm) nofun Config.default "click" ["f"]
      [.string "x"]⟩

/-- The text of what an act comes to, if it is no fault. -/
def Act.shown (act : Act Value) (s : Session) : Option String :=
  (act.runOn s).1.toOption.map Value.text

/-- What clicking on each node of a record comes to. -/
def Record.clicks (record : Except Fault (Option Record)) (s : Session) : List (Option String) :=
  match record with
  | .ok (some list) => list.nodes.map fun row =>
    Act.shown (row.trigger Config.default "click" false [.string "x"]) s
  | _ => []

/-- The listener of the first row calls the function of the second: what it passes on is `x`, where
the first row's own function makes a list of it. -/
theorem View.slots_share_not_own :
    let v := (View.mount rowsNode rowsBuilder 2).render
    Record.clicks v.1 v.2.session = [some "x", some "x"] ∧
      Act.shown (Callable.call (.host 0 "args") [.string "x"]) v.2.session = some "[\"x\"]" := by
  exact ⟨by decide +kernel, by decide +kernel⟩

end Trellis
