import Trellis.Proofs.Build.Chains
import Trellis.Proofs.Build.Places
import Trellis.Proofs.Build.Renderers
import Trellis.Proofs.Scope.Operations

/-!
# Loops, turn by turn

A loop is unrolled over its source as it was when it was resolved, in the frame of the loop itself,
before the first turn. What the turns write, to the source or to what a turn is about, is seen by
those after them and yet changes neither how many they are nor what they are given.

* `Site.TurnBegins`: how a turn begins: in a frame of its own, in which it is told what it is about.
* `Builder.Unrolled`: turns one after the other, each from where the one before it ended.
* `Builder.loop_unrolls`: what a loop that succeeds has done.
-/

namespace Trellis

open Schema Session Act

/-- The items of a source, numbered. -/
theorem Iteration.numbered_eq {α : Type} (f : α → Value × Value) (items : List α) :
    ∀ index, numbered index (items.map f) =
      items.mapIdx fun i a => ⟨index + i, (f a).2, (f a).1⟩ := by
  induction items with
  | nil => intro index; rfl
  | cons a items ih =>
    intro index
    rw [List.map_cons, numbered, ih, List.mapIdx_cons]
    congr 1
    refine List.mapIdx_eq_mapIdx_iff.2 fun i hi => ?_
    rw [Nat.add_right_comm, Nat.add_assoc]

/-- **The turns over a source**: one for each item or member, in order. -/
theorem Iteration.ofSource_eq_ok {v : Value} {turns : List Iteration} (h : ofSource v = .ok turns) :
    (∃ items, v = .array items ∧ turns = items.mapIdx fun i item => ⟨i, item, .null⟩) ∨
      ∃ members, v = .object members ∧
        turns = members.mapIdx fun i member => ⟨i, member.2, .string member.1⟩ := by
  cases v with
  | array items =>
    cases h
    refine .inl ⟨items, rfl, ?_⟩
    rw [numbered_eq]
    simp
  | object members =>
    cases h
    refine .inr ⟨members, rfl, ?_⟩
    rw [numbered_eq]
    simp
  | _ => cases h

/-- What a loop's member is set to is read in its frame. -/
theorem Store.get_of_setLoop {s t : Store} {id : ScopeId} {f : Frame} {ns : String} {v : Value}
    (hf : s.frame? id = some f) (hk : f.kind = .space ns) (h : s.setLoop id v = .ok t) :
    t.get id ⟨ns, none, [loopKey]⟩ = .ok v := by
  obtain ⟨_, _, members, -, -, -, rfl⟩ := Store.setLoop_eq_ok h
  have hframe : (s.modify id fun f =>
      { f with data := .object (Members.assign members loopKey v) }).frame? id =
        some { f with data := .object (Members.assign members loopKey v) } := by
    rw [Store.frame?_modify_self, hf]
    rfl
  unfold Store.get
  simp only
  rw [Store.space_self hframe hk]
  simp [bind, Except.bind, Value.at?, Value.member?, Members.get?_assign_self]

namespace Site

variable {n m : Node} {anchor site : Site} {s t : Session} {ns : String} {turn : Iteration}

/-- The node at a position has what all nodes of the schema have. -/
theorem Lists.all {P : Node → Prop} {i : Nat} {rest : List Node} (hn : n.All P)
    (h : site.Lists n i (m :: rest)) : m.All P := by
  obtain ⟨l, hl, hkids⟩ := h
  have hnode := hkids 0 []
  exact Locus.nodeAt_all ((Locus.Within.content hn).after hl).kids hnode

/-- **How a turn begins**: at the beginning of a frame that has the turn's address inside the loop's
frame, where no ways clash in that frame, and from which the loop's member is an object of the
turn's number, its value and the name of its member. -/
structure TurnBegins (n : Node) (anchor : Site) (ns : String) (turn : Iteration) (site : Site)
    (s : Session) : Prop where
  way : site.way = anchor.way ++ [.turn turn.index ns]
  walked : site.walked = []
  frame : ∃ outer f, s.store.frame? anchor.scope = some outer ∧ s.store.frame? site.scope = some f ∧
    f.path = outer.address ("[" ++ toString turn.index ++ "]") ∧ f.kind = .space ns ∧
    (n.ClashFree → f.parent = some anchor.scope)
  sees : s.store.get site.scope ⟨ns, none, [loopKey]⟩ =
    .ok (.object [("index", .ofNat turn.index), ("value", turn.value), ("key", turn.key)])

/-- **Entering a turn** that succeeds is its beginning. -/
theorem turnBegins_of_enterTurn (hs : s.Built n) (hw : s.Has anchor.way anchor.scope)
    (hstep : ((Locus.content n).after (anchor.way ++ [.turn turn.index ns])).isSome)
    {seed : Option (Members Value)} (hseed : n.seedAt (anchor.way ++ [.turn turn.index ns]) = seed)
    (hrun : (anchor.enterTurn ns seed turn).runOn s = (.ok site, t)) :
    TurnBegins n anchor ns turn site t ∧ t.Built n ∧ t.Has anchor.way anchor.scope ∧
      t.Has site.way site.scope := by
  obtain ⟨id, data, u, hspace, harrives, f, hf, hk⟩ := enterSpace_runOn anchor hs hw hstep rfl hseed
  unfold enterTurn at hrun
  rw [runOn_bind, hspace] at hrun
  obtain ⟨⟨⟩, v, hset, hrun⟩ := runOn_bind_eq_ok.1 hrun
  rw [runOn_pure] at hrun
  cases hrun
  rw [runOn_opening] at hset
  cases hloop : u.store.setLoop id turn.toValue with
  | error e =>
    rw [hloop] at hset
    cases hset
  | ok store =>
    rw [hloop] at hset
    cases hset
    have hsees : store.get id ⟨ns, none, [loopKey]⟩ = .ok turn.toValue :=
      Store.get_of_setLoop hf hk hloop
    obtain ⟨_, _, members, -, -, -, rfl⟩ := Store.setLoop_eq_ok hloop
    -- the frame is where it was, with the loop's member
    let g : Frame → Frame := fun f =>
      { f with data := .object (Members.assign members loopKey turn.toValue) }
    have hsame : SameOutline u (u.withStore (u.store.modify id g)) :=
      ⟨Store.outline_modify fun _ => rfl, rfl⟩
    have hframe : (u.store.modify id g).frame? id = some (g f) := by
      rw [Store.frame?_modify_self, hf]
      rfl
    have hbuilt := harrives.after.of_outline hsame
    have hanchor := (hw.mono harrives.subset).of_outline hsame
    have hsite := harrives.has.of_outline hsame
    obtain ⟨outer, houter, hpath, -⟩ := hbuilt.placed.has hanchor
    obtain ⟨f', hf', hfpath, -⟩ := hbuilt.placed.has hsite
    obtain rfl := Option.some.inj (hframe.symm.trans hf')
    refine ⟨⟨rfl, rfl, ⟨outer, _, houter, hframe, ?_, hk, fun hfree => ?_⟩, hsees⟩, hbuilt,
      hanchor, hsite⟩
    · rw [Frame.address, hpath, hfpath, Way.address_append]
      rfl
    · obtain ⟨f', p, hf', -, hparent, hp, -⟩ := hbuilt.chain_step hfree hsite
      obtain rfl := Option.some.inj (hframe.symm.trans hf')
      rw [hparent, (hbuilt.placed.has_eq_iff hfree hp hanchor).2 rfl]

end Site

/-- What a node comes to says whether it is there. -/
theorem Schema.Node.build_isSome {N C : Type} {b : Builder N C} {m : Node} {site : Site}
    {s t : Session} {outcome : Option N} (hrun : (m.build b site).runOn s = (.ok outcome, t)) :
    ∃ u, (m.self.present (b.value site)).runOn s = (.ok outcome.isSome, u) := by
  obtain ⟨d, kids, contents⟩ := m
  rw [Node.build] at hrun
  obtain ⟨present, u, hpresent, hrun⟩ := runOn_bind_eq_ok.1 hrun
  refine ⟨u, hpresent.trans ?_⟩
  cases present with
  | false =>
    cases hrun
    rfl
  | true =>
    simp only [Bool.not_true, Bool.false_eq_true, if_false] at hrun
    obtain ⟨traits, _, -, hrun⟩ := runOn_bind_eq_ok.1 hrun
    split at hrun
    · obtain ⟨content, _, -, hrun⟩ := runOn_bind_eq_ok.1 hrun
      obtain ⟨node, _, -, hrun⟩ := runOn_bind_eq_ok.1 hrun
      cases hrun
      rfl
    · obtain ⟨ns, _, -, hrun⟩ := runOn_bind_eq_ok.1 hrun
      obtain ⟨node, _, -, hrun⟩ := runOn_bind_eq_ok.1 hrun
      cases hrun
      rfl

/-- **What is left out**: a node comes to nothing just if its bound condition is not truthy. -/
theorem Schema.Node.build_eq_none_iff {N C : Type} {b : Builder N C} {m : Node} {site : Site}
    {s t : Session} {outcome : Option N} (hrun : (m.build b site).runOn s = (.ok outcome, t)) :
    outcome = none ↔ ∃ binding v u, m.self.condition.bound = some binding ∧
      (b.value site binding).runOn s = (.ok v, u) ∧ v.truthy = false := by
  obtain ⟨u, hpresent⟩ := Node.build_isSome hrun
  unfold Directives.present at hpresent
  cases hbound : m.self.condition.bound with
  | none =>
    rw [hbound] at hpresent
    have hsome : outcome.isSome = true := by
      injection hpresent with hpresent _
      exact (Except.ok.inj hpresent).symm
    refine iff_of_false (Option.isSome_iff_ne_none.1 hsome) ?_
    rintro ⟨_, _, _, h, -⟩
    cases h
  | some binding =>
    rw [hbound] at hpresent
    obtain ⟨v, u, hv, hpresent⟩ := runOn_bind_eq_ok.1 hpresent
    have htruthy : v.truthy = outcome.isSome := by
      injection hpresent with hpresent _
      exact Except.ok.inj hpresent
    rw [← Option.isNone_iff_eq_none, ← Option.not_isSome, ← htruthy]
    constructor
    · intro h
      exact ⟨binding, v, u, rfl, hv, by simpa using h⟩
    · rintro ⟨binding', v', u', hb, hv', h⟩
      cases hb
      rw [hv] at hv'
      cases hv'
      simp [h]

namespace Builder

variable {N C : Type} {b : Builder N C} {n m : Node} {site anchor : Site} {s t : Session}
  {ns : String}

/-- Turns one after the other, each entered from where the one before it ended, and what they come
to. -/
inductive Unrolled (b : Builder N C) (n m : Node) (anchor : Site) (ns : String) :
    Session → List Iteration → List (Option N) → Session → Prop where
  | done (s : Session) : Unrolled b n m anchor ns s [] [] s
  | turn {s start after t : Session} {next : Iteration} {rest : List Iteration} {site : Site}
      {outcome : Option N} {outcomes : List (Option N)}
      (enters : (anchor.enterTurn ns m.self.data next).runOn s = (.ok site, start))
      (begins : Site.TurnBegins n anchor ns next site start)
      (builds : (m.build b site).runOn start = (.ok outcome, after))
      (leaves_out : outcome = none ↔ ∃ binding v u, m.self.condition.bound = some binding ∧
        (b.value site binding).runOn start = (.ok v, u) ∧ v.truthy = false)
      (others : Unrolled b n m anchor ns after rest outcomes t) :
      Unrolled b n m anchor ns s (next :: rest) (outcome :: outcomes) t

/-- Frames that were entered stay entered, whatever a confined renderer does. -/
theorem Confined.respects_stays (hb : b.Confined) (n : Node) (w : Way) (id : ScopeId) :
    b.Respects (Stays n (fun _ _ => True) w id) :=
  (hb.lets fun _ _ _ => trivial).respects

/-- **Turns** that succeed are unrolled. -/
theorem turns_unrolled (hb : b.Confined) (hm : m.All Node.Orderly) (hns : m.self.ns = some ns)
    (h : (Locus.content n).after anchor.way = some (Locus.anchor m)) :
    ∀ (turns : List Iteration) {s t : Session} {nodes : List N}, s.Built n →
      s.Has anchor.way anchor.scope →
      (anchor.turns ns m.self.data (m.build b) turns).runOn s = (.ok nodes, t) →
      ∃ outcomes, Unrolled b n m anchor ns s turns outcomes t ∧ nodes = outcomes.reduceOption
  | [], s, t, nodes, _, _, hrun => by
    cases hrun
    exact ⟨[], .done s, rfl⟩
  | next :: rest, s, t, nodes, hs, hw, hrun => by
    have hstep : (Locus.content n).after (anchor.way ++ [.turn next.index ns]) =
        some (Locus.inside m) := Site.after_turn hns h next.index
    rw [Site.turns] at hrun
    obtain ⟨site, start, henters, hrun⟩ := runOn_bind_eq_ok.1 hrun
    obtain ⟨outcome, after, hbuilds, hrun⟩ := runOn_bind_eq_ok.1 hrun
    obtain ⟨nodes', t', hrest, hrun⟩ := runOn_bind_eq_ok.1 hrun
    cases hrun
    obtain ⟨hbegins, hbuilt, hanchor, hsite⟩ :=
      Site.turnBegins_of_enterTurn hs hw (by rw [hstep]; rfl) (Site.seed_turn h _ ns) henters
    -- the turn is built inside, so the loop's frame is still there when it ends
    have hstays : Stays n (fun _ _ => True) site.way site.scope start after := by
      obtain ⟨way, scope, walked⟩ := site
      obtain ⟨rfl, rfl, -, -⟩ := hbegins
      have hinside : Site.Holds n ⟨_, scope, []⟩ m := .inside hstep
      have hkeeps := Node.build_stays (hb.respects_stays n) m _ hm hinside start
      rwa [hbuilds] at hkeeps
    obtain ⟨hbuilt', hsubset, -⟩ := hstays hbuilt hsite
    obtain ⟨outcomes, hothers, rfl⟩ :=
      turns_unrolled hb hm hns h rest hbuilt' (hanchor.mono hsubset) hrest
    refine ⟨outcome :: outcomes,
      .turn henters hbegins hbuilds (Node.build_eq_none_iff hbuilds) hothers, ?_⟩
    cases outcome <;> rfl

/-- **What a loop has done** that came to `nodes`: it entered its own frame, resolved its source
there, and was unrolled over what the source was then, with one turn for each item or member, in
order. It came to what the turns came to, without those that were left out. -/
inductive Expanded (b : Builder N C) (n m : Node) (site : Site) (position : Nat) (source : Binding)
    (s : Session) (nodes : List N) (t : Session) : Prop where
  | of {ns : String} {anchor : Site} {opened resolved : Session} {v : Value}
      {turns : List Iteration} {outcomes : List (Option N)} (space : m.self.ns = some ns)
      (enters : (site.enter m.self position).runOn s = (.ok anchor, opened))
      (way : anchor.way = site.way ++ [site.step position ns])
      (resolves : (b.value anchor source).runOn opened = (.ok v, resolved))
      (spans : (∃ items, v = .array items ∧ turns = items.mapIdx fun i item => ⟨i, item, .null⟩) ∨
        ∃ members, v = .object members ∧
          turns = members.mapIdx fun i member => ⟨i, member.2, .string member.1⟩)
      (unrolled : Unrolled b n m anchor ns resolved turns outcomes t)
      (comes_to : nodes = outcomes.reduceOption) : Expanded b n m site position source s nodes t

/-- **A loop that succeeds** is unrolled over its source as it was before the first turn, whatever
its turns write. -/
theorem loop_unrolls (hb : b.Confined) (hn : n.All Node.Orderly) (hs : s.Built n)
    (hw : s.Has site.way site.scope) {position : Nat} {rest : List Node}
    (hlists : site.Lists n position (m :: rest)) {source : Binding}
    (hloop : m.self.loop = some source) (hliteral : m.self.condition.literal ≠ some false)
    {nodes : List N}
    (hrun : (b.loop site position m.self source (m.build b)).runOn s = (.ok nodes, t)) :
    Expanded b n m site position source s nodes t := by
  unfold loop at hrun
  rw [if_neg hliteral] at hrun
  cases hns : m.self.ns with
  | none =>
    rw [hns] at hrun
    cases hrun
  | some ns =>
    rw [hns] at hrun
    obtain ⟨anchor, opened, henter, hrun⟩ := runOn_bind_eq_ok.1 hrun
    obtain ⟨v, resolved, hvalue, hrun⟩ := runOn_bind_eq_ok.1 hrun
    obtain ⟨turns, u, hturns, hrun⟩ := runOn_bind_eq_ok.1 hrun
    rw [runOn_ofExcept] at hturns
    obtain ⟨hsource, rfl⟩ := Prod.mk.inj hturns
    -- the step leads to the loop's own frame
    have hstep := hlists.step hns
    rw [hloop, Option.isSome_some, if_pos rfl] at hstep
    obtain ⟨id, data, opened', hspace, harrives, -⟩ :=
      Site.enterSpace_runOn site hs hw (by rw [hstep]; rfl) rfl (hlists.seed ns)
    have henter' : (site.enter m.self position).runOn s =
        (.ok ⟨site.way ++ [site.step position ns], id, []⟩, opened') := by
      unfold Site.enter
      rw [hns]
      exact hspace
    obtain ⟨hanchor, hopened⟩ := Prod.mk.inj (henter.symm.trans henter')
    cases hanchor
    subst hopened
    have hstays : Stays n (fun _ _ => True) (site.way ++ [site.step position ns]) id opened
        resolved := by
      have hkeeps :=
        (hb.respects_stays n (site.way ++ [site.step position ns]) id).value id source opened
      rwa [show (source.resolve b.config id).runOn opened = _ from hvalue] at hkeeps
    obtain ⟨hbuilt, hsubset, -⟩ := hstays harrives.after harrives.has
    obtain ⟨outcomes, hunrolled, hnodes⟩ :=
      turns_unrolled hb (hlists.all hn) hns hstep turns hbuilt (harrives.has.mono hsubset) hrun
    exact .of hns henter rfl hvalue (Iteration.ofSource_eq_ok hsource) hunrolled hnodes

end Builder

/-- A row of a list, which empties the list. -/
def emptyingRow : Node :=
  .mk
    { Directives.plain (.named "li") with
      ns := some "row"
      loop := some (.path ⟨"list", none, ["items"]⟩)
      boundText := some (.expression "|> list.items = []") } none []

/-- A list of two items. -/
def emptyingList : Node :=
  .mk
    { Directives.plain (.named "ul") with
      ns := some "list"
      data := some [("items", .array [.string "a", .string "b"])] }
    (some [emptyingRow]) []

def emptyingBuilder : Builder Record String := ⟨Record.renderer, Registry.empty, ⟨true⟩⟩

/-- The list's frame, and the session that has entered it. -/
def emptyingSite : Site := ⟨[.space [0] "list"], 1, []⟩

def emptyingSession : Session :=
  ((Site.root.enter emptyingList.self 0).runOn Session.new.begun).2

theorem emptyingSession_built : emptyingSession.Built emptyingList ∧
    emptyingSession.Has emptyingSite.way emptyingSite.scope := by
  have hs : Session.new.begun.Built emptyingList := (Built.start rfl rfl).beginPass
  have hkind : (Step.space [0] "list").kind = .space "list" := rfl
  obtain ⟨id, data, s, hrun, harrives, -⟩ :=
    Site.enterSpace_runOn Site.root hs (.inl ⟨rfl, rfl⟩) rfl hkind rfl
  have hsession : emptyingSession = s := congrArg Prod.snd hrun
  have hid : id = 1 := by
    have hsite : (Site.root.enter emptyingList.self 0).runOn Session.new.begun =
        (.ok emptyingSite, emptyingSession) := rfl
    cases hsite.symm.trans hrun
    rfl
  have hhas := harrives.has
  rw [hid] at hhas
  rw [hsession]
  exact ⟨harrives.after, hhas⟩

/-- What its loop comes to. -/
def emptyingRun : Except Fault (List Record) × Session :=
  (emptyingBuilder.loop emptyingSite 0 emptyingRow.self (.path ⟨"list", none, ["items"]⟩)
    (emptyingRow.build emptyingBuilder)).runOn emptyingSession

/-- The source of its loop, as it is resolved. -/
def emptyingSource : Except Fault Value × Session :=
  (do
    let anchor ← emptyingSite.enter emptyingRow.self 0
    emptyingBuilder.value anchor (.path ⟨"list", none, ["items"]⟩)).runOn emptyingSession

/-- The turns of the list: what its loop was unrolled over was not empty yet. -/
theorem Builder.Expanded.emptying_turns {nodes : List Record} {t : Session}
    (h : Expanded emptyingBuilder emptyingList emptyingRow emptyingSite 0
      (.path ⟨"list", none, ["items"]⟩) emptyingSession nodes t) :
    ∃ anchor s outcomes, Unrolled emptyingBuilder emptyingList emptyingRow anchor "row" s
      [⟨0, .string "a", .null⟩, ⟨1, .string "b", .null⟩] outcomes t := by
  obtain ⟨hspace, henters, -, hresolves, hspans, hunrolled, -⟩ := h
  cases hspace
  have hsource : emptyingSource.1 = .ok (.array [.string "a", .string "b"]) := rfl
  have hvalue : emptyingSource = (.ok _, _) := runOn_bind_eq_ok.2 ⟨_, _, henters, hresolves⟩
  rw [hvalue] at hsource
  cases hsource
  obtain ⟨items, hitems, rfl⟩ | ⟨members, hmembers, -⟩ := hspans
  · cases hitems
    exact ⟨_, _, _, hunrolled⟩
  · cases hmembers

/-- The run ends with the second row, and where that begins the loop's member is about the second
item. -/
theorem Builder.Expanded.emptying_last {nodes : List Record} {t : Session}
    (h : Expanded emptyingBuilder emptyingList emptyingRow emptyingSite 0
      (.path ⟨"list", none, ["items"]⟩) emptyingSession nodes t) :
    ∃ site start outcome, (emptyingRow.build emptyingBuilder site).runOn start = (.ok outcome, t) ∧
      start.store.get site.scope ⟨"row", none, [loopKey]⟩ =
        .ok (.object [("index", .ofNat 1), ("value", .string "b"), ("key", .null)]) := by
  obtain ⟨anchor, s, outcomes, hturns⟩ := h.emptying_turns
  cases hturns with
  | turn _ _ _ _ hothers =>
    cases hothers with
    | turn _ hbegins hbuilds _ hnone =>
      cases hnone
      exact ⟨_, _, _, hbuilds, hbegins.sees⟩

/-- Two rows are built, though the first of them has emptied the list. What ends the run is the
second one, which is built where the loop's member is about the item that was there. -/
theorem Builder.loop_unrolls_emptied : ∃ nodes t, emptyingRun = (.ok nodes, t) ∧
    nodes.length = 2 ∧
    (t.store.get 1 ⟨"list", none, ["items"]⟩).toOption.map Value.text = some "[]" ∧
    Expanded emptyingBuilder emptyingList emptyingRow emptyingSite 0
      (.path ⟨"list", none, ["items"]⟩) emptyingSession nodes t ∧
    ∃ site start outcome, (emptyingRow.build emptyingBuilder site).runOn start = (.ok outcome, t) ∧
      start.store.get site.scope ⟨"row", none, [loopKey]⟩ =
        .ok (.object [("index", .ofNat 1), ("value", .string "b"), ("key", .null)]) := by
  have hn : emptyingList.All Node.Orderly :=
    ⟨⟨List.nodup_nil, nofun⟩, ⟨⟨⟨List.nodup_nil, nofun⟩, trivial⟩, trivial⟩, trivial⟩
  obtain ⟨hbuilt, hhas⟩ := emptyingSession_built
  have hlength : emptyingRun.1.toOption.map List.length = some 2 := by decide +kernel
  have hitems : (emptyingRun.2.store.get 1 ⟨"list", none, ["items"]⟩).toOption.map Value.text =
      some "[]" := by decide +kernel
  cases hrun : emptyingRun with
  | mk outcome t =>
    rw [hrun] at hlength hitems
    cases outcome with
    | error e => cases hlength
    | ok nodes =>
      have hinside : (Locus.content emptyingList).after emptyingSite.way =
          some (Locus.inside emptyingList) := rfl
      have hholds : emptyingSite.Holds emptyingList emptyingList := .inside hinside
      have hexpanded : Expanded emptyingBuilder emptyingList emptyingRow emptyingSite 0
          (.path ⟨"list", none, ["items"]⟩) emptyingSession nodes t :=
        loop_unrolls (Record.confined _ _) hn hbuilt hhas hholds.kids rfl (by decide) hrun
      exact ⟨nodes, t, rfl, Option.some.inj hlength, hitems, hexpanded, hexpanded.emptying_last⟩

end Trellis
