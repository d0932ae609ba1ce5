import Trellis.Proofs.Build.Nesting
import Trellis.Proofs.Value.Replace

/-!
# What stands between passes

A pass finds the data of a frame as the last one left it, or, where there is no frame yet, the
members its node says the frame begins with. Of a turn it does not find what the loop sets, and of a
slot nothing at all, since both are given anew before anything is built inside. What is left is what
stands at a way, and entering frames changes nothing of it.

* `Session.dataAt`, `Schema.Node.fresh`: the data of the frame at the end of a way, and what it
  begins with.
* `Session.standing`: what a pass finds there.
* `Session.Arrives`, `Session.Rewrites`: what entering a frame does, and what giving a frame other
  data does.
* `Site.enterSpace_runOn`, `Site.enterTurn_runOn`, `Site.enterSlot_runOn`: the acts that enter
  frames do that.
-/

namespace Trellis

open Schema Session Act

namespace Schema

/-- The node whose data the frame behind a step begins with. What a slot is given is no node's. -/
def Locus.seeder (l : Locus) : Step → Option Node
  | .space ps _ => nodeAt l.kids ps
  | .turn _ _ => l.turn
  | .slot _ _ => none

/-- The members that the frame at the end of a way begins with. -/
def Node.seedAt (n : Node) (w : Way) : Option (Members Value) :=
  w.getLast?.bind fun step =>
    (((Locus.content n).after w.dropLast).bind (·.seeder step)).bind (·.self.data)

/-- The data that the frame at the end of a way begins with. -/
def Node.fresh (n : Node) (w : Way) : Value :=
  .object (Members.extend [] ((n.seedAt w).getD []))

theorem Node.seedAt_concat (n : Node) (o : Way) (step : Step) :
    n.seedAt (o ++ [step]) =
      (((Locus.content n).after o).bind (·.seeder step)).bind (·.self.data) := by
  unfold seedAt
  rw [List.getLast?_concat, List.dropLast_concat]
  rfl

/-- What a frame begins with is what a node of the schema says. -/
theorem Node.seedAt_all {P : Node → Prop} {n : Node} (h : n.All P) {w : Way}
    {members : Members Value} (hs : n.seedAt w = some members) :
    ∃ m : Node, P m ∧ m.self.data = some members := by
  obtain ⟨step, -, hs⟩ := Option.bind_eq_some_iff.1 hs
  obtain ⟨m, hm, hdata⟩ := Option.bind_eq_some_iff.1 hs
  obtain ⟨l, hl, hm⟩ := Option.bind_eq_some_iff.1 hm
  have hwithin := (Locus.Within.content h).after hl
  cases step with
  | space ps ns => exact ⟨m, (Locus.nodeAt_all hwithin.kids hm).self, hdata⟩
  | turn i ns => exact ⟨m, (hwithin.turn m hm).self, hdata⟩
  | slot ns name => cases hm

end Schema

/-- The part of a frame's data that a pass leaves to the next: all of it, without what a loop sets
in a turn and what a slot was given. -/
def Step.lasting : Step → Value → Value
  | space _ _, v => v
  | turn _ _, .object members => .object (Members.assign members loopKey .null)
  | turn _ _, v => v
  | slot _ _, _ => .null

/-- The part of the data at the end of a way that a pass leaves to the next. -/
def Way.lasting (w : Way) (v : Value) : Value :=
  (w.getLast?.map fun step => step.lasting v).getD v

/-- What a loop sets in a turn is there, if there are members. -/
def Way.Looped (w : Way) (v : Value) : Prop :=
  ∀ i ns members, w.getLast? = some (.turn i ns) → v = .object members → loopKey ∈ Members.names members

theorem Way.looped_concat {o : Way} {step : Step} {v : Value} (h : ∀ i ns, step ≠ .turn i ns) :
    Way.Looped (o ++ [step]) v := by
  intro i ns members hlast
  rw [List.getLast?_concat] at hlast
  exact absurd (Option.some.inj hlast) (h i ns)

@[simp] theorem Way.lasting_concat (o : Way) (step : Step) (v : Value) :
    Way.lasting (o ++ [step]) v = step.lasting v := by
  unfold Way.lasting
  rw [List.getLast?_concat]
  rfl

namespace Session

/-- The data of the frame at the end of a way, if there is one. -/
def dataAt (s : Session) (w : Way) : Option Value :=
  ((s.store.scopeAt? w.address).bind s.store.frame?).map Frame.data

/-- What a pass finds at the end of a way. -/
def standing (n : Node) (s : Session) (w : Way) : Value :=
  w.lasting ((s.dataAt w).getD (n.fresh w))

variable {n : Node} {s t : Session} {w u : Way} {id : ScopeId} {f : Frame} {data : Value}

theorem dataAt_eq (hs : s.store.Sound) (hf : s.store.frame? id = some f)
    (hp : f.path = w.address) : s.dataAt w = some f.data := by
  unfold dataAt
  rw [← hp, hs.indexed id f hf, Option.bind_some, hf]
  rfl

theorem dataAt_eq_some (hs : s.store.Sound) :
    s.dataAt w = some data ↔
      ∃ id f, s.store.frame? id = some f ∧ f.path = w.address ∧ f.data = data := by
  constructor
  · intro h
    obtain ⟨f, hf, rfl⟩ := Option.map_eq_some_iff.1 h
    obtain ⟨id, hid, hf⟩ := Option.bind_eq_some_iff.1 hf
    obtain ⟨g, hg, hp⟩ := hs.live _ id hid
    rw [hf] at hg
    cases hg
    exact ⟨id, f, hf, hp, rfl⟩
  · rintro ⟨id, f, hf, hp, rfl⟩
    exact dataAt_eq hs hf hp

/-- A change of one frame leaves the data at all other ways as it was. -/
theorem dataAt_of_other (hs : s.store.Sound) (ht : t.store.Sound)
    (hother : ∀ j, j ≠ id → t.store.frame? j = s.store.frame? j)
    (hsp : ∀ f, s.store.frame? id = some f → f.path = w.address)
    (htp : ∀ f, t.store.frame? id = some f → f.path = w.address) (hne : u.address ≠ w.address) :
    t.dataAt u = s.dataAt u := by
  refine Option.ext fun v => ?_
  rw [dataAt_eq_some ht, dataAt_eq_some hs]
  -- a frame at the other address is not the one that changed
  constructor
  · rintro ⟨j, f, hf, hp, hv⟩
    have hj : j ≠ id := by
      rintro rfl
      exact hne (hp.symm.trans (htp f hf))
    exact ⟨j, f, (hother j hj).symm.trans hf, hp, hv⟩
  · rintro ⟨j, f, hf, hp, hv⟩
    have hj : j ≠ id := by
      rintro rfl
      exact hne (hp.symm.trans (hsp f hf))
    exact ⟨j, f, (hother j hj).trans hf, hp, hv⟩

/-- What was done in between changed no more than the frame at the end of a way, which was entered
as `id` and holds `data`. A frame that was there is where it was and what it was, and what stood
stands. -/
structure Arrives (n : Node) (s : Session) (w : Way) (id : ScopeId) (data : Value)
    (t : Session) : Prop where
  before : s.Built n
  after : t.Built n
  leads : ((Locus.content n).after w).isSome
  rest : ∃ store, t = { s.withStore store with visits := ⟨w, id⟩ :: s.visits }
  epoch : t.store.epoch = s.store.epoch
  frame : ∃ f, t.store.frame? id = some f ∧ f.path = w.address ∧ f.data = data
  other : ∀ j, j ≠ id → t.store.frame? j = s.store.frame? j
  again : ∀ f₀, s.store.frame? id = some f₀ → f₀.path = w.address
  same : n.ClashFree → ∀ f₀ f, s.store.frame? id = some f₀ → t.store.frame? id = some f →
    f.parent = f₀.parent ∧ f.kind = f₀.kind
  lasting : n.ClashFree → w.lasting data = s.standing n w

namespace Arrives

variable (h : s.Arrives n w id data t)

include h

theorem visits : t.visits = ⟨w, id⟩ :: s.visits := by
  obtain ⟨store, rfl⟩ := h.rest
  rfl

theorem has : t.Has w id :=
  .inr (h.visits ▸ List.mem_cons_self)

theorem subset : s.visits ⊆ t.visits := by
  rw [h.visits]
  exact List.subset_cons_self _ _

theorem dataAt : t.dataAt w = some data := by
  obtain ⟨f, hf, hp, rfl⟩ := h.frame
  exact dataAt_eq h.after.placed.sound hf hp

theorem dataAt_of_ne (hfree : n.ClashFree) (hu : ((Locus.content n).after u).isSome)
    (hne : u ≠ w) : t.dataAt u = s.dataAt u := by
  obtain ⟨f, hf, hp, -⟩ := h.frame
  refine dataAt_of_other h.before.placed.sound h.after.placed.sound h.other h.again (fun g hg => ?_)
    fun ha => hne (way_unique hfree hu h.leads ha)
  rw [hf] at hg
  cases hg
  exact hp

/-- **Entering a frame** leaves what stands. -/
theorem standing (hfree : n.ClashFree) (hu : ((Locus.content n).after u).isSome) :
    t.standing n u = s.standing n u := by
  by_cases hne : u = w
  · subst hne
    rw [← h.lasting hfree, Session.standing, h.dataAt]
    rfl
  · rw [Session.standing, Session.standing, h.dataAt_of_ne hfree hu hne]

end Arrives

end Session

/-! ### Other data in a frame -/

namespace Session

variable {n : Node} {s t : Session} {w u : Way} {id : ScopeId} {data : Value}

/-- What was done in between gave the frame at the end of a way other data, and changed nothing else
of the frames. -/
structure Rewrites (n : Node) (s : Session) (w : Way) (id : ScopeId) (data : Value)
    (t : Session) : Prop where
  before : s.Built n
  leads : ((Locus.content n).after w).isSome
  frame : ∃ f, s.store.frame? id = some f ∧ f.path = w.address
  store : t.store = s.store.modify id fun f => { f with data := data }
  visits : t.visits = s.visits

namespace Rewrites

variable (h : s.Rewrites n w id data t)

include h

theorem outline : SameOutline s t :=
  ⟨by rw [h.store]; exact Store.outline_modify fun _ => rfl, h.visits⟩

theorem built : t.Built n :=
  h.before.of_outline h.outline

theorem dataAt : t.dataAt w = some data := by
  obtain ⟨f, hf, hp⟩ := h.frame
  have hf' : t.store.frame? id = some { f with data := data } := by
    rw [h.store, Store.frame?_modify_self, hf]
    rfl
  exact dataAt_eq h.built.placed.sound hf' hp

theorem dataAt_of_ne (hfree : n.ClashFree) (hu : ((Locus.content n).after u).isSome)
    (hne : u ≠ w) : t.dataAt u = s.dataAt u := by
  obtain ⟨f, hf, hp⟩ := h.frame
  refine dataAt_of_other h.before.placed.sound h.built.placed.sound
    (show ∀ j, j ≠ id → t.store.frame? j = s.store.frame? j from fun j hj => ?_)
    (fun g hg => ?_) (fun g hg => ?_) fun ha => hne (way_unique hfree hu h.leads ha)
  · rw [h.store, Store.frame?_modify_of_ne _ hj]
  · rw [hf] at hg
    cases hg
    exact hp
  · rw [h.store, Store.frame?_modify_self, hf] at hg
    cases hg
    exact hp

/-- What stands elsewhere stands, and all of it if that is no part of what changed. -/
theorem standing (hfree : n.ClashFree) (hu : ((Locus.content n).after u).isSome)
    (hw : u = w → w.lasting data = s.standing n w) : t.standing n u = s.standing n u := by
  by_cases hne : u = w
  · subst hne
    rw [← hw rfl, Session.standing, h.dataAt]
    rfl
  · rw [Session.standing, Session.standing, h.dataAt_of_ne hfree hu hne]

end Rewrites

/-- A frame that was entered, and was given other data that lasts the same. -/
theorem Arrives.rewrites {data' : Value} {u : Session} (h : s.Arrives n w id data t)
    (ht : t.Rewrites n w id data' u) (hrest : ∃ store, u = t.withStore store)
    (hlasting : w.lasting data' = w.lasting data) : s.Arrives n w id data' u where
  before := h.before
  after := ht.built
  leads := h.leads
  rest := by
    obtain ⟨store, rfl⟩ := hrest
    obtain ⟨store', rfl⟩ := h.rest
    exact ⟨store, rfl⟩
  epoch := ht.outline.epoch.trans h.epoch
  frame := by
    obtain ⟨f, hf, hp⟩ := ht.frame
    refine ⟨{ f with data := data' }, ?_, hp, rfl⟩
    rw [ht.store, Store.frame?_modify_self, hf]
    rfl
  other j hj := by
    rw [ht.store, Store.frame?_modify_of_ne _ hj]
    exact h.other j hj
  again := h.again
  same hfree f₀ f hf₀ hf := by
    obtain ⟨f', hf', hb⟩ := ht.outline.symm.frame? hf
    obtain ⟨hpar, hk⟩ := h.same hfree f₀ f' hf₀ hf'
    obtain ⟨-, hpar', hk', -⟩ := bare_fields hb
    exact ⟨hpar'.symm.trans hpar, hk'.symm.trans hk⟩
  lasting hfree := hlasting.trans (h.lasting hfree)

/-- The frame at the end of a way is live. -/
theorem Has.frame (hs : s.Built n) (hw : s.Has w id) :
    ∃ f, s.store.frame? id = some f ∧ f.path = w.address := by
  obtain ⟨f, hf, hp, -⟩ := hs.placed.has hw
  exact ⟨f, hf, hp⟩

/-- A way with a frame leads through the schema. -/
theorem Has.leads (hs : s.Built n) (hw : s.Has w id) : ((Locus.content n).after w).isSome := by
  rcases hw with ⟨rfl, -⟩ | hw
  · rfl
  · exact (hs.placed.way _ hw).2

end Session

/-- **Setting the loop's member** of a turn gives the frame other data, which lasts as it did. -/
theorem Session.Rewrites.of_setLoop {n : Node} {s : Session} {w : Way} {id : ScopeId} {v : Value}
    {store : Store} (hs : s.Built n) (hw : s.Has w id) (h : s.store.setLoop id v = .ok store) :
    ∃ members, s.dataAt w = some (.object members) ∧
      s.Rewrites n w id (.object (Members.assign members loopKey v)) (s.withStore store) := by
  obtain ⟨f, hf, hp⟩ := hw.frame hs
  unfold Store.setLoop at h
  rw [hf] at h
  simp only at h
  split at h
  · next members hk hd =>
    cases h
    exact ⟨members, hd ▸ dataAt_eq hs.placed.sound hf hp, hs, hw.leads hs, ⟨f, hf, hp⟩, rfl, rfl⟩
  · cases h

/-! ### Entering a frame -/

namespace Session

variable {n : Node} {s : Session} {w : Way} {step : Step} {p id : ScopeId} {store : Store}
  {created : Bool}

/-- Where no ways clash, a frame that is opened again is what it was, and holds what it held. -/
theorem openFrame_again (hs : s.Built n) (hfree : n.ClashFree) (hw : s.Has w p)
    (hstep : ((Locus.content n).after (w ++ [step])).isSome)
    (ho : s.store.openFrame p step.segment step.kind = .ok ((id, created), store)) :
    (created = false ∧ ∃ f, s.store.frame? id = some f ∧ f.path = Way.address (w ++ [step]) ∧
        store = s.store.modify id fun f => { f with epoch := s.store.epoch }) ∨
      (created = true ∧ s.dataAt (w ++ [step]) = none ∧ id = s.store.nextId ∧
        store.frame? id = some ⟨Way.address (w ++ [step]), some p, step.kind, .empty,
          s.store.epoch⟩) := by
  obtain ⟨outer, houter, hpath, -⟩ := hs.placed.has hw
  have haddr : outer.address step.segment = Way.address (w ++ [step]) := by
    rw [Way.address_append, Frame.address, hpath]
  unfold Store.openFrame at ho
  rw [houter] at ho
  simp only at ho
  rw [haddr] at ho
  cases ha : s.store.scopeAt? (Way.address (w ++ [step])) with
  | none =>
    rw [ha] at ho
    cases ho
    refine .inr ⟨rfl, by unfold dataAt; rw [ha]; rfl, rfl, ?_⟩
    unfold Store.frame?
    rw [List.lookup_cons_self]
  | some i =>
    obtain ⟨f, hf, hp⟩ := hs.placed.sound.live _ i ha
    -- it was opened on this way before, as the same
    have hroot : i ≠ Store.rootId := hs.placed.sound.ne_root hf (hp.trans haddr.symm)
    obtain ⟨o, st, q, g, hafter, hseat⟩ := (hs.nested hfree).seat i f hf hroot
    have hways := way_unique hfree hafter hstep (hseat.path.symm.trans hp)
    obtain ⟨rfl, hst⟩ := List.append_inj' hways rfl
    cases hst
    rw [ha] at ho
    simp only [hf, hseat.kind, if_true] at ho
    cases ho
    exact .inl ⟨rfl, f, hf, hp, rfl⟩

/-- **Entering a frame** that was opened one step further, with new data if it holds what stood. -/
theorem Arrives.of_openFrame (hs : s.Built n) (hw : s.Has w p)
    (hstep : ((Locus.content n).after (w ++ [step])).isSome)
    (ho : s.store.openFrame p step.segment step.kind = .ok ((id, created), store))
    {g : Frame → Frame} (hg : ∀ f, (g f).bare = f.bare)
    (hdata : ∀ f, store.frame? id = some f → n.ClashFree →
      step.lasting (g f).data = s.standing n (w ++ [step])) :
    ∃ data, s.Arrives n (w ++ [step]) id data
      { s.withStore (store.modify id g) with visits := ⟨w ++ [step], id⟩ :: s.visits } ∧
      ∃ f, store.frame? id = some f ∧ f.kind = step.kind ∧ data = (g f).data := by
  obtain ⟨⟨f, hf, hpath, hkind, hepoch, hbefore⟩, hother, hnow⟩ := openFrame_frames hs.placed hw ho
  obtain ⟨hopened, htouched⟩ := hs.openFrame hw hstep ho
  have hsame : SameOutline (s.withStore store) (s.withStore (store.modify id g)) :=
    ⟨Store.outline_modify hg, rfl⟩
  have hbuilt := (hopened.of_outline hsame).visit (hw : s.Has w p) hstep
    (htouched.of_outline hsame)
  have hframe : (store.modify id g).frame? id = some (g f) := by
    rw [Store.frame?_modify_self, hf]
    rfl
  obtain ⟨hgpath, hgparent, hgkind, -⟩ := bare_fields (hg f)
  have hagain : ∀ f₀, s.store.frame? id = some f₀ → f₀.path = Way.address (w ++ [step]) := by
    intro f₀ hf₀
    rcases hbefore with ⟨f₁, hf₁, hp₁, -⟩ | ⟨hid, -⟩
    · rw [hf₀] at hf₁
      cases hf₁
      exact hp₁.trans hpath
    · exact absurd hid (hs.placed.sound.ne_nextId hf₀)
  refine ⟨(g f).data, ⟨hs, hbuilt, hstep, ⟨_, rfl⟩, hnow, ⟨g f, hframe, hgpath.trans hpath, rfl⟩,
    fun j hj => (Store.frame?_modify_of_ne g hj).trans (hother j hj), hagain,
    fun hfree f₀ f' hf₀ hf' => ?_, fun hfree => ?_⟩, f, hf, hkind, rfl⟩
  · change (store.modify id g).frame? id = some f' at hf'
    rw [hframe] at hf'
    cases hf'
    rcases openFrame_again hs hfree hw hstep ho with ⟨-, f₁, hf₁, -, rfl⟩ | ⟨-, -, hid, -⟩
    · rw [Store.frame?_modify_self, hf₁] at hf
      cases hf
      rw [hf₀] at hf₁
      cases hf₁
      exact ⟨hgparent, hgkind⟩
    · exact absurd hid (hs.placed.sound.ne_nextId hf₀)
  · rw [Way.lasting_concat]
    exact hdata f hf hfree

end Session

namespace Site

variable {n : Node} {s : Session} {site : Site} {step : Step} {ns : String}

/-- What seeding makes of a frame. -/
def seeding (created : Bool) (seed : Option (Members Value)) (f : Frame) : Frame :=
  match created, seed with
  | true, some members => f.extend members
  | _, _ => f

theorem seeding_bare (created : Bool) (seed : Option (Members Value)) (f : Frame) :
    (seeding created seed f).bare = f.bare := by
  unfold seeding Frame.extend
  split
  · split <;> rfl
  · rfl

/-- Seeding a frame of a namespace does not fail. -/
theorem runOn_fill {id : ScopeId} {f : Frame} (hf : s.store.frame? id = some f)
    (hk : f.kind = .space ns) (created : Bool) (seed : Option (Members Value)) :
    (fill id ns created seed).runOn s =
      (.ok (), s.withStore (s.store.modify id (seeding created seed))) := by
  have hsame : s = s.withStore (s.store.modify id fun f => f) := by
    rw [Store.modify_self]
    rfl
  cases created with
  | false => exact congrArg (Prod.mk _) hsame
  | true =>
    cases seed with
    | none => exact congrArg (Prod.mk _) hsame
    | some members =>
      change (Act.opening fun s => (s.addData id ns members).map ((), ·)).runOn s = _
      refine runOn_opening_ok ?_
      unfold Store.addData
      rw [Store.space_self hf hk]
      rfl

/-- A live frame can be opened in. -/
theorem openFrame_ok {p : ScopeId} {w : Way} (hs : s.Built n) (hw : s.Has w p) (segment : String)
    (kind : FrameKind) :
    ∃ id created store, s.store.openFrame p segment kind = .ok ((id, created), store) := by
  obtain ⟨outer, houter, -⟩ := hs.placed.has hw
  rcases Store.openFrame_cases hs.placed.sound houter segment kind with
    ⟨_, _, _, _, -, -, -, hok⟩ | ⟨-, hok⟩
  · exact ⟨_, _, _, hok⟩
  · exact ⟨_, _, _, hok⟩

variable (site) in
/-- **Entering the frame of a namespace** does not fail. -/
theorem enterSpace_runOn (hs : s.Built n) (hw : s.Has site.way site.scope)
    (hstep : ((Locus.content n).after (site.way ++ [step])).isSome) (hkind : step.kind = .space ns)
    {seed : Option (Members Value)} (hseed : n.seedAt (site.way ++ [step]) = seed) :
    ∃ id data t, (site.enterSpace step ns seed).runOn s =
        (.ok ⟨site.way ++ [step], id, []⟩, t) ∧
      s.Arrives n (site.way ++ [step]) id data t ∧
      ∃ f, t.store.frame? id = some f ∧ f.kind = .space ns := by
  obtain ⟨id, created, store, ho⟩ := openFrame_ok hs hw step.segment step.kind
  have hnew : ∀ f, store.frame? id = some f → n.ClashFree →
      step.lasting (seeding created seed f).data = s.standing n (site.way ++ [step]) := by
    intro f hf hfree
    rw [standing, Way.lasting_concat]
    rcases openFrame_again hs hfree hw hstep ho with ⟨rfl, f₀, hf₀, hp₀, rfl⟩ | ⟨rfl, hnone, -, hnew⟩
    · rw [Store.frame?_modify_self, hf₀] at hf
      cases hf
      rw [dataAt_eq hs.placed.sound hf₀ hp₀]
      rfl
    · rw [hnew] at hf
      cases hf
      rw [hnone, Node.fresh, hseed]
      cases seed <;> rfl
  obtain ⟨data, harrives, f, hf, hk, -⟩ :=
    Arrives.of_openFrame hs hw hstep ho (seeding_bare created seed) hnew
  rw [hkind] at hk
  refine ⟨id, data, _, ?_, harrives, seeding created seed f, ?_, ?_⟩
  · have hopen : (fun s : Store => s.openSpace site.scope step.segment ns) s.store =
        .ok ((id, created), store) := by
      rw [← ho, hkind]
      rfl
    unfold enterSpace
    rw [runOn_bind, runOn_opening_ok hopen]
    simp only [runOn_bind, runOn_fill (s := s.withStore store) hf hk]
    rfl
  · change (store.modify id _).frame? id = _
    rw [Store.frame?_modify_self, hf]
    rfl
  · exact (bare_fields (seeding_bare created seed f)).2.2.1.trans hk

/-- The fault of a loop whose turn has no members. -/
def loopFault : Fault := .invalidSchema "loop bindings require a namespaced node"

variable (site) in
/-- **Entering the frame of a turn** sets what the loop's body sees, if the frame has members. -/
theorem enterTurn_runOn {next : Iteration} (hs : s.Built n) (hw : s.Has site.way site.scope)
    (hstep : ((Locus.content n).after (site.way ++ [.turn next.index ns])).isSome)
    {seed : Option (Members Value)}
    (hseed : n.seedAt (site.way ++ [.turn next.index ns]) = seed) :
    ∃ id data t, s.Arrives n (site.way ++ [.turn next.index ns]) id data t ∧
      (∀ members, data = .object members →
        ∃ u, (site.enterTurn ns seed next).runOn s =
            (.ok ⟨site.way ++ [.turn next.index ns], id, []⟩, u) ∧
          s.Arrives n (site.way ++ [.turn next.index ns]) id
            (.object (Members.assign members loopKey next.toValue)) u) ∧
      ((∀ members, data ≠ .object members) →
        (site.enterTurn ns seed next).runOn s = (.error loopFault, t)) := by
  obtain ⟨id, data, t, hrun, harrives, f, hf, hk⟩ := enterSpace_runOn site hs hw hstep rfl hseed
  have hdata : f.data = data := by
    obtain ⟨g, hg, -, hd⟩ := harrives.frame
    rw [hf] at hg
    cases hg
    exact hd
  refine ⟨id, data, t, harrives, fun members hm => ?_, fun hm => ?_⟩
  · have hset : t.store.setLoop id next.toValue = .ok (t.store.modify id fun f =>
        { f with data := .object (Members.assign members loopKey next.toValue) }) := by
      unfold Store.setLoop
      rw [hf]
      simp only [hk, hdata.trans hm]
    have hopen : (fun s : Store => (s.setLoop id next.toValue).map ((), ·)) t.store = .ok ((), _) :=
      congrArg (Except.map _) hset
    obtain ⟨members', hdata', hrewrites⟩ :=
      Rewrites.of_setLoop harrives.after harrives.has hset
    rw [harrives.dataAt, hm] at hdata'
    cases hdata'
    refine ⟨_, ?_, harrives.rewrites hrewrites ⟨_, rfl⟩ ?_⟩
    · unfold enterTurn
      rw [runOn_bind, hrun]
      simp only [runOn_bind]
      rw [runOn_opening_ok hopen]
      rfl
    · rw [hm, Way.lasting_concat, Way.lasting_concat]
      exact congrArg Value.object (Members.assign_assign _ _ _ _)
  · have hset : t.store.setLoop id next.toValue = .error loopFault := by
      unfold Store.setLoop
      rw [hf]
      simp only [hk, hdata]
      split
      · exact absurd rfl (hm _)
      · rfl
    unfold enterTurn
    rw [runOn_bind, hrun]
    simp only [runOn_bind, runOn_opening, hset]
    rfl

variable (site) in
/-- **Entering the frame of a slot** does not fail, and the frame holds what the slot is given. -/
theorem enterSlot_runOn {name : String} (hs : s.Built n) (hw : s.Has site.way site.scope)
    (hstep : ((Locus.content n).after (site.way ++ [.slot ns name])).isSome) (given : Value) :
    ∃ id t, (site.enterSlot ns name given).runOn s =
        (.ok ⟨site.way ++ [.slot ns name], id, []⟩, t) ∧
      s.Arrives n (site.way ++ [.slot ns name]) id given t := by
  obtain ⟨id, created, store, ho⟩ :=
    openFrame_ok hs hw (Step.slot ns name).segment (Step.slot ns name).kind
  obtain ⟨data, harrives, f, -, -, hdata⟩ :=
    Arrives.of_openFrame (g := fun f => { f with data := given }) hs hw hstep ho (fun _ => rfl)
      fun _ _ _ => by rw [standing, Way.lasting_concat]; rfl
  rw [show data = given from hdata] at harrives
  refine ⟨id, _, ?_, harrives⟩
  have hopen : (fun s : Store => s.openSlot site.scope ns name given) s.store =
      .ok (id, store.modify id fun f => { f with data := given }) := by
    change (do
      let r ← s.store.openFrame site.scope (Step.slot ns name).segment (.slot ns name)
      return (r.1.1, r.2.modify r.1.1 fun f => { f with data := given })) = _
    rw [show FrameKind.slot ns name = (Step.slot ns name).kind from rfl, ho]
    rfl
  unfold enterSlot
  rw [runOn_bind, runOn_opening_ok hopen]
  rfl

end Site

end Trellis
