import Trellis.Proofs.Scope.Segments

/-!
# What is seen from a scope

A scope sees the frames on its chain and no others, whether the chain is whole or breaks off. An
operation that is about a frame elsewhere leaves all that is read from the scope as it was. Adding
data and writing are about a frame on the chain of the scope they come from; an opening is at an
address in the frame of that scope, and which frame is there depends on how addresses are put
together.

* `Store.OneFrame.sameView`: when a scope's chain shows what it showed; `Store.SameView.readsAlike`:
  the same is read from it then.
* `Store.encloses_target`, `Store.Effect.located`: what an operation is about; `Store.Beside.kept`:
  what it therefore leaves as it was.
* `Store.seen_on_chains`: what an operation is seen to do.
* `Store.opened_beside`: an opening that starts over the frame of a slot beside it.
-/

namespace Trellis

namespace Store

/-- What a frame shows: what it stands for, and its data. -/
def shown (s : Store) (id : ScopeId) : Option (FrameKind × Value) :=
  (s.frame? id).map fun f => (f.kind, f.data)

variable {s t : Store} {op : Operation} {id x y z scope : ScopeId} {f g : Frame}

/-! ### What a chain shows -/

/-- A frame that shows what it showed has a counterpart in the store before. -/
theorem OneFrame.frame_before (h : s.OneFrame t id) (hg : t.frame? x = some g)
    (hshown : t.shown x = s.shown x) :
    ∃ f, s.frame? x = some f ∧ g.parent = f.parent ∧ f.kind = g.kind ∧ f.data = g.data := by
  unfold shown at hshown
  rw [hg] at hshown
  obtain ⟨f, hf, hpair⟩ := Option.map_eq_some_iff.1 hshown.symm
  obtain ⟨g', hg', -, hparent⟩ := h.kept x f hf
  rw [hg] at hg'
  cases hg'
  exact ⟨f, hf, hparent, congrArg Prod.fst hpair, congrArg Prod.snd hpair⟩

/-- **Two stores** look the same from a scope if all that encloses it shows the same. -/
theorem OneFrame.sameView (h : s.OneFrame t id) (hs : s.Consistent) (ht : t.Consistent)
    (hshown : ∀ x, t.Encloses x scope → t.shown x = s.shown x) : SameView scope s t := by
  induction scope using ht.outwards with
  | released scope hnone =>
    have hnone' : s.frame? scope = none := by
      refine Option.eq_none_iff_forall_ne_some.2 fun f hf => ?_
      obtain ⟨g, hg, -⟩ := h.kept scope f hf
      rw [hnone] at hg
      cases hg
    have hl : s.chain scope = ([], false) := chainFrom_none hnone'
    have hr : t.chain scope = ([], false) := chainFrom_none hnone
    exact ⟨by rw [hl, hr], by rw [hl, hr]; exact .nil⟩
  | outermost scope g hg hp =>
    obtain ⟨f, hf, hparent, hk, hd⟩ :=
      h.frame_before hg (hshown scope ((encloses_root_iff hg hp).2 rfl))
    rw [hp] at hparent
    have hl : s.chain scope = ([(scope, f)], true) := chainFrom_root hf hparent.symm
    have hr : t.chain scope = ([(scope, g)], true) := chainFrom_root hg hp
    exact ⟨by rw [hl, hr], by rw [hl, hr]; exact .cons ⟨hk, hd⟩ .nil⟩
  | inside scope g p hg hp ih =>
    have hcons : ∀ x, t.Encloses x scope ↔ x = scope ∨ t.Encloses x p :=
      fun x => ht.encloses_iff hg hp
    obtain ⟨f, hf, hparent, hk, hd⟩ := h.frame_before hg (hshown scope ((hcons _).2 (.inl rfl)))
    rw [hp] at hparent
    have hrest := ih fun x hx => hshown x ((hcons x).2 (.inr hx))
    have hl := hs.chain_cons hf hparent.symm
    have hr := ht.chain_cons hg hp
    exact ⟨by rw [hl, hr]; exact hrest.whole, by rw [hl, hr]; exact .cons ⟨hk, hd⟩ hrest.frames⟩

/-! ### Operations -/

/-- A store that operations lead to. -/
def Reachable (s : Store) : Prop :=
  ∃ ops, new.run ops = s

theorem Reachable.consistent (h : s.Reachable) : s.Consistent := by
  obtain ⟨ops, rfl⟩ := h
  exact run_consistent ops

/-- **An assignment** is to a frame on the chain of the scope it comes from. -/
theorem encloses_target (hs : s.Consistent) (ha : s.attempt op = .ok t)
    (hopens : op.opens = false) (hscope : op.scope? = some scope)
    (htarget : s.target? op = some id) : s.Encloses id scope := by
  -- the nearest frame of a namespace is on the chain
  have hspace : ∀ ns, (s.space scope ns).toOption.map Prod.fst = some id → s.Encloses id scope := by
    intro ns hid
    cases hsp : s.space scope ns with
    | error fault => rw [hsp] at hid; cases hid
    | ok e =>
      rw [hsp] at hid
      cases hid
      exact List.mem_map_of_mem (mem_of_nearest? (nearest?_of_space hsp)).1
  cases op with
  | openSpace parent segment ns => cases hopens
  | openSlot owner ns slot given => cases hopens
  | addData scope' ns members => cases hscope; exact hspace ns htarget
  | write scope' ns keys value => cases hscope; exact hspace ns htarget
  | setLoop scope' binding =>
    cases hscope
    cases htarget
    obtain ⟨f, -, -, hf, -⟩ := setLoop_eq_ok ha
    cases hp : f.parent with
    | none => exact (encloses_root_iff hf hp).2 rfl
    | some p => exact (hs.encloses_iff hf hp).2 (.inl rfl)
  | beginPass => cases hscope
  | finishPass => cases hscope

/-- An opening is performed from the frame around the one it opens. -/
theorem Operation.scope?_of_place {place : ScopeId × String} (h : op.place? = some place) :
    op.scope? = some place.1 := by
  cases op <;> cases h <;> rfl

/-- **An opening** of a frame that was there is at an address in the frame of the scope. -/
theorem Effect.located (h : s.Sound) (he : s.Effect op t) (hopens : op.opens)
    (hscope : op.scope? = some scope) (htarget : s.target? op = some id)
    (hf : s.frame? id = some f) :
    ∃ outer segment, s.frame? scope = some outer ∧ f.path = outer.address segment := by
  obtain ⟨⟨parent, segment⟩, hplace⟩ := Option.isSome_iff_exists.1 hopens
  obtain rfl : parent = scope :=
    Option.some.inj ((Operation.scope?_of_place hplace).symm.trans hscope)
  cases he with
  | began => cases hopens
  | finished => cases hopens
  | @changed _ i f' g htarget' hf' _ _ _ _ hlocated =>
    obtain rfl : i = id := Option.some.inj (htarget'.symm.trans htarget)
    obtain rfl : f' = f := Option.some.inj (hf'.symm.trans hf)
    obtain ⟨outer, houter, hpath⟩ := hlocated parent segment hplace
    exact ⟨outer, segment, houter, hpath⟩
  | @made _ _ _ _ _ _ htarget' _ _ _ _ _ =>
    obtain rfl : s.nextId = id := Option.some.inj (htarget'.symm.trans htarget)
    exact absurd rfl (h.ne_nextId hf)

/-- **An operation within a pass** leaves what is inside a frame as it was if it is performed from
inside one beside it, an opening where the addresses of the two are apart. -/
theorem Beside.kept (hxy : s.Beside x y) (hs : s.Consistent) (ha : s.attempt op = .ok t)
    (hbegin : op ≠ .beginPass) (hfinish : op ≠ .finishPass) (hz : s.Encloses x z)
    (hscope : s.Encloses y scope) (hfrom : op.scope? = some scope)
    (hapart : op.opens → s.FarApart x y) : t.frame? z = s.frame? z := by
  have he := hs.toSound.effect_of_attempt ha
  obtain ⟨id, htarget, hone⟩ := he.oneFrame hs.toSound hbegin hfinish
  refine hone.others z ?_
  rintro rfl
  cases hopens : op.opens with
  | false =>
    have htargets := encloses_target hs ha hopens hfrom htarget
    exact hxy.hidden hs hz hscope htargets
  | true =>
    -- what is opened is at an address in the scope's frame
    obtain ⟨g, hg⟩ := live_of_encloses hz
    obtain ⟨outer, segment, houter, hlocated⟩ := he.located hs.toSound hopens hfrom htarget hg
    exact hxy.not_located hs hz hscope (hapart hopens) houter hg segment hlocated

/-- From a scope everything is read as before, at paths and of namespaces. -/
structure ReadsAlike (scope : ScopeId) (s t : Store) : Prop where
  get : ∀ path, t.get scope path = s.get scope path
  spaceData? : ∀ ns, t.spaceData? scope ns = s.spaceData? scope ns

theorem SameView.readsAlike (h : SameView scope s t) : ReadsAlike scope s t :=
  ⟨fun path => (h.get_eq path).symm, fun ns => (h.spaceData?_eq ns).symm⟩

/-- The frame `id` became `g`, and no other frame is other than it was. -/
structure Becomes (s t : Store) (id : ScopeId) (g : Frame) : Prop where
  frame : t.frame? id = some g
  others : ∀ j, j ≠ id → t.frame? j = s.frame? j

theorem Becomes.of_modify (hf : s.frame? id = some f) (g : Frame → Frame) :
    s.Becomes (s.modify id g) id (g f) where
  frame := by rw [frame?_modify_self, hf]; rfl
  others _ hj := frame?_modify_of_ne g hj

/-- **What an operation is seen to do.** An operation that succeeds within a pass changes what one
frame shows at most, and no chain but that of a frame it makes. From a scope that the frame does not
enclose all is read as before. Adding data and writing change the nearest frame of the namespace and
no other. So what is inside a frame is never seen from inside one beside it, nor assigned to; and
nothing is opened there either if the addresses of the two are apart, as they are where all segments
are plain. -/
theorem seen_on_chains (hs : s.Reachable) (hbegin : op ≠ .beginPass) (hfinish : op ≠ .finishPass)
    (ha : s.attempt op = .ok t) :
    (∃ id, s.target? op = some id ∧ ∀ j, t.shown j ≠ s.shown j → j = id) ∧
    (∀ scope, (s.frame? scope).isSome → ∀ j, t.Encloses j scope ↔ s.Encloses j scope) ∧
    (∀ scope, (∀ j, t.shown j ≠ s.shown j → ¬ t.Encloses j scope) → ReadsAlike scope s t) ∧
    (∀ scope ns members, op = .addData scope ns members →
      ∃ id f, s.space scope ns = .ok (id, f) ∧ s.Becomes t id (f.extend members)) ∧
    (∀ scope ns keys v, op = .write scope ns keys v →
      ∃ id f data, s.space scope ns = .ok (id, f) ∧ f.data.replace keys v = .ok data ∧
        s.Becomes t id { f with data := data }) ∧
    (∀ x y z scope, t.Beside x y → t.Encloses x z → t.Encloses y scope →
      (∀ j, t.shown j ≠ s.shown j → j = z) → ReadsAlike scope s t) ∧
    (∀ x y z scope, s.Beside x y → s.Encloses x z → s.Encloses y scope →
      op.scope? = some scope → (op.opens → s.FarApart x y) → t.frame? z = s.frame? z) ∧
    (∀ ops, new.run ops = s → (∀ op ∈ ops, op.Plain) → ∀ x y, s.Beside x y → s.FarApart x y) := by
  have hsc := hs.consistent
  have he := hsc.toSound.effect_of_attempt ha
  have htc := hsc.effect he
  obtain ⟨id, htarget, hone⟩ := he.oneFrame hsc.toSound hbegin hfinish
  -- a scope with nothing on its chain that shows something else
  have hreads : ∀ scope, (∀ j, t.shown j ≠ s.shown j → ¬ t.Encloses j scope) →
      ReadsAlike scope s t := fun scope hout =>
    (hone.sameView hsc htc fun j hj => by_contra fun hne => hout j hne hj).readsAlike
  refine ⟨⟨id, htarget, fun j hj => by_contra fun hne => hj ?_⟩, ?_, hreads, ?_, ?_, ?_, ?_, ?_⟩
  · unfold shown
    rw [hone.others j hne]
  · intro scope hlive j
    obtain ⟨f, hf⟩ := Option.isSome_iff_exists.1 hlive
    exact hone.encloses_iff hsc htc (hsc.fresh scope f hf)
  · rintro scope ns members rfl
    obtain ⟨i, f, hsp, rfl⟩ := addData_eq_ok ha
    exact ⟨i, f, hsp, .of_modify (frame?_of_space hsp).1 _⟩
  · rintro scope ns keys v rfl
    obtain ⟨⟨path, t⟩, hw, rfl⟩ := Except.map_eq_ok.1 ha
    obtain ⟨i, f, data, hsp, hr, rfl⟩ := write_eq_ok hw
    have hf := (frame?_of_space hsp).1
    exact ⟨i, f, data, hsp, hr, .of_modify hf fun f => { f with data := data }⟩
  · intro x y z scope hxy hz hscope honly
    refine hreads scope fun j hj hjs => ?_
    rw [honly j hj] at hjs
    exact hxy.hidden htc hz hscope hjs
  · intro x y z scope hxy hz hscope hfrom hapart
    exact hxy.kept hsc ha hbegin hfinish hz hscope hfrom hapart
  · rintro ops rfl hplain x y hxy
    exact run_farApart hplain hxy

/-- Two namespaces beside each other, each with a member. -/
def rooms : Store :=
  new.run [.openSpace rootId "0:left" "left", .addData 1 "left" [("open", .bool true)],
    .openSpace rootId "1:right" "right", .addData 2 "right" [("open", .bool true)]]

/-- Writing to the left one. -/
def closesLeft : Operation :=
  .write 1 "left" ["open"] (.bool false)

/-- What is written on the left is read there, and changes nothing on the right. -/
theorem seen_on_chains_rooms : ∃ t, rooms.attempt closesLeft = .ok t ∧
    rooms.space 1 "left" =
      .ok (1, ⟨"/0:left", some 0, .space "left", .object [("open", .bool true)], 0⟩) ∧
    t.spaceData? 1 "left" = .ok (some (.object [("open", .bool false)])) ∧
    ReadsAlike 2 rooms t ∧ t.frame? 2 = rooms.frame? 2 := by
  have hreach : rooms.Reachable := ⟨_, rfl⟩
  have ha : rooms.attempt closesLeft = .ok (rooms.perform closesLeft) := rfl
  obtain ⟨⟨id, htarget, honly⟩, -, -, -, -, hseen, hkept, -⟩ :=
    seen_on_chains hreach (by unfold closesLeft; nofun) (by unfold closesLeft; nofun) ha
  have hid : (1 : ScopeId) = id := Option.some.inj htarget
  have hbeside : rooms.Beside 1 2 := ⟨by decide, 0, _, _, rfl, rfl, rfl, rfl⟩
  have hbeside' : (rooms.perform closesLeft).Beside 1 2 :=
    ⟨by decide, 0, _, _, rfl, rfl, rfl, rfl⟩
  refine ⟨_, ha, rfl, rfl, ?_, ?_⟩
  · exact hseen 1 2 1 2 hbeside' (.head _) (.head _) (hid ▸ honly)
  · exact hkept 2 1 2 1 hbeside.symm (.head _) (.head _) rfl fun h => absurd h (by decide)

/-- A namespace with two of its slots; the address of the one is that of the other, gone on with. -/
def slots : Store :=
  new.run [.openSpace rootId "0:n" "n", .openSlot 1 "n" "s/0:m" (.object [("k", .bool true)]),
    .openSlot 1 "n" "s" .empty]

/-- **Addresses that are not apart**: what is opened in one slot is the frame of the slot beside it,
which loses what it was given. -/
theorem opened_beside :
    ¬ ∀ (s t : Store) (op : Operation) (x y z scope : ScopeId), s.Reachable → op ≠ .beginPass →
      op ≠ .finishPass → s.attempt op = .ok t → s.Beside x y → s.Encloses x z → s.Encloses y scope →
      op.scope? = some scope → t.shown z = s.shown z := by
  intro hall
  have hsame := hall slots (slots.perform (.openSpace 3 "0:m" "m")) (.openSpace 3 "0:m" "m") 2 3 2 3
    ⟨_, rfl⟩ nofun nofun rfl ⟨by decide, 1, _, _, rfl, rfl, rfl, rfl⟩ (.head _) (.head _) rfl
  have hbefore : slots.shown 2 = some (.slot "n" "s/0:m", .object [("k", .bool true)]) := rfl
  have hafter : (slots.perform (.openSpace 3 "0:m" "m")).shown 2 = some (.space "m", .empty) := rfl
  rw [hbefore, hafter] at hsame
  cases hsame

end Store

end Trellis
