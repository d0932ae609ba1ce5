import Trellis.Proofs.Scope.Writes
import Trellis.Proofs.Scope.Sound
import Mathlib.Data.List.Induction

/-!
# Operations on a store

Everything that can be asked of a store, one operation after the other. An operation that fails
leaves the store as it was; one that succeeds is about one frame, unless it begins or finishes a
pass. Whatever was asked of a new store, it is sound, and every frame is younger than the one around
it, so the chain of a frame is as long as it takes.

* `Store.Operation`, `Store.attempt`, `Store.run`: operations and runs of them.
* `Store.Effect`, `Store.effect_of_attempt`: all that an operation can come to.
* `Store.Consistent`, `Store.run_consistent`: the invariant.
* `Store.Later`, `Store.Sound.later_run`: numbers are not given twice.
* `Store.OneFrame`: what an operation that is no pass leaves as it was.
* `Store.Consistent.chain_cons`: a chain, frame by frame.
-/

namespace Trellis

namespace Store

/-- What can be asked of a store. -/
inductive Operation where
  | openSpace (parent : ScopeId) (segment ns : String)
  | openSlot (owner : ScopeId) (ns slot : String) (given : Value)
  | addData (scope : ScopeId) (ns : String) (members : Members Value)
  | setLoop (scope : ScopeId) (binding : Value)
  | write (scope : ScopeId) (ns : String) (keys : List String) (value : Value)
  | beginPass
  | finishPass

/-- Where an operation opens a frame or enters one: the frame around it, and the segment. -/
def Operation.place? : Operation → Option (ScopeId × String)
  | openSpace parent segment _ => some (parent, segment)
  | openSlot owner ns slot _ => some (owner, (Step.slot ns slot).segment)
  | _ => none

/-- Whether an operation opens a frame or enters one. -/
def Operation.opens (op : Operation) : Bool :=
  op.place?.isSome

/-- The scope an operation is performed from. -/
def Operation.scope? : Operation → Option ScopeId
  | openSpace parent _ _ => some parent
  | openSlot owner _ _ _ => some owner
  | addData scope _ _ => some scope
  | setLoop scope _ => some scope
  | write scope _ _ _ => some scope
  | _ => none

/-- What an operation makes of a store. -/
def attempt (s : Store) : Operation → Except Fault Store
  | .openSpace parent segment ns => (s.openSpace parent segment ns).map Prod.snd
  | .openSlot owner ns slot given => (s.openSlot owner ns slot given).map Prod.snd
  | .addData scope ns members => s.addData scope ns members
  | .setLoop scope binding => s.setLoop scope binding
  | .write scope ns keys value => (s.write scope ns keys value).map Prod.snd
  | .beginPass => .ok s.beginPass
  | .finishPass => .ok s.finishPass.2

/-- The frame an operation is about: the one it opens, or the one it is to change. A pass is not
about one frame. -/
def target? (s : Store) : Operation → Option ScopeId
  | .openSpace parent segment ns => (s.openSpace parent segment ns).toOption.map (·.1.1)
  | .openSlot owner ns slot given => (s.openSlot owner ns slot given).toOption.map Prod.fst
  | .addData scope ns _ => (s.space scope ns).toOption.map Prod.fst
  | .setLoop scope _ => some scope
  | .write scope ns _ _ => (s.space scope ns).toOption.map Prod.fst
  | .beginPass => none
  | .finishPass => none

/-- The store after an operation. -/
def perform (s : Store) (op : Operation) : Store :=
  match s.attempt op with
  | .ok t => t
  | .error _ => s

/-- The store after operations. -/
def run (s : Store) (ops : List Operation) : Store :=
  ops.foldl perform s

theorem run_append (s : Store) (ops more : List Operation) :
    s.run (ops ++ more) = (s.run ops).run more :=
  List.foldl_append

theorem run_concat (s : Store) (ops : List Operation) (op : Operation) :
    s.run (ops ++ [op]) = (s.run ops).perform op :=
  run_append s ops [op]

variable {s t : Store} {op : Operation} {id parent scope : ScopeId} {f outer : Frame}

theorem perform_eq (h : s.attempt op = .ok t) : s.perform op = t := by
  rw [perform, h]

theorem perform_of_error {e : Fault} (h : s.attempt op = .error e) : s.perform op = s := by
  rw [perform, h]

/-- **What holds of a new store** and is kept by operations that succeed holds after every run. -/
theorem run_induction {P : Store → Prop} (hnew : P new)
    (hstep : ∀ s op t, P s → s.attempt op = .ok t → P t) (ops : List Operation) :
    P (new.run ops) := by
  induction ops using List.reverseRecOn with
  | nil => exact hnew
  | append_singleton ops op ih =>
    rw [run_concat, perform]
    split
    · next t ht => exact hstep _ op t ih ht
    · exact ih

/-! ### What an operation can come to -/

/-- The frame of an operation is changed in its place, or made; a pass begins or ends. An opening
touches its frame, which is at the address where it opens; any other operation leaves the frame's
epoch as it was. -/
inductive Effect (s : Store) : Operation → Store → Prop
  | began : s.Effect .beginPass s.beginPass
  | finished : s.Effect .finishPass s.finishPass.2
  | changed {op : Operation} {id : ScopeId} {f : Frame} {g : Frame → Frame}
      (target : s.target? op = some id) (live : s.frame? id = some f) (inner : id ≠ rootId)
      (path : ∀ x, (g x).path = x.path) (parent : ∀ x, (g x).parent = x.parent)
      (epoch : ∀ x, (g x).epoch = if op.opens then s.epoch else x.epoch)
      (located : ∀ parent segment, op.place? = some (parent, segment) →
        ∃ outer, s.frame? parent = some outer ∧ f.path = outer.address segment) :
      s.Effect op (s.modify id g)
  | made {op : Operation} {parent : ScopeId} {outer f : Frame} {segment : String}
      (place : op.place? = some (parent, segment))
      (target : s.target? op = some s.nextId) (live : s.frame? parent = some outer)
      (free : s.scopeAt? f.path = none) (path : f.path = outer.address segment)
      (inside : f.parent = some parent) (epoch : f.epoch = s.epoch) : s.Effect op (s.insert f)

/-- A frame of a namespace is not the root. -/
theorem Sound.ne_root_of_space (h : s.Sound) {ns : String} (hf : s.frame? id = some f)
    (hk : f.kind = .space ns) : id ≠ rootId := by
  rintro rfl
  obtain ⟨r, hr, -, -, hkind, -⟩ := h.root
  rw [hf] at hr
  cases hr
  rw [hk] at hkind
  cases hkind

/-- **Opening** a frame touches the one it enters or makes, and gives it what it is to hold. -/
theorem Sound.effect_of_open (h : s.Sound) {segment : String} {kind : FrameKind} {created : Bool}
    (hplace : op.place? = some (parent, segment)) (htarget : s.target? op = some id)
    (ho : s.openFrame parent segment kind = .ok ((id, created), t)) {g : Frame → Frame}
    (hpath : ∀ x, (g x).path = x.path) (hparent : ∀ x, (g x).parent = x.parent)
    (hepoch : ∀ x, (g x).epoch = x.epoch) : s.Effect op (t.modify id g) := by
  cases hp : s.frame? parent with
  | none =>
    unfold Store.openFrame at ho
    rw [hp] at ho
    cases ho
  | some outer =>
    rcases openFrame_cases h hp segment kind with ⟨i, f, c, g', hf, hat, he, hok⟩ | ⟨hnone, hok⟩
    · rw [hok] at ho
      cases ho
      rw [modify_modify]
      refine .changed htarget hf (h.ne_root hf hat) (fun x => ?_) (fun x => ?_) (fun x => ?_)
        fun parent' segment' hplace' => ?_
      · rw [hpath, he.path]
      · rw [hparent, he.parent]
      · rw [hepoch, he.epoch, if_pos (by rw [Operation.opens, hplace]; rfl)]
      · cases hplace.symm.trans hplace'
        exact ⟨outer, hp, hat⟩
    · rw [hok] at ho
      cases ho
      rw [modify_insert h (hpath _)]
      refine .made hplace htarget hp ?_ (hpath _) (hparent _) (hepoch _)
      rw [hpath]
      exact hnone

/-- Opening a slot opens its frame and gives it its data. -/
theorem openSlot_eq_ok {ns slot : String} {given : Value}
    (h : s.openSlot parent ns slot given = .ok (id, t)) :
    ∃ created t', s.openFrame parent (Step.slot ns slot).segment (.slot ns slot) =
        .ok ((id, created), t') ∧ t = t'.modify id fun f => { f with data := given } := by
  obtain ⟨⟨⟨i, created⟩, t'⟩, ho, h⟩ := Except.bind_eq_ok.1 h
  cases h
  exact ⟨created, t', ho, rfl⟩

/-- Adding data that succeeds changes the nearest frame of the namespace. -/
theorem addData_eq_ok {ns : String} {members : Members Value}
    (h : s.addData scope ns members = .ok t) :
    ∃ id f, s.space scope ns = .ok (id, f) ∧ t = s.modify id (Frame.extend · members) := by
  obtain ⟨⟨id, f⟩, hs, h⟩ := Except.bind_eq_ok.1 h
  cases h
  exact ⟨id, f, hs, rfl⟩

/-- A write that succeeds changes the nearest frame of the namespace. -/
theorem write_eq_ok {ns : String} {keys : List String} {v : Value} {path : String}
    (h : s.write scope ns keys v = .ok (path, t)) :
    ∃ id f data, s.space scope ns = .ok (id, f) ∧ f.data.replace keys v = .ok data ∧
      t = s.modify id fun f => { f with data := data } := by
  unfold Store.write at h
  split at h
  · cases h
  obtain ⟨⟨id, f⟩, hs, h⟩ := Except.bind_eq_ok.1 h
  simp only at h
  split at h
  · next data hr => cases h; exact ⟨id, f, data, hs, hr, rfl⟩
  · cases h

/-- Setting a loop's member that succeeds changes the frame of a namespace. -/
theorem setLoop_eq_ok {v : Value} (h : s.setLoop scope v = .ok t) :
    ∃ f ns members, s.frame? scope = some f ∧ f.kind = .space ns ∧ f.data = .object members ∧
      t = s.modify scope fun f =>
        { f with data := .object (Members.assign members loopKey v) } := by
  unfold Store.setLoop at h
  split at h
  · cases h
  · next f hf =>
    split at h
    · next ns members hk hd => cases h; exact ⟨f, ns, members, hf, hk, hd, rfl⟩
    · cases h

/-- **An operation that succeeds** has an effect. -/
theorem Sound.effect_of_attempt (h : s.Sound) (ha : s.attempt op = .ok t) : s.Effect op t := by
  -- an operation that gives a frame of a namespace other data
  have hdata : ∀ {id f ns} {g : Frame → Frame}, op.opens = false → s.target? op = some id →
      s.frame? id = some f → f.kind = .space ns → (∀ x, (g x).bare = x.bare) →
      s.Effect op (s.modify id g) := by
    intro id f ns g hopens htarget hf hk hg
    refine .changed htarget hf (h.ne_root_of_space hf hk) (fun x => ?_) (fun x => ?_) (fun x => ?_)
      fun parent segment hplace => ?_
    · change (g x).bare.path = x.bare.path
      rw [hg]
    · change (g x).bare.parent = x.bare.parent
      rw [hg]
    · rw [hopens]
      change (g x).bare.epoch = x.bare.epoch
      rw [hg]
    · rw [Operation.opens, hplace] at hopens
      cases hopens
  cases op with
  | openSpace parent segment ns =>
    obtain ⟨⟨⟨id, created⟩, t'⟩, ho, rfl⟩ := Except.map_eq_ok.1 ha
    have htarget : s.target? (.openSpace parent segment ns) = some id := by
      rw [target?, ho]
      rfl
    rw [← modify_self t' id]
    exact h.effect_of_open rfl htarget ho (fun _ => rfl) (fun _ => rfl) fun _ => rfl
  | openSlot owner ns slot given =>
    obtain ⟨⟨id, t⟩, ho, rfl⟩ := Except.map_eq_ok.1 ha
    have htarget : s.target? (.openSlot owner ns slot given) = some id := by
      rw [target?, ho]
      rfl
    obtain ⟨created, t', hopen, rfl⟩ := openSlot_eq_ok ho
    exact h.effect_of_open (g := fun f => { f with data := given }) rfl htarget hopen
      (fun _ => rfl) (fun _ => rfl) fun _ => rfl
  | addData scope ns members =>
    obtain ⟨id, f, hs, rfl⟩ := addData_eq_ok ha
    obtain ⟨hf, hk⟩ := frame?_of_space hs
    refine hdata rfl ?_ hf hk fun x => ?_
    · rw [target?, hs]
      rfl
    · unfold Frame.extend
      split <;> rfl
  | setLoop scope binding =>
    obtain ⟨f, ns, members, hf, hk, -, rfl⟩ := setLoop_eq_ok ha
    exact hdata rfl rfl hf hk fun _ => rfl
  | write scope ns keys value =>
    obtain ⟨⟨path, t⟩, hw, rfl⟩ := Except.map_eq_ok.1 ha
    obtain ⟨id, f, data, hs, -, rfl⟩ := write_eq_ok hw
    obtain ⟨hf, hk⟩ := frame?_of_space hs
    refine hdata (g := fun f => { f with data := data }) rfl ?_ hf hk fun _ => rfl
    rw [target?, hs]
    rfl
  | beginPass => cases ha; exact .began
  | finishPass => cases ha; exact .finished

/-! ### The invariant -/

/-- A sound store whose frames are younger than the ones around them, and at addresses in them. -/
structure Consistent (s : Store) : Prop extends Sound s where
  older : ∀ id f p, s.frame? id = some f → f.parent = some p → p < id
  inside : ∀ id f p o, s.frame? id = some f → f.parent = some p → s.frame? p = some o →
    ∃ segment, f.path = o.address segment

/-- The frame around a live one has a number that was given. -/
theorem Consistent.lt_nextId_of_parent (h : s.Consistent) {p : ScopeId} (hf : s.frame? id = some f)
    (hp : f.parent = some p) : p < s.nextId :=
  Nat.lt_trans (h.older id f p hf hp) (h.fresh id f hf)

theorem Consistent.new : Store.new.Consistent where
  toSound := .new
  older := by
    intro id f p hf hp
    obtain ⟨rfl, rfl⟩ := frame?_new hf
    cases hp
  inside := by
    intro id f p o hf hp
    obtain ⟨rfl, rfl⟩ := frame?_new hf
    cases hp

/-- Frames that keep their addresses and stay in the frames they were in stay consistent. -/
theorem Consistent.of_frames (h : s.Consistent) (ht : t.Sound)
    (hframes : ∀ id g, t.frame? id = some g →
      ∃ f, s.frame? id = some f ∧ g.path = f.path ∧ g.parent = f.parent) : t.Consistent where
  toSound := ht
  older id g p hg hp := by
    obtain ⟨f, hf, -, hparent⟩ := hframes id g hg
    exact h.older id f p hf (hparent.symm.trans hp)
  inside id g p o' hg hp ho' := by
    obtain ⟨f, hf, hpath, hparent⟩ := hframes id g hg
    obtain ⟨o, ho, hopath, -⟩ := hframes p o' ho'
    obtain ⟨segment, hsegment⟩ := h.inside id f p o hf (hparent.symm.trans hp) ho
    refine ⟨segment, ?_⟩
    rw [hpath, hsegment, Frame.address, Frame.address, hopath]

/-- **An operation** keeps stores sound. -/
theorem Sound.effect (h : s.Sound) (he : s.Effect op t) : t.Sound := by
  cases he with
  | began => exact h.beginPass
  | finished => exact h.finishPass
  | @changed _ i f g _ hf hroot hpath hparent hepoch _ =>
    rw [modify_eq]
    refine h.mapFrames (fun j x => ?_) (fun j x hx => ?_) fun x hx => ?_
    · unfold Store.changed
      split
      · exact hpath x
      · rfl
    · unfold Store.changed
      split
      · rw [hepoch]
        split
        · exact Nat.le_refl _
        · exact hx
      · exact hx
    · rw [Store.changed, if_neg hroot.symm]
      exact ⟨rfl, rfl, hx⟩
  | made _ _ _ hfree _ _ hepoch => exact h.insert hfree hepoch

/-- After an operation every frame is where one was before, or one more was made inside a live
one. -/
theorem Effect.kept_or_made (h : s.Sound) (he : s.Effect op t) :
    (t.nextId = s.nextId ∧ ∀ id g, t.frame? id = some g →
        ∃ f, s.frame? id = some f ∧ g.path = f.path ∧ g.parent = f.parent) ∨
      ∃ parent outer f segment, op.place? = some (parent, segment) ∧
        s.frame? parent = some outer ∧ f.path = outer.address segment ∧ f.parent = some parent ∧
        t = s.insert f := by
  cases he with
  | began =>
    refine .inl ⟨rfl, fun id g hg => ?_⟩
    rw [frame?_beginPass] at hg
    obtain ⟨f, hf, rfl⟩ := Option.map_eq_some_iff.1 hg
    refine ⟨f, hf, ?_⟩
    unfold Store.changed
    split <;> exact ⟨rfl, rfl⟩
  | finished =>
    exact .inl ⟨rfl, fun id g hg => ⟨g, ((frame?_finishPass_iff h).1 hg).1, rfl, rfl⟩⟩
  | @changed _ i _ g _ _ _ hpath hparent _ _ =>
    refine .inl ⟨rfl, fun id x hx => ?_⟩
    rw [modify_eq, frame?_mapFrames] at hx
    obtain ⟨f, hf, rfl⟩ := Option.map_eq_some_iff.1 hx
    refine ⟨f, hf, ?_⟩
    unfold Store.changed
    split
    · exact ⟨hpath f, hparent f⟩
    · exact ⟨rfl, rfl⟩
  | made hplace _ hlive _ hpath hinside _ =>
    exact .inr ⟨_, _, _, _, hplace, hlive, hpath, hinside, rfl⟩

/-- **An operation** keeps stores consistent. -/
theorem Consistent.effect (h : s.Consistent) (he : s.Effect op t) : t.Consistent := by
  have ht := h.toSound.effect he
  rcases he.kept_or_made h.toSound with
    ⟨-, hkept⟩ | ⟨parent, outer, f, segment, -, hlive, hpath, hinside, rfl⟩
  · exact h.of_frames ht hkept
  · have hlt := h.fresh parent outer hlive
    refine ⟨ht, fun j x p hx hp => ?_, fun j x p o hx hp ho => ?_⟩
    · rcases frame?_insert_cases hx with ⟨rfl, rfl⟩ | hx
      · cases hinside.symm.trans hp
        exact hlt
      · exact h.older j x p hx hp
    · rcases frame?_insert_cases hx with ⟨rfl, rfl⟩ | hx
      · cases hinside.symm.trans hp
        rw [frame?_insert_of_ne x (Nat.ne_of_lt hlt), hlive] at ho
        cases ho
        exact ⟨segment, hpath⟩
      · -- the frame around it is older, so it was there before
        have hold : p < s.nextId := h.lt_nextId_of_parent hx hp
        rw [frame?_insert_of_ne f (Nat.ne_of_lt hold)] at ho
        exact h.inside j x p o hx hp ho

/-- **Every store that operations lead to** is consistent. -/
theorem run_consistent (ops : List Operation) : (new.run ops).Consistent :=
  run_induction .new (fun _ _ _ h ha => h.effect (h.toSound.effect_of_attempt ha)) ops

/-! ### Later stores -/

/-- A store that another came to later: no number was given twice, and no frame was moved. -/
structure Later (s t : Store) : Prop where
  sound : t.Sound
  numbers : s.nextId ≤ t.nextId
  before : ∀ id g, t.frame? id = some g → id < s.nextId →
    ∃ f, s.frame? id = some f ∧ g.path = f.path

theorem Later.refl (h : s.Sound) : s.Later s :=
  ⟨h, Nat.le_refl _, fun _ g hg _ => ⟨g, hg, rfl⟩⟩

theorem Later.trans {u : Store} (h : s.Later t) (h' : t.Later u) : s.Later u where
  sound := h'.sound
  numbers := Nat.le_trans h.numbers h'.numbers
  before id g hg hold := by
    have hold' : id < t.nextId := Nat.lt_of_lt_of_le hold h.numbers
    obtain ⟨f, hf, hpath⟩ := h'.before id g hg hold'
    obtain ⟨f₀, hf₀, hpath₀⟩ := h.before id f hf hold
    exact ⟨f₀, hf₀, hpath.trans hpath₀⟩

/-- **An operation** leaves a later store. -/
theorem Sound.later (h : s.Sound) (op : Operation) (ha : s.attempt op = .ok t) : s.Later t := by
  have he := h.effect_of_attempt ha
  have ht := h.effect he
  rcases he.kept_or_made h with ⟨hnext, hkept⟩ | ⟨_, _, f, _, -, -, -, -, rfl⟩
  · refine ⟨ht, Nat.le_of_eq hnext.symm, fun id g hg _ => ?_⟩
    obtain ⟨f, hf, hpath, -⟩ := hkept id g hg
    exact ⟨f, hf, hpath⟩
  · refine ⟨ht, Nat.le_succ _, fun id g hg hold => ?_⟩
    rw [frame?_insert_of_ne f (Nat.ne_of_lt hold)] at hg
    exact ⟨g, hg, rfl⟩

/-- So does a run. -/
theorem Sound.later_run (h : s.Sound) (ops : List Operation) : s.Later (s.run ops) := by
  induction ops using List.reverseRecOn with
  | nil => exact .refl h
  | append_singleton ops op ih =>
    rw [run_concat, perform]
    split
    · next t ha => exact ih.trans (ih.sound.later op ha)
    · exact ih

/-- **A frame that is gone** never comes back: its number is not given again. -/
theorem Later.gone (h : s.Later t) (hnone : s.frame? id = none) (hold : id < s.nextId) :
    t.frame? id = none := by
  refine Option.eq_none_iff_forall_ne_some.2 fun g hg => ?_
  obtain ⟨f, hf, -⟩ := h.before id g hg hold
  rw [hnone] at hf
  cases hf

/-! ### One frame -/

/-- From `s` to `t` nothing but one frame was changed, or made. It is where it was. -/
structure OneFrame (s t : Store) (id : ScopeId) : Prop where
  others : ∀ j, j ≠ id → t.frame? j = s.frame? j
  kept : ∀ j f, s.frame? j = some f → ∃ g, t.frame? j = some g ∧ g.path = f.path ∧
    g.parent = f.parent
  made : s.frame? id = none → id = s.nextId

theorem OneFrame.of_modify {g : Frame → Frame} (hf : s.frame? id = some f)
    (hpath : ∀ x, (g x).path = x.path) (hparent : ∀ x, (g x).parent = x.parent) :
    s.OneFrame (s.modify id g) id where
  others j hj := frame?_modify_of_ne g hj
  kept j x hx := by
    by_cases hj : j = id
    · subst hj
      rw [frame?_modify_self, hx]
      exact ⟨g x, rfl, hpath x, hparent x⟩
    · rw [frame?_modify_of_ne g hj]
      exact ⟨x, hx, rfl, rfl⟩
  made hnone := by
    rw [hf] at hnone
    cases hnone

theorem Sound.oneFrame_insert (h : s.Sound) (f : Frame) : s.OneFrame (s.insert f) s.nextId where
  others _ hj := frame?_insert_of_ne f hj
  kept _ x hx := ⟨x, h.frame?_insert hx f, rfl, rfl⟩
  made _ := rfl

/-- **An operation within a pass** is about one frame. -/
theorem Effect.oneFrame (h : s.Sound) (he : s.Effect op t) (hbegin : op ≠ .beginPass)
    (hfinish : op ≠ .finishPass) : ∃ id, s.target? op = some id ∧ s.OneFrame t id := by
  cases he with
  | began => exact absurd rfl hbegin
  | finished => exact absurd rfl hfinish
  | @changed _ id _ _ htarget hf _ hpath hparent _ _ =>
    exact ⟨id, htarget, .of_modify hf hpath hparent⟩
  | @made _ _ _ f _ _ htarget _ _ _ _ _ => exact ⟨s.nextId, htarget, h.oneFrame_insert f⟩

/-! ### Chains -/

/-- Fuel beyond a frame's number adds nothing to its chain. -/
theorem Consistent.chainFrom_eq (h : s.Consistent) {n m : Nat} (hn : id < n) (hm : id < m) :
    s.chainFrom n id = s.chainFrom m id := by
  induction id using Nat.strongRecOn generalizing n m with
  | ind id ih =>
    obtain ⟨n, rfl⟩ := Nat.exists_eq_add_one_of_ne_zero (Nat.ne_zero_of_lt hn)
    obtain ⟨m, rfl⟩ := Nat.exists_eq_add_one_of_ne_zero (Nat.ne_zero_of_lt hm)
    cases hf : s.frame? id with
    | none => rw [chainFrom_none hf, chainFrom_none hf]
    | some f =>
      cases hp : f.parent with
      | none => rw [chainFrom_root hf hp, chainFrom_root hf hp]
      | some p =>
        have hlt := h.older id f p hf hp
        have hpn : p < n := Nat.lt_of_lt_of_le hlt (Nat.le_of_lt_succ hn)
        have hpm : p < m := Nat.lt_of_lt_of_le hlt (Nat.le_of_lt_succ hm)
        have hrest : s.chainFrom n p = s.chainFrom m p := ih p hlt hpn hpm
        rw [chainFrom_parent hf hp, chainFrom_parent hf hp, hrest]

/-- **The chain** of a frame goes on with that of the frame around it. -/
theorem Consistent.chain_cons (h : s.Consistent) {p : ScopeId} (hf : s.frame? id = some f)
    (hp : f.parent = some p) : s.chain id = ((id, f) :: (s.chain p).1, (s.chain p).2) := by
  have hlt := h.older id f p hf hp
  unfold chain
  rw [chainFrom_parent hf hp, h.chainFrom_eq hlt (Nat.lt_succ_self p)]

end Store

end Trellis
