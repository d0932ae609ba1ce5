import Trellis.Proofs.Scope.Visibility
import Trellis.Proofs.Value.Replace

/-!
# Well-formed stores

Whatever was asked of a new store, its index of addresses and its frames are inverse to each other,
its root is as it was made, every other frame lies in an older one, and every frame of a namespace
holds members. So going outwards from a scope comes to an end, data is added to the members that are
there and never put in their place, and the frame of a namespace always takes a loop's member.

* `Store.Walk`: going outwards frame by frame, however long it takes.
* `Store.Filled`: what frames hold, by what they stand for; `Store.Filled.attempt`: operations keep
  it.
* `Store.WellFormed`, `Store.run_wellFormed`: the invariant, after every run of operations.
-/

namespace Trellis

namespace Store

variable {s t : Store} {op : Operation} {id p scope : ScopeId} {f : Frame} {ns : String}

/-! ### Going outwards -/

/-- From a scope outwards as far as the frames are live, and whether the last one is the outermost.
No fuel is counted. -/
inductive Walk (s : Store) : ScopeId → List (ScopeId × Frame) × Bool → Prop
  | released {id : ScopeId} (gone : s.frame? id = none) : s.Walk id ([], false)
  | outermost {id : ScopeId} {f : Frame} (live : s.frame? id = some f) (top : f.parent = none) :
      s.Walk id ([(id, f)], true)
  | inside {id p : ScopeId} {f : Frame} {outer : List (ScopeId × Frame)} {whole : Bool}
      (live : s.frame? id = some f) (parent : f.parent = some p) (rest : s.Walk p (outer, whole)) :
      s.Walk id ((id, f) :: outer, whole)

/-- The chain of a scope is the walk from it. -/
theorem Consistent.walk_chain (h : s.Consistent) (id : ScopeId) : s.Walk id (s.chain id) := by
  induction id using h.outwards with
  | released id hnone =>
    unfold chain
    rw [chainFrom_none hnone]
    exact .released hnone
  | outermost id f hf hp =>
    unfold chain
    rw [chainFrom_root hf hp]
    exact .outermost hf hp
  | inside id f p hf hp ih =>
    rw [h.chain_cons hf hp]
    exact .inside hf hp ih

/-- There is one way outwards. -/
theorem Walk.unique {w w' : List (ScopeId × Frame) × Bool} (h : s.Walk id w) (h' : s.Walk id w') :
    w = w' := by
  induction h generalizing w' with
  | released hnone =>
    cases h' with
    | released => rfl
    | outermost hf => cases hnone.symm.trans hf
    | inside hf => cases hnone.symm.trans hf
  | outermost hf htop =>
    cases h' with
    | released hnone => cases hnone.symm.trans hf
    | outermost hf' => cases hf.symm.trans hf'; rfl
    | inside hf' hp' => cases hf.symm.trans hf'; cases htop.symm.trans hp'
  | inside hf hp _ ih =>
    cases h' with
    | released hnone => cases hnone.symm.trans hf
    | outermost hf' htop => cases hf.symm.trans hf'; cases htop.symm.trans hp
    | inside hf' hp' hrest =>
      cases hf.symm.trans hf'
      cases hp.symm.trans hp'
      cases ih hrest
      rfl

/-! ### What frames hold -/

/-- A frame of a namespace holds members. -/
def HoldsMembers (f : Frame) : Prop :=
  ∀ ns, f.kind = .space ns → ∃ members, f.data = .object members

/-- A consistent store in which the root holds nothing, every other frame lies in one, and frames of
namespaces hold members. -/
structure Filled (s : Store) : Prop extends Consistent s where
  rootData : ∀ f, s.frame? rootId = some f → f.data = .null
  outer : ∀ id f, s.frame? id = some f → id ≠ rootId → ∃ p, f.parent = some p
  members : ∀ id f, s.frame? id = some f → HoldsMembers f

theorem Filled.new : Store.new.Filled where
  toConsistent := .new
  rootData f hf := by
    obtain ⟨-, rfl⟩ := frame?_new hf
    rfl
  outer id f hf hne := absurd (frame?_new hf).1 hne
  members id f hf ns hk := by
    obtain ⟨-, rfl⟩ := frame?_new hf
    cases hk

/-- **Frames** that are as before, up to the pass that touched them, or are filled in a frame other
than the root. -/
theorem Filled.of_frames (h : s.Filled) (ht : t.Consistent)
    (hframes : ∀ id g, t.frame? id = some g →
      (∃ f, s.frame? id = some f ∧ g.parent = f.parent ∧ g.kind = f.kind ∧ g.data = f.data) ∨
        id ≠ rootId ∧ (∃ p, g.parent = some p) ∧ HoldsMembers g) : t.Filled where
  toConsistent := ht
  rootData g hg := by
    rcases hframes rootId g hg with ⟨f, hf, -, -, hdata⟩ | ⟨hne, -⟩
    · exact hdata.trans (h.rootData f hf)
    · exact absurd rfl hne
  outer id g hg hne := by
    rcases hframes id g hg with ⟨f, hf, hparent, -⟩ | ⟨-, hinside, -⟩
    · obtain ⟨p, hp⟩ := h.outer id f hf hne
      exact ⟨p, hparent.trans hp⟩
    · exact hinside
  members id g hg := by
    rcases hframes id g hg with ⟨f, hf, -, hkind, hdata⟩ | ⟨-, -, hholds⟩
    · intro ns hk
      obtain ⟨members, hm⟩ := h.members id f hf ns (hkind.symm.trans hk)
      exact ⟨members, hdata.trans hm⟩
    · exact hholds

/-- One frame is changed where it is, and holds what it should. -/
theorem Filled.modify (h : s.Filled) {g : Frame → Frame} (ht : (s.modify id g).Consistent)
    (hf : s.frame? id = some f) (hne : id ≠ rootId) (hparent : (g f).parent = f.parent)
    (hholds : HoldsMembers (g f)) : (s.modify id g).Filled := by
  refine h.of_frames ht fun j x hx => ?_
  by_cases hj : j = id
  · subst hj
    rw [frame?_modify_self, hf] at hx
    cases hx
    obtain ⟨p, hp⟩ := h.outer j f hf hne
    exact .inr ⟨hne, ⟨p, hparent.trans hp⟩, hholds⟩
  · rw [frame?_modify_of_ne g hj] at hx
    exact .inl ⟨x, hx, rfl, rfl, rfl⟩

/-- One more frame is made inside another, and holds what it should. -/
theorem Filled.insert (h : s.Filled) (ht : (s.insert f).Consistent) (hp : f.parent = some p)
    (hholds : HoldsMembers f) : (s.insert f).Filled := by
  have hnext : s.nextId ≠ rootId := by
    obtain ⟨r, hr, -⟩ := h.root
    exact (h.toSound.ne_nextId hr).symm
  refine h.of_frames ht fun j x hx => ?_
  rcases frame?_insert_cases hx with ⟨rfl, rfl⟩ | hx
  · exact .inr ⟨hnext, ⟨p, hp⟩, hholds⟩
  · exact .inl ⟨x, hx, rfl, rfl, rfl⟩

/-- **Opening** a frame and then changing it, so that it holds what it should in every case. -/
theorem Filled.openFrame (h : s.Filled) {u : Store} {segment : String} {kind : FrameKind}
    {created : Bool} {g : Frame → Frame}
    (ho : s.openFrame p segment kind = .ok ((id, created), u)) (ht : (u.modify id g).Consistent)
    (hpath : ∀ x, (g x).path = x.path) (hparent : ∀ x, (g x).parent = x.parent)
    (hholds : ∀ x, x.kind = kind → HoldsMembers x → HoldsMembers (g x)) :
    (u.modify id g).Filled := by
  have hs := h.toConsistent.toSound
  cases hp : s.frame? p with
  | none =>
    unfold Store.openFrame at ho
    rw [hp] at ho
    cases ho
  | some outer =>
    rcases openFrame_cases hs hp segment kind with ⟨i, f, c, g', hf, hat, he, hok⟩ | ⟨-, hok⟩
    · rw [hok] at ho
      cases ho
      rw [modify_modify] at ht ⊢
      -- an entered frame keeps its data if it is of the kind already, and starts over otherwise
      have hentered : HoldsMembers (g' f) := by
        intro ns hk
        cases created with
        | false =>
          obtain ⟨hdata, hsame⟩ := he.kept rfl
          obtain ⟨members, hm⟩ := h.members id f hf ns (hsame.trans (he.kind.symm.trans hk))
          exact ⟨members, hdata.trans hm⟩
        | true => exact ⟨[], (he.cleared rfl).1⟩
      exact h.modify ht hf (hs.ne_root hf hat) ((hparent _).trans (he.parent f))
        (hholds _ he.kind hentered)
    · rw [hok] at ho
      cases ho
      rw [modify_insert hs (hpath _)] at ht ⊢
      exact h.insert ht (hparent _) (hholds _ rfl fun _ _ => ⟨[], rfl⟩)

/-- **What replaces** members below an object is an object. -/
theorem Filled.object_of_replace (h : s.Filled) {keys : List String} {v data : Value}
    (hf : s.frame? id = some f) (hk : f.kind = .space ns) (hkeys : keys ≠ [])
    (hr : f.data.replace keys v = .ok data) : ∃ members, data = .object members := by
  obtain ⟨members, hm⟩ := h.members id f hf ns hk
  cases keys with
  | nil => exact absurd rfl hkeys
  | cons key rest =>
    rw [hm, Value.replace_object] at hr
    obtain ⟨w, -, rfl⟩ := Except.map_eq_ok.1 hr
    exact ⟨_, rfl⟩

/-- Writing nowhere below a namespace fails. -/
theorem keys_ne_nil_of_write {keys : List String} {v : Value} {e : String × Store}
    (h : s.write scope ns keys v = .ok e) : keys ≠ [] := by
  rintro rfl
  cases h

/-- Members are added to those of a frame that has some. -/
theorem extend_object {old : Members Value} (hf : f.data = .object old) (members : Members Value) :
    f.extend members = { f with data := .object (Members.extend old members) } := by
  unfold Frame.extend
  rw [hf]

/-- **An operation** keeps frames filled. -/
theorem Filled.attempt (h : s.Filled) (ha : s.attempt op = .ok t) : t.Filled := by
  have hs := h.toConsistent.toSound
  have ht := h.toConsistent.effect (hs.effect_of_attempt ha)
  cases op with
  | openSpace parent segment ns =>
    obtain ⟨⟨⟨id, created⟩, u⟩, ho, rfl⟩ := Except.map_eq_ok.1 ha
    rw [← modify_self u id] at ht ⊢
    exact h.openFrame ho ht (fun _ => rfl) (fun _ => rfl) fun _ _ hx => hx
  | openSlot owner ns slot given =>
    obtain ⟨⟨id, u⟩, ho, rfl⟩ := Except.map_eq_ok.1 ha
    obtain ⟨created, u, hopen, rfl⟩ := openSlot_eq_ok ho
    -- what a slot was given need not have members, but it is no namespace
    refine h.openFrame (g := fun f => { f with data := given }) hopen ht (fun _ => rfl)
      (fun _ => rfl) fun x hx _ ns' hk => ?_
    cases hx.symm.trans hk
  | addData scope ns members =>
    obtain ⟨id, f, hsp, rfl⟩ := addData_eq_ok ha
    obtain ⟨hf, hk⟩ := frame?_of_space hsp
    obtain ⟨old, hold⟩ := h.members id f hf ns hk
    refine h.modify ht hf (hs.ne_root_of_space hf hk) ?_ fun _ _ => ?_
    · rw [extend_object hold]
    · rw [extend_object hold]
      exact ⟨_, rfl⟩
  | setLoop scope binding =>
    obtain ⟨f, ns, members, hf, hk, -, rfl⟩ := setLoop_eq_ok ha
    exact h.modify (g := fun f => { f with data := .object (Members.assign members loopKey binding) })
      ht hf (hs.ne_root_of_space hf hk) rfl fun _ _ => ⟨_, rfl⟩
  | write scope ns keys value =>
    obtain ⟨⟨path, u⟩, hw, rfl⟩ := Except.map_eq_ok.1 ha
    obtain ⟨id, f, data, hsp, hr, rfl⟩ := write_eq_ok hw
    obtain ⟨hf, hk⟩ := frame?_of_space hsp
    refine h.modify (g := fun f => { f with data := data }) ht hf (hs.ne_root_of_space hf hk) rfl
      fun _ _ => ?_
    exact h.object_of_replace hf hk (keys_ne_nil_of_write hw) hr
  | beginPass =>
    cases ha
    refine h.of_frames ht fun j x hx => .inl ?_
    rw [frame?_beginPass] at hx
    obtain ⟨f, hf, rfl⟩ := Option.map_eq_some_iff.1 hx
    refine ⟨f, hf, ?_⟩
    unfold changed
    split <;> exact ⟨rfl, rfl, rfl⟩
  | finishPass =>
    cases ha
    exact h.of_frames ht fun j x hx => .inl ⟨x, ((frame?_finishPass_iff hs).1 hx).1, rfl, rfl, rfl⟩

theorem run_filled (ops : List Operation) : (new.run ops).Filled :=
  run_induction .new (fun _ _ _ h ha => h.attempt ha) ops

/-! ### The invariant -/

/-- **A well-formed store.** The index of addresses and the frames are inverse to each other; the
root is as it was made, but for the pass that touched it; every other frame is younger than the one
it lies in, and older than the next one; going outwards ends, in the one way that the chain says; and
the frames of namespaces hold members. -/
structure WellFormed (s : Store) : Prop where
  ids : (s.frames.map Prod.fst).Nodup
  paths : s.addresses.Distinct
  index : ∀ path id, s.scopeAt? path = some id ↔ ∃ f, s.frame? id = some f ∧ f.path = path
  root : s.frame? rootId = some ⟨"", none, .root, .null, s.epoch⟩
  inner : ∀ id f, s.frame? id = some f → id ≠ rootId →
    ∃ p, f.parent = some p ∧ p < id ∧ id < s.nextId
  walks : ∀ id w, s.Walk id w ↔ w = s.chain id
  members : ∀ id f ns, s.frame? id = some f → f.kind = .space ns →
    ∃ members, f.data = .object members

/-- The root of a filled store is as it was made. -/
theorem Filled.frame?_root (h : s.Filled) :
    s.frame? rootId = some ⟨"", none, .root, .null, s.epoch⟩ := by
  obtain ⟨r, hr, hpath, hparent, hkind, hepoch⟩ := h.root
  have hdata := h.rootData r hr
  rw [hr, ← hpath, ← hparent, ← hkind, ← hdata, ← hepoch]

theorem Filled.wellFormed (h : s.Filled) : s.WellFormed where
  ids := h.ids
  paths := h.names
  index path id := by
    constructor
    · exact h.live path id
    · rintro ⟨f, hf, rfl⟩
      exact h.indexed id f hf
  root := h.frame?_root
  inner id f hf hne := by
    obtain ⟨p, hp⟩ := h.outer id f hf hne
    exact ⟨p, hp, h.older id f p hf hp, h.fresh id f hf⟩
  walks id w := by
    have hchain := h.toConsistent.walk_chain id
    exact ⟨fun hw => hw.unique hchain, fun hw => hw ▸ hchain⟩
  members id f ns hf hk := h.members id f hf ns hk

/-- Data is added to the members of a namespace that is found. -/
theorem Filled.addData_ok (h : s.Filled) (hsp : s.space scope ns = .ok (id, f))
    (members : Members Value) :
    ∃ old t, f.data = .object old ∧ s.addData scope ns members = .ok t ∧
      s.Becomes t id { f with data := .object (Members.extend old members) } := by
  obtain ⟨hf, hk⟩ := frame?_of_space hsp
  obtain ⟨old, hold⟩ := h.members id f hf ns hk
  have hbecomes := Becomes.of_modify hf (Frame.extend · members)
  rw [extend_object hold] at hbecomes
  refine ⟨old, _, hold, ?_, hbecomes⟩
  unfold addData
  rw [hsp]
  rfl

/-- A live frame of a namespace takes the member of a loop. -/
theorem Filled.setLoop_ok (h : s.Filled) (hf : s.frame? scope = some f) (hk : f.kind = .space ns)
    (binding : Value) :
    ∃ old t, f.data = .object old ∧ s.setLoop scope binding = .ok t ∧
      s.Becomes t scope { f with data := .object (Members.assign old loopKey binding) } := by
  obtain ⟨old, hold⟩ := h.members scope f hf ns hk
  have hbecomes := Becomes.of_modify hf fun f =>
    { f with data := .object (Members.assign old loopKey binding) }
  refine ⟨old, _, hold, ?_, hbecomes⟩
  unfold setLoop
  rw [hf]
  simp only [hk, hold]

/-- **The representation invariant.** Whatever was asked of a new store, whether it failed or not,
the store is well-formed. So adding data to a namespace that is found adds it to the members that
are there, and a live frame of a namespace takes the member of a loop. -/
theorem run_wellFormed (ops : List Operation) : (new.run ops).WellFormed ∧
    (∀ scope ns id f members, (new.run ops).space scope ns = .ok (id, f) →
      ∃ old t, f.data = .object old ∧ (new.run ops).addData scope ns members = .ok t ∧
        (new.run ops).Becomes t id { f with data := .object (Members.extend old members) }) ∧
    (∀ scope f ns binding, (new.run ops).frame? scope = some f → f.kind = .space ns →
      ∃ old t, f.data = .object old ∧ (new.run ops).setLoop scope binding = .ok t ∧
        (new.run ops).Becomes t scope
          { f with data := .object (Members.assign old loopKey binding) }) := by
  have h := run_filled ops
  exact ⟨h.wellFormed, fun _ _ _ _ members hsp => h.addData_ok hsp members,
    fun _ _ _ binding hf hk => h.setLoop_ok hf hk binding⟩

end Store

end Trellis
