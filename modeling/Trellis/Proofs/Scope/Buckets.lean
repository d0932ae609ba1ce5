import Trellis.Proofs.Scope.Notices
import Trellis.Proofs.Scope.Visibility

/-!
# What slots hold

The frame of a slot holds what the slot was given when it was last opened, as it was given. An
assignment of any kind is to the frame of a namespace and spares it; an opening that enters the frame
as something else makes it the frame of that.

* `Store.lastGiven?`: what a slot was given last in a run, by its owner's address.
* `Store.SameBuckets`, `Store.sameBuckets_of_assigns`: what assignments spare.
* `Store.run_given`: a slot's frame after any run.
* `Handle.run_given`: the same of a handle, of which also writes at paths are asked.
-/

namespace Trellis

namespace Store

variable {s t : Store} {op : Operation} {id owner parent scope : ScopeId} {f g : Frame}
  {ns slot : String}

/-! ### What slots are given -/

/-- What an operation gives to a slot of an owner at an address. -/
def gives? (s : Store) (path ns slot : String) : Operation → Option Value
  | .openSlot owner ns' slot' given =>
    if s.pathOf? owner = some path ∧ ns' = ns ∧ slot' = slot then some given else none
  | _ => none

/-- What a slot of an owner at an address is given last in a run, if it is given anything. -/
def lastGiven? (s : Store) (path ns slot : String) : List Operation → Option Value
  | [] => none
  | op :: ops => ((s.perform op).lastGiven? path ns slot ops).or (s.gives? path ns slot op)

theorem lastGiven?_concat (path ns slot : String) (ops : List Operation) (op : Operation) :
    ∀ s : Store, s.lastGiven? path ns slot (ops ++ [op]) =
      ((s.run ops).gives? path ns slot op).or (s.lastGiven? path ns slot ops) := by
  induction ops with
  | nil =>
    intro s
    simp [lastGiven?, run]
  | cons first ops ih =>
    intro s
    have hrun : s.run (first :: ops) = (s.perform first).run ops := rfl
    simp only [List.cons_append, lastGiven?, ih, hrun, Option.or_assoc]

/-- Something is given by opening the slot from a live owner. -/
theorem gives?_eq_some {path : String} {v : Value} (h : s.gives? path ns slot op = some v) :
    ∃ owner o, op = .openSlot owner ns slot v ∧ s.frame? owner = some o ∧ o.path = path := by
  cases op with
  | openSlot owner ns' slot' given =>
    simp only [gives?] at h
    split at h
    · next hcond =>
      obtain ⟨hpath, rfl, rfl⟩ := hcond
      obtain ⟨o, ho, hopath⟩ := Option.map_eq_some_iff.1 hpath
      cases h
      exact ⟨owner, o, rfl, ho, hopath⟩
    · cases h
  | _ => cases h

theorem gives?_openSlot {o : Frame} (ho : s.frame? owner = some o) (given : Value) :
    s.gives? o.path ns slot (.openSlot owner ns slot given) = some given := by
  have hpath : s.pathOf? owner = some o.path := by
    rw [pathOf?, ho]
    rfl
  rw [gives?, if_pos ⟨hpath, rfl, rfl⟩]

/-! ### Opening -/

/-- **Opening a frame** makes it one of its kind at its address, and changes no other. -/
theorem Sound.becomes_of_openFrame (h : s.Sound) {segment : String} {kind : FrameKind}
    {created : Bool} (ho : s.openFrame parent segment kind = .ok ((id, created), t)) :
    ∃ outer x, s.frame? parent = some outer ∧ s.Becomes t id x ∧ x.kind = kind ∧
      x.path = outer.address segment := by
  cases hp : s.frame? parent with
  | none =>
    unfold Store.openFrame at ho
    rw [hp] at ho
    cases ho
  | some outer =>
    rcases openFrame_cases h hp segment kind with ⟨i, x, c, g, hx, hpath, he, hok⟩ | ⟨-, hok⟩
    · rw [hok] at ho
      cases ho
      exact ⟨outer, g x, rfl, .of_modify hx g, he.kind, (he.path x).trans hpath⟩
    · rw [hok] at ho
      cases ho
      have hbecomes : s.Becomes (s.insert (opened s.epoch parent (outer.address segment) kind))
          s.nextId (opened s.epoch parent (outer.address segment) kind) :=
        ⟨frame?_insert_self _, fun j hj => frame?_insert_of_ne _ hj⟩
      exact ⟨outer, _, rfl, hbecomes, rfl, rfl⟩

/-- **Opening a slot** makes its frame hold what it is given, and changes no other. -/
theorem Sound.becomes_of_openSlot (h : s.Sound) {given : Value}
    (ho : s.openSlot owner ns slot given = .ok (id, t)) :
    ∃ o x, s.frame? owner = some o ∧ s.Becomes t id x ∧ x.kind = .slot ns slot ∧
      x.path = o.address (Step.slot ns slot).segment ∧ x.data = given := by
  obtain ⟨created, t', hopen, rfl⟩ := openSlot_eq_ok ho
  obtain ⟨o, x, howner, hx, hkind, hpath⟩ := h.becomes_of_openFrame hopen
  refine ⟨o, { x with data := given }, howner, ⟨?_, fun j hj => ?_⟩, hkind, hpath, rfl⟩
  · rw [frame?_modify_self, hx.frame]
    rfl
  · rw [frame?_modify_of_ne _ hj, hx.others j hj]

/-- A live owner can open its slots. -/
theorem Sound.openSlot_ok (h : s.Sound) {o : Frame} (ho : s.frame? owner = some o)
    (ns slot : String) (given : Value) : ∃ r, s.openSlot owner ns slot given = .ok r := by
  unfold openSlot
  rcases openFrame_cases h ho (Step.slot ns slot).segment (.slot ns slot) with
    ⟨i, x, c, g, -, -, -, hok⟩ | ⟨-, hok⟩
  · rw [hok]
    exact ⟨_, rfl⟩
  · rw [hok]
    exact ⟨_, rfl⟩

/-! ### Assigning -/

/-- Whether an operation assigns to members of a namespace. -/
def Operation.assigns : Operation → Bool
  | addData _ _ _ => true
  | setLoop _ _ => true
  | write _ _ _ _ => true
  | _ => false

/-- The frames of slots are the same in both stores, and hold the same. -/
def SameBuckets (s t : Store) : Prop :=
  ∀ id f ns slot, f.kind = .slot ns slot → (t.frame? id = some f ↔ s.frame? id = some f)

theorem SameBuckets.refl (s : Store) : s.SameBuckets s := fun _ _ _ _ _ => Iff.rfl

theorem SameBuckets.trans {u : Store} (h : s.SameBuckets t) (h' : t.SameBuckets u) :
    s.SameBuckets u :=
  fun id f ns slot hk => (h' id f ns slot hk).trans (h id f ns slot hk)

/-- A change of a namespace's frame that leaves it one spares the frames of slots. -/
theorem sameBuckets_modify (hf : s.frame? id = some f) {space : String}
    (hspace : f.kind = .space space) {g : Frame → Frame} (hg : (g f).kind = f.kind) :
    s.SameBuckets (s.modify id g) := by
  intro j x ns slot hk
  by_cases hj : j = id
  · subst hj
    rw [frame?_modify_self, hf, Option.map_some]
    constructor
    · intro h
      obtain rfl : g f = x := Option.some.inj h
      rw [hg, hspace] at hk
      cases hk
    · intro h
      obtain rfl : f = x := Option.some.inj h
      rw [hspace] at hk
      cases hk
  · rw [frame?_modify_of_ne g hj]

/-- **An assignment** spares the frames of slots, whatever scope it comes from. -/
theorem sameBuckets_of_assigns (ha : s.attempt op = .ok t) (hop : op.assigns) : s.SameBuckets t := by
  cases op with
  | addData scope ns members =>
    obtain ⟨id, f, hs, rfl⟩ := addData_eq_ok ha
    obtain ⟨hf, hk⟩ := frame?_of_space hs
    refine sameBuckets_modify hf hk ?_
    unfold Frame.extend
    split <;> rfl
  | setLoop scope binding =>
    obtain ⟨f, ns, members, hf, hk, -, rfl⟩ := setLoop_eq_ok ha
    exact sameBuckets_modify hf hk rfl
  | write scope ns keys value =>
    obtain ⟨⟨path, t⟩, hw, rfl⟩ := Except.map_eq_ok.1 ha
    obtain ⟨id, f, data, hs, -, rfl⟩ := write_eq_ok hw
    obtain ⟨hf, hk⟩ := frame?_of_space hs
    exact sameBuckets_modify (g := fun f => { f with data := data }) hf hk rfl
  | openSpace parent segment ns => cases hop
  | openSlot owner ns slot given => cases hop
  | beginPass => cases hop
  | finishPass => cases hop

/-! ### Runs -/

/-- **A slot's frame** after an operation was given its data by it, or had the data before. -/
theorem Sound.bucket_before (h : s.Sound) (ha : s.attempt op = .ok t) (hg : t.frame? id = some g)
    (hk : g.kind = .slot ns slot) :
    (∃ owner o, op = .openSlot owner ns slot g.data ∧ s.frame? owner = some o ∧
      g.path = o.address (Step.slot ns slot).segment) ∨
    ∃ f, s.frame? id = some f ∧ f.kind = g.kind ∧ f.path = g.path ∧ f.data = g.data := by
  -- a frame that an operation is not about
  have hkept : s.frame? id = some g →
      ∃ f, s.frame? id = some f ∧ f.kind = g.kind ∧ f.path = g.path ∧ f.data = g.data :=
    fun hf => ⟨g, hf, rfl, rfl, rfl⟩
  cases op with
  | openSpace parent segment ns' =>
    obtain ⟨⟨⟨i, created⟩, t'⟩, ho, rfl⟩ := Except.map_eq_ok.1 ha
    obtain ⟨outer, x, -, hx, hkind, -⟩ := h.becomes_of_openFrame ho
    by_cases hid : id = i
    · subst hid
      have hgx : x = g := Option.some.inj (hx.frame.symm.trans hg)
      rw [← hgx, hkind] at hk
      cases hk
    · exact .inr (hkept ((hx.others id hid).symm.trans hg))
  | openSlot owner ns' slot' given =>
    obtain ⟨⟨i, t'⟩, ho, rfl⟩ := Except.map_eq_ok.1 ha
    obtain ⟨o, x, howner, hx, hkind, hpath, hdata⟩ := h.becomes_of_openSlot ho
    by_cases hid : id = i
    · subst hid
      have hgx : x = g := Option.some.inj (hx.frame.symm.trans hg)
      subst hgx
      obtain ⟨rfl, rfl⟩ := FrameKind.slot.inj (hkind.symm.trans hk)
      exact .inl ⟨owner, o, by rw [hdata], howner, hpath⟩
    · exact .inr (hkept ((hx.others id hid).symm.trans hg))
  | addData scope ns' members =>
    exact .inr (hkept ((sameBuckets_of_assigns ha rfl id g ns slot hk).1 hg))
  | setLoop scope binding =>
    exact .inr (hkept ((sameBuckets_of_assigns ha rfl id g ns slot hk).1 hg))
  | write scope ns' keys value =>
    exact .inr (hkept ((sameBuckets_of_assigns ha rfl id g ns slot hk).1 hg))
  | beginPass =>
    cases ha
    rw [frame?_beginPass] at hg
    obtain ⟨f, hf, rfl⟩ := Option.map_eq_some_iff.1 hg
    refine .inr ⟨f, hf, ?_⟩
    unfold changed
    split
    · exact ⟨rfl, rfl, rfl⟩
    · exact ⟨rfl, rfl, rfl⟩
  | finishPass =>
    cases ha
    exact .inr (hkept ((frame?_finishPass_iff h).1 hg).1)

/-- A slot's frame is at an address of the slot in its owner's, and holds what it was given last. -/
def Given (s : Store) (ops : List Operation) : Prop :=
  ∀ id f ns slot, s.frame? id = some f → f.kind = .slot ns slot →
    ∃ path, f.path = path ++ "/" ++ (Step.slot ns slot).segment ∧
      new.lastGiven? path ns slot ops = some f.data

/-- **The frames of slots** hold what the slots were given last, as long as they are theirs. -/
theorem run_given (ops : List Operation) : (new.run ops).Given ops := by
  induction ops using List.reverseRecOn with
  | nil =>
    intro id f ns slot hf hk
    obtain ⟨rfl, rfl⟩ := frame?_new hf
    cases hk
  | append_singleton ops op ih =>
    have hsound : (new.run ops).Sound := (run_consistent ops).toSound
    intro id g ns slot hg hk
    rw [run_concat] at hg
    cases ha : (new.run ops).attempt op with
    | error e =>
      -- an operation that fails is no opening from a live owner
      rw [perform_of_error ha] at hg
      obtain ⟨path, hpath, hlast⟩ := ih id g ns slot hg hk
      have hnone : (new.run ops).gives? path ns slot op = none := by
        refine Option.eq_none_iff_forall_ne_some.2 fun v hv => ?_
        obtain ⟨owner, o, rfl, ho, -⟩ := gives?_eq_some hv
        obtain ⟨r, hr⟩ := hsound.openSlot_ok ho ns slot v
        rw [attempt, hr] at ha
        cases ha
      exact ⟨path, hpath, by rw [lastGiven?_concat, hnone, Option.none_or, hlast]⟩
    | ok t =>
      rw [perform_eq ha] at hg
      rcases hsound.bucket_before ha hg hk with
        ⟨owner, o, rfl, ho, hpath⟩ | ⟨f, hf, hkind, hpath, hdata⟩
      · exact ⟨o.path, hpath, by rw [lastGiven?_concat, gives?_openSlot ho, Option.some_or]⟩
      · obtain ⟨path, hfpath, hlast⟩ := ih id f ns slot hf (hkind.trans hk)
        refine ⟨path, hpath.symm.trans hfpath, ?_⟩
        rw [lastGiven?_concat]
        cases hgives : (new.run ops).gives? path ns slot op with
        | none => rw [Option.none_or, hlast, hdata]
        | some v =>
          -- what was opened is the frame at the slot's address, and that is this one
          obtain ⟨owner, o, rfl, ho, rfl⟩ := gives?_eq_some hgives
          obtain ⟨⟨i, t'⟩, hopen, rfl⟩ := Except.map_eq_ok.1 ha
          obtain ⟨o', x, ho', hx, -, hxpath, hxdata⟩ := hsound.becomes_of_openSlot hopen
          obtain rfl : o = o' := Option.some.inj (ho.symm.trans ho')
          have ht : t'.Sound := hsound.effect (hsound.effect_of_attempt ha)
          have hsame : i = id :=
            ht.eq_of_path hx.frame hg (hxpath.trans (hfpath.symm.trans hpath))
          subst hsame
          obtain rfl : x = g := Option.some.inj (hx.frame.symm.trans hg)
          rw [Option.some_or, hxdata]

end Store

namespace Handle

/-- What an operation of a handle asks of its store. A write at a path into a slot asks nothing. -/
def Operation.inner? : Operation → Option Store.Operation
  | .subscribe => none
  | .ask op => some op
  | .writePath scope path v =>
    if path.slot.isSome then none else some (.write scope path.ns path.keys v)

variable {h : Handle} {op : Operation}

/-- A write of the handle makes of its store what the write makes of it. -/
theorem store_of_request {r : Request} (hr : op.request? = some r) :
    (h.perform op).store = h.store.perform (.write r.scope r.ns r.keys r.value) := by
  unfold perform Store.perform
  rw [attempt_of_request hr, write_eq, Store.attempt]
  cases h.store.write r.scope r.ns r.keys r.value with
  | ok e => rfl
  | error e => rfl

/-- The store after an operation of the handle. -/
theorem perform_store (h : Handle) (op : Operation) :
    (h.perform op).store = h.store.run op.inner?.toList := by
  cases op with
  | subscribe => rfl
  | ask op =>
    cases hr : (Operation.ask op).request? with
    | some r =>
      cases op with
      | write scope ns keys v =>
        have hwritten := store_of_request (h := h) hr
        cases hr
        exact hwritten
      | _ => cases hr
    | none =>
      change (h.perform (.ask op)).store = h.store.perform op
      unfold perform Store.perform
      rw [attempt_ask hr]
      cases h.store.attempt op with
      | ok s => rfl
      | error e => rfl
  | writePath scope path v =>
    by_cases hslot : path.slot.isSome
    · have hnone : h.attempt (.writePath scope path v) = .error (.invalidPath path.text) :=
        if_pos hslot
      rw [perform_of_error hnone, Operation.inner?, if_pos hslot]
      rfl
    · have hrequest : (Operation.writePath scope path v).request? =
          some ⟨scope, path.ns, path.keys, v⟩ :=
        if_neg hslot
      rw [store_of_request hrequest, Operation.inner?, if_neg hslot]
      rfl

/-- The store after operations of the handle. -/
theorem run_store (ops : List Operation) :
    ∀ h : Handle, (h.run ops).store = h.store.run (ops.filterMap Operation.inner?) := by
  induction ops with
  | nil => exact fun _ => rfl
  | cons op ops ih =>
    intro h
    have hcons : (op :: ops).filterMap Operation.inner? =
        op.inner?.toList ++ ops.filterMap Operation.inner? := by
      cases hop : op.inner? with
      | none => rw [List.filterMap_cons_none hop]; rfl
      | some o => rw [List.filterMap_cons_some hop]; rfl
    change ((h.perform op).run ops).store = _
    rw [ih, perform_store, hcons, Store.run_append]

/-- **The frames of slots** hold what the slots were given last, whatever is asked of the handle. -/
theorem run_given (ops : List Operation) :
    (new.run ops).store.Given (ops.filterMap Operation.inner?) := by
  rw [run_store]
  exact Store.run_given _

/-- What is asked for and is no opening and no pass spares the frames of slots. -/
theorem sameBuckets_perform (h : Handle) (hop : ∀ o, op.inner? = some o → o.assigns) :
    h.store.SameBuckets (h.perform op).store := by
  rw [perform_store]
  cases ho : op.inner? with
  | none => exact .refl _
  | some o =>
    change h.store.SameBuckets (h.store.perform o)
    cases ha : h.store.attempt o with
    | error e =>
      rw [Store.perform_of_error ha]
      exact .refl _
    | ok t =>
      rw [Store.perform_eq ha]
      exact Store.sameBuckets_of_assigns ha (hop o ho)

end Handle

end Trellis
