import Trellis.Proofs.Scope.Visibility

/-!
# Released scopes

A pass drops the frames it did not touch, and a number that was given to one of them is not given
again. So a scope whose frame was dropped stays released, whatever is asked of the store from then
on and whatever is opened at its old address: all that is asked of it fails, and nothing changes.

* `Store.Gone`: all that is asked of a scope fails; `Store.Sound.gone`: of one that is not live.
* `Store.Sweeps`: finishing a pass drops a frame; `Store.Sweeps.frame?_run`: it stays dropped.
* `Handle.write_gone`, `Handle.writePath_gone`: writes that tell nobody.
-/

namespace Trellis

namespace Store

variable {s t : Store} {op : Operation} {id : ScopeId}

/-! ### All that is asked fails -/

theorem nearest?_of_none (h : s.frame? id = none) (kind : FrameKind) :
    s.nearest? id kind = .error .released := by
  unfold nearest? chain
  rw [chainFrom_none h]
  rfl

theorem space_of_none (h : s.frame? id = none) (ns : String) : s.space id ns = .error .released := by
  unfold space
  rw [nearest?_of_none h]
  rfl

theorem slotFrame_of_none (h : s.frame? id = none) (ns slot : String) :
    s.slotFrame id ns slot = .error .released := by
  unfold slotFrame
  rw [nearest?_of_none h]
  rfl

theorem openFrame_of_none (h : s.frame? id = none) (segment : String) (kind : FrameKind) :
    s.openFrame id segment kind = .error .released := by
  unfold Store.openFrame
  rw [h]

theorem get_of_none (h : s.frame? id = none) (path : Path) : s.get id path = .error .released := by
  unfold Store.get
  cases path.slot with
  | none => simp only [space_of_none h]; rfl
  | some slot => simp only [slotFrame_of_none h]; rfl

theorem spaceData?_of_none (h : s.frame? id = none) (ns : String) :
    s.spaceData? id ns = .error .released := by
  unfold Store.spaceData?
  rw [nearest?_of_none h]
  rfl

theorem openSlot_of_none (h : s.frame? id = none) (ns slot : String) (given : Value) :
    s.openSlot id ns slot given = .error .released := by
  unfold Store.openSlot
  rw [openFrame_of_none h]
  rfl

theorem addData_of_none (h : s.frame? id = none) (ns : String) (members : Members Value) :
    s.addData id ns members = .error .released := by
  unfold Store.addData
  rw [space_of_none h]
  rfl

theorem setLoop_of_none (h : s.frame? id = none) (binding : Value) :
    s.setLoop id binding = .error .released := by
  unfold Store.setLoop
  rw [h]

/-- The fault of a write from a scope that is released: the keys are looked at first. -/
def lateWrite (ns : String) (keys : List String) : Fault :=
  if keys.isEmpty then .wrongType ("cannot reassign namespace `" ++ ns ++ "`") else .released

theorem write_of_none (h : s.frame? id = none) (ns : String) (keys : List String) (v : Value) :
    s.write id ns keys v = .error (lateWrite ns keys) := by
  unfold Store.write lateWrite
  split
  · rfl
  · rw [space_of_none h]
    rfl

/-- **An operation** that is given a scope that is released fails. -/
theorem attempt_of_none (h : s.frame? id = none) (hop : op.scope? = some id) :
    ∃ e, s.attempt op = .error e := by
  cases op with
  | openSpace parent segment ns =>
    cases hop
    exact ⟨_, congrArg (Except.map Prod.snd) (openFrame_of_none h segment (.space ns))⟩
  | openSlot owner ns slot given =>
    cases hop
    exact ⟨_, congrArg (Except.map Prod.snd) (openSlot_of_none h ns slot given)⟩
  | addData scope ns members =>
    cases hop
    exact ⟨_, addData_of_none h ns members⟩
  | setLoop scope binding =>
    cases hop
    exact ⟨_, setLoop_of_none h binding⟩
  | write scope ns keys v =>
    cases hop
    exact ⟨_, congrArg (Except.map Prod.snd) (write_of_none h ns keys v)⟩
  | beginPass => cases hop
  | finishPass => cases hop

/-- **A scope that is gone**: no frame has its number, so it is at no address; what is asked of it
fails; and an operation that is given it leaves the store as it was. -/
structure Gone (s : Store) (id : ScopeId) : Prop where
  frame : s.frame? id = none
  path : s.pathOf? id = none
  address : ∀ path, s.scopeAt? path ≠ some id
  get : ∀ path, s.get id path = .error .released
  spaceData? : ∀ ns, s.spaceData? id ns = .error .released
  openSpace : ∀ segment ns, s.openSpace id segment ns = .error .released
  openSlot : ∀ ns slot given, s.openSlot id ns slot given = .error .released
  addData : ∀ ns members, s.addData id ns members = .error .released
  setLoop : ∀ binding, s.setLoop id binding = .error .released
  write : ∀ ns keys v, s.write id ns keys v = .error (lateWrite ns keys)
  perform : ∀ op, op.scope? = some id → s.perform op = s

/-- **What is not live** is gone. -/
theorem Sound.gone (hs : s.Sound) (h : s.frame? id = none) : s.Gone id where
  frame := h
  path := by
    unfold pathOf?
    rw [h]
    rfl
  address path hpath := by
    obtain ⟨f, hf, -⟩ := hs.live path id hpath
    cases h.symm.trans hf
  get := get_of_none h
  spaceData? := spaceData?_of_none h
  openSpace segment ns := openFrame_of_none h segment (.space ns)
  openSlot := openSlot_of_none h
  addData := addData_of_none h
  setLoop := setLoop_of_none h
  write := write_of_none h
  perform op hop := by
    obtain ⟨e, he⟩ := attempt_of_none h hop
    exact perform_of_error he

/-! ### Dropped for good -/

/-- A frame is live, and finishing the pass drops it. -/
structure Sweeps (s : Store) (id : ScopeId) : Prop where
  live : (s.frame? id).isSome
  dropped : s.finishPass.2.frame? id = none

/-- **A frame that was dropped** is not there after anything that was asked since. -/
theorem Sweeps.frame?_run {before : List Operation} (h : (new.run before).Sweeps id)
    (after : List Operation) : (new.run (before ++ .finishPass :: after)).frame? id = none := by
  have hs := (run_consistent before).toSound
  obtain ⟨f, hf⟩ := Option.isSome_iff_exists.1 h.live
  -- its number was given, so it is not given again
  have hgiven : id < (new.run before).finishPass.2.nextId := hs.fresh id f hf
  rw [run_append]
  exact (hs.finishPass.later_run after).gone h.dropped hgiven

theorem Sweeps.gone {before : List Operation} (h : (new.run before).Sweeps id)
    (after : List Operation) : (new.run (before ++ .finishPass :: after)).Gone id :=
  (run_consistent _).toSound.gone (h.frame?_run after)

end Store

namespace Handle

variable {h : Handle} {id : ScopeId}

/-- Writes from a scope that is gone fail, so nobody is told of them. -/
theorem write_gone (hgone : h.store.Gone id) (ns : String) (keys : List String) (v : Value) :
    h.write id ns keys v = .error (Store.lateWrite ns keys) :=
  write_error (hgone.write ns keys v)

/-- So do writes at paths; whether the path leads into a slot is looked at first. -/
theorem writePath_gone (hgone : h.store.Gone id) (path : Path) (v : Value) :
    h.writePath id path v = .error
      (if path.slot.isSome then .invalidPath path.text else Store.lateWrite path.ns path.keys) := by
  unfold writePath
  split
  · rfl
  · exact write_gone hgone path.ns path.keys v

end Handle

end Trellis
