import Trellis.Proofs.Scope.Sight

/-!
# Writes that succeed

What a write that succeeds found and did: the nearest frame of its namespace, whose data it replaced
in one place, and what its subscribers were told.

* `Handle.Wrote`: all of it.
* `Handle.wrote_of_write`, `Handle.write_ok_of_replace`: which writes succeed.
* `Handle.write_rewritten`: what a write makes of the namespaces that a scope sees, from the data of
  its own namespace alone.
-/

namespace Trellis

namespace Store

variable {s : Store} {scope id : ScopeId} {f : Frame} {ns : String}

theorem nearest?_of_space {x : ScopeId × Frame} (h : s.space scope ns = .ok x) :
    s.nearest? scope (.space ns) = .ok (some x) := by
  unfold space at h
  cases hn : s.nearest? scope (.space ns) with
  | error e => rw [hn] at h; cases h
  | ok found =>
    rw [hn] at h
    cases found with
    | none => cases h
    | some x => cases h; rfl

/-- The nearest frame of a namespace is live, and is one of that namespace. -/
theorem frame?_of_space (h : s.space scope ns = .ok (id, f)) :
    s.frame? id = some f ∧ f.kind = .space ns := by
  obtain ⟨hmem, hk⟩ := mem_of_nearest? (nearest?_of_space h)
  exact ⟨frame?_of_mem_chainFrom hmem, hk⟩

/-- **The nearest frame** of a kind is found where it was when a frame is given other data. -/
theorem nearest?_modify {j : ScopeId} {g : Frame → Frame} (hparent : ∀ f, (g f).parent = f.parent)
    (hkind : ∀ f, (g f).kind = f.kind) (kind : FrameKind) :
    (s.modify j g).nearest? scope kind =
      (s.nearest? scope kind).map (Option.map fun e => (e.1, changed j g e.1 e.2)) := by
  have hchain : (s.modify j g).chain scope =
      ((s.chain scope).1.map fun e => (e.1, changed j g e.1 e.2), (s.chain scope).2) := by
    rw [modify_eq]
    refine chainFrom_mapFrames fun i f => ?_
    unfold changed
    split
    · exact hparent f
    · rfl
  have hsame : ((fun e : ScopeId × Frame => decide (e.2.kind = kind)) ∘
      fun e : ScopeId × Frame => (e.1, changed j g e.1 e.2)) = fun e => decide (e.2.kind = kind) := by
    funext e
    simp only [Function.comp, changed]
    split
    · rw [hkind]
    · rfl
  unfold nearest?
  rw [hchain]
  simp only [List.find?_map, hsame]
  cases (s.chain scope).1.find? fun e => decide (e.2.kind = kind) with
  | some x => rfl
  | none =>
    simp only [Option.map_none]
    split <;> rfl

/-- **A namespace** is found where it was when a frame is given other data. -/
theorem space_modify {j : ScopeId} {g : Frame → Frame} (hparent : ∀ f, (g f).parent = f.parent)
    (hkind : ∀ f, (g f).kind = f.kind) (h : s.space scope ns = .ok (id, f)) :
    (s.modify j g).space scope ns = .ok (id, changed j g id f) := by
  unfold space at h ⊢
  rw [nearest?_modify hparent hkind]
  cases hn : s.nearest? scope (.space ns) with
  | error e => rw [hn] at h; cases h
  | ok found =>
    rw [hn] at h
    cases found with
    | none => cases h
    | some x =>
      cases h
      rfl

/-- **New data** of a namespace is seen in it, and in no other. -/
theorem spaceData?_modify (h : s.nearest? scope (.space ns) = .ok (some (id, f))) (data : Value)
    (ns' : String) :
    (s.modify id fun f => { f with data := data }).spaceData? scope ns' =
      if ns' = ns then .ok (some data) else s.spaceData? scope ns' := by
  unfold spaceData?
  rw [nearest?_modify (g := fun f => { f with data := data }) (fun _ => rfl) (fun _ => rfl)]
  split
  · next hns =>
    subst hns
    rw [h]
    change Except.ok (some (changed id _ id f).data) = _
    rw [changed, if_pos rfl]
  · next hns =>
    cases hn : s.nearest? scope (.space ns') with
    | error e => rfl
    | ok found =>
      cases found with
      | none => rfl
      | some x =>
        -- the frame of another namespace is another frame
        have hid : x.1 ≠ id := by
          rintro rfl
          obtain ⟨hx, hkx⟩ := mem_of_nearest? hn
          obtain ⟨hf, hkf⟩ := mem_of_nearest? h
          have hlive : s.frame? x.1 = some f := frame?_of_mem_chainFrom hf
          rw [frame?_of_mem_chainFrom hx] at hlive
          cases hlive
          exact hns (FrameKind.space.inj (hkx.symm.trans hkf))
        change Except.ok (some (changed id _ x.1 x.2).data) = _
        rw [changed, if_neg hid]
        rfl

end Store

namespace Handle

variable {h h' : Handle} {scope : ScopeId} {ns : String} {keys : List String} {v : Value}

/-- The frame that a write found, the data it gave it, and what it left. -/
structure Wrote (h : Handle) (scope : ScopeId) (ns : String) (keys : List String) (v : Value)
    (id : ScopeId) (f : Frame) (data : Value) (h' : Handle) : Prop where
  below : keys ≠ []
  space : h.store.space scope ns = .ok (id, f)
  replaced : f.data.replace keys v = .ok data
  after : h' = notify
    { h with
      store := h.store.modify id fun f => { f with data := data }
      revision := h.revision + 1 }
    ⟨scope, Store.memberAddress f ns keys, v, h.revision + 1⟩

theorem Wrote.store {id : ScopeId} {f : Frame} {data : Value}
    (hw : h.Wrote scope ns keys v id f data h') :
    h'.store = h.store.modify id fun f => { f with data := data } := by
  rw [hw.after]
  rfl

/-- What the write left in the frame. -/
theorem Wrote.frame {id : ScopeId} {f : Frame} {data : Value}
    (hw : h.Wrote scope ns keys v id f data h') :
    h'.store.frame? id = some { f with data := data } := by
  rw [hw.store, Store.frame?_modify_self, (Store.frame?_of_space hw.space).1]
  rfl

/-- The one subscriber is told of it. -/
theorem Wrote.told {id : ScopeId} {f : Frame} {data : Value}
    (hw : h.Wrote scope ns keys v id f data h') (hone : h.subscribers = 1) :
    h'.subscribers = 1 ∧ h'.deliveries = h.deliveries ++
      [⟨0, ⟨scope, Store.memberAddress f ns keys, v, h.revision + 1⟩, h'.store⟩] := by
  rw [hw.after]
  unfold notify
  simp only [hone]
  exact ⟨trivial, rfl⟩

/-- **A write that succeeds** found a frame and replaced what was below it. -/
theorem wrote_of_write (hw : h.write scope ns keys v = .ok h') :
    ∃ id f data, h.Wrote scope ns keys v id f data h' := by
  unfold write Store.write at hw
  by_cases hk : keys = []
  · subst hk
    cases hw
  rw [if_neg (by simpa using hk)] at hw
  obtain ⟨_, hstore, hw⟩ := Except.bind_eq_ok.1 hw
  obtain ⟨⟨id, f⟩, hs, hstore⟩ := Except.bind_eq_ok.1 hstore
  cases hr : f.data.replace keys v with
  | error e =>
    simp only [hr] at hstore
    cases hstore
  | ok data =>
    simp only [hr] at hstore
    cases hstore
    cases hw
    exact ⟨id, f, data, hk, hs, hr, rfl⟩

/-- **A write succeeds** if its frame is there and has a place for the value. -/
theorem write_ok_of_replace {id : ScopeId} {f : Frame} {data : Value} (hk : keys ≠ [])
    (hs : h.store.space scope ns = .ok (id, f)) (hr : f.data.replace keys v = .ok data) :
    ∃ h', h.write scope ns keys v = .ok h' := by
  unfold write Store.write
  rw [if_neg (by simpa using hk), hs]
  simp only [bind, Except.bind, hr]
  exact ⟨_, rfl⟩

/-- The data a write gives a namespace, from what is found there. -/
def rewritten (found : Except Fault (Option Value)) (ns : String) (keys : List String)
    (v : Value) : Except Fault Value :=
  if keys.isEmpty then .error (.wrongType ("cannot reassign namespace `" ++ ns ++ "`"))
  else found >>= fun
    | none => .error (.namespaceMissing ns)
    | some data => (data.replace keys v).mapError (Store.writeFault ns)

/-- **A write** looks at the data of its namespace, and changes it alone. -/
theorem write_rewritten (h : Handle) (scope : ScopeId) (ns : String) (keys : List String)
    (v : Value) :
    SameOutcome (fun h' data => ∀ ns', h'.store.spaceData? scope ns' =
        if ns' = ns then .ok (some data) else h.store.spaceData? scope ns')
      (h.write scope ns keys v) (rewritten (h.store.spaceData? scope ns) ns keys v) := by
  unfold rewritten
  split
  · next hk =>
    unfold write Store.write
    rw [if_pos hk]
    rfl
  · next hk =>
    unfold write Store.write Store.space Store.spaceData?
    rw [if_neg hk]
    cases hn : h.store.nearest? scope (.space ns) with
    | error e => rfl
    | ok found =>
      cases found with
      | none => rfl
      | some x =>
        simp only [bind, Except.bind, pure, Except.pure, Option.map_some]
        cases x.2.data.replace keys v with
        | error e => rfl
        | ok data => exact Store.spaceData?_modify hn data

/-- Related data is rewritten alike. -/
theorem rewritten_alike {F : Callable → Callable → Prop} {found found' : Except Fault (Option Value)}
    (h : SameOutcome (Option.Rel (Value.Alike F)) found found') (ns : String) (keys : List String)
    {v v' : Value} (hv : Value.Alike F v v') :
    SameOutcome (Value.Alike F) (rewritten found ns keys v) (rewritten found' ns keys v') := by
  unfold rewritten
  split
  · rfl
  refine h.bind fun data data' hdata => ?_
  cases hdata with
  | none => rfl
  | some hdata =>
    rename_i d d'
    have hr := Value.Alike.replace hv keys hdata
    simp only
    revert hr
    cases d.replace keys v <;> cases d'.replace keys v' <;> intro hr
    · exact congrArg (Store.writeFault ns) hr
    · exact hr.elim
    · exact hr.elim
    · exact hr

/-- A write at a path is one in a namespace, unless the path leads into a slot. -/
theorem writePath_eq {path : Path} (hw : h.writePath scope path v = .ok h') (k : Handle) :
    k.writePath scope path v = k.write scope path.ns path.keys v := by
  unfold writePath at hw ⊢
  split at hw
  · cases hw
  · next hslot => rw [if_neg hslot]

/-- A write at a path is one in a namespace. -/
theorem write_of_writePath {path : Path} (hw : h.writePath scope path v = .ok h') :
    h.write scope path.ns path.keys v = .ok h' := by
  unfold writePath at hw
  split at hw
  · cases hw
  · exact hw

end Handle

end Trellis
