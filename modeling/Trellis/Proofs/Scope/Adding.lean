import Trellis.Proofs.Scope.UpdateLaws
import Trellis.Proofs.Scope.WellFormed

/-!
# Adding data

Members are added to the bucket of a namespace as they would be assigned to it one by one. So adding
acts on the stores that operations lead to: adding members and then others is adding the former
extended by the latter, adding none changes nothing, and adding the same ones again changes nothing
more. What was added is read back at its names, and nothing else is read in another way.

* `Frame.extend_extend`: adding twice to one frame.
* `Store.get_modify`: what is read where a frame was given other data.
* `Store.Added`: what adding comes to; `Store.added_of_addData`.
* `Store.addData_acts`: the laws.
-/

namespace Trellis

/-- Adding twice to one frame, whatever it holds. -/
theorem Frame.extend_extend {m : Members Value} (hm : m.Distinct) (n : Members Value) (f : Frame) :
    (f.extend m).extend n = f.extend (m.extend n) := by
  cases hf : f.data with
  | object old =>
    rw [Store.extend_object hf, Store.extend_object hf, Store.extend_object rfl,
      Members.extend_extend n hm]
  | _ =>
    have hnew : ∀ k, f.extend k = { f with data := .object k } := fun k => by
      unfold Frame.extend
      rw [hf]
    rw [hnew, hnew, Store.extend_object rfl]

/-- What the frame stands for that a path is read in. -/
def Path.kind (path : Path) : FrameKind :=
  match path.slot with
  | none => .space path.ns
  | some slot => .slot path.ns slot

namespace Store

variable {s t : Store} {scope id : ScopeId} {f : Frame} {ns : String} {m n : Members Value}
  {e : Fault}

/-- A change of a live frame depends on what becomes of that frame. -/
theorem Sound.modify_congr (h : s.Sound) (hf : s.frame? id = some f) {g g' : Frame → Frame}
    (hg : g f = g' f) : s.modify id g = s.modify id g' := by
  obtain ⟨l₁, l₂, hl, -⟩ := List.lookup_eq_some_iff.1 hf
  have hids := h.ids
  rw [hl] at hids
  rw [modify_eq, modify_eq]
  unfold Store.mapFrames
  rw [hl, map_changed_append g hids, map_changed_append g' hids, hg]

/-- **A frame with other data** is found wherever it was, and reads that find another one come to
what they came to. -/
theorem get_modify {g : Frame → Frame} (hparent : ∀ f, (g f).parent = f.parent)
    (hkind : ∀ f, (g f).kind = f.kind) {path : Path}
    (hother : ∀ f, s.nearest? scope path.kind ≠ .ok (some (id, f))) :
    (s.modify id g).get scope path = s.get scope path := by
  have hsame : (s.modify id g).nearest? scope path.kind = s.nearest? scope path.kind := by
    rw [nearest?_modify hparent hkind]
    cases hfound : s.nearest? scope path.kind with
    | error e => rfl
    | ok found =>
      cases found with
      | none => rfl
      | some x =>
        have hx : x.1 ≠ id := by
          rintro rfl
          exact hother x.2 hfound
        exact congrArg (fun f => Except.ok (some (x.1, f))) (if_neg hx)
  unfold Path.kind at hsame
  unfold get
  cases hslot : path.slot with
  | none =>
    rw [hslot] at hsame
    simp only [space, hsame]
  | some slot =>
    rw [hslot] at hsame
    simp only [slotFrame, hsame]

/-! ### Adding once -/

theorem addData_of_space (h : s.space scope ns = .ok (id, f)) (m : Members Value) :
    s.addData scope ns m = .ok (s.modify id (Frame.extend · m)) := by
  unfold addData
  rw [h]
  rfl

theorem addData_of_error (h : s.space scope ns = .error e) (m : Members Value) :
    s.addData scope ns m = .error e := by
  unfold addData
  rw [h]
  rfl

theorem extend_parent (m : Members Value) (f : Frame) : (f.extend m).parent = f.parent := by
  unfold Frame.extend
  split <;> rfl

theorem extend_kind (m : Members Value) (f : Frame) : (f.extend m).kind = f.kind := by
  unfold Frame.extend
  split <;> rfl

/-- **What adding comes to**: the nearest frame of the namespace holds members, which are extended. From
every scope for which it is the nearest one the names that were given are read as they were given, and
the others as before; and all that is read in another frame is read as before. -/
structure Added (s t : Store) (scope : ScopeId) (ns : String) (m : Members Value) (id : ScopeId)
    (f : Frame) : Prop where
  found : s.space scope ns = .ok (id, f)
  bucket : ∃ old, f.data = .object old ∧
    s.Becomes t id { f with data := .object (Members.extend old m) }
  given : ∀ scope', s.space scope' ns = .ok (id, f) → ∀ key v, m.get? key = some v → ∀ rest,
    t.get scope' ⟨ns, none, key :: rest⟩ = (v.at? rest).mapError (.keyMissing ns)
  kept : ∀ scope', s.space scope' ns = .ok (id, f) → ∀ key, m.get? key = none → ∀ rest,
    t.get scope' ⟨ns, none, key :: rest⟩ = s.get scope' ⟨ns, none, key :: rest⟩
  others : ∀ scope' path, (path.slot = none → s.space scope' path.ns ≠ .ok (id, f)) →
    t.get scope' path = s.get scope' path

theorem Filled.added_of_addData (h : s.Filled) (hm : m.Distinct)
    (ha : s.addData scope ns m = .ok t) : ∃ id f, s.Added t scope ns m id f := by
  obtain ⟨id, f, hs, rfl⟩ := addData_eq_ok ha
  obtain ⟨hf, hk⟩ := frame?_of_space hs
  obtain ⟨old, hold⟩ := h.members id f hf ns hk
  have hextend := extend_object hold m
  have hbecomes := Becomes.of_modify hf (Frame.extend · m)
  rw [hextend] at hbecomes
  -- where the frame is the nearest one, it is so with the members it has now
  have hread : ∀ scope', s.space scope' ns = .ok (id, f) → ∀ keys,
      (s.modify id (Frame.extend · m)).get scope' ⟨ns, none, keys⟩ =
        ((Value.object (Members.extend old m)).at? keys).mapError (.keyMissing ns) := by
    intro scope' hs' keys
    have hspace := space_modify (j := id) (extend_parent m) (extend_kind m) hs'
    rw [changed, if_pos rfl, hextend] at hspace
    rw [get_of_space hspace]
  refine ⟨id, f, hs, ⟨old, hold, hbecomes⟩, ?_, ?_, ?_⟩
  · intro scope' hs' key v hv rest
    rw [hread scope' hs', Value.at?, Value.member?, Members.get?_extend_of_distinct hm, hv,
      Option.some_or]
  · intro scope' hs' key hnone rest
    rw [hread scope' hs', get_of_space hs', hold, Value.at?, Value.at?, Value.member?, Value.member?,
      Members.get?_extend_of_distinct hm, hnone, Option.none_or]
  · intro scope' path hother
    refine get_modify (extend_parent m) (extend_kind m) fun g hg => ?_
    obtain ⟨hmem, hkind⟩ := mem_of_nearest? hg
    rw [frame?_of_mem_chainFrom hmem] at hf
    obtain rfl := Option.some.inj hf
    -- a slot's frame is no frame of a namespace
    unfold Path.kind at hg hkind
    cases hslot : path.slot with
    | some slot =>
      rw [hslot] at hkind
      cases hk.symm.trans hkind
    | none =>
      rw [hslot] at hg
      refine hother hslot ?_
      unfold space
      rw [hg]
      rfl

/-! ### The laws -/

/-- **Adding acts on stores.** Whatever was asked of a new store before: adding members and then
others to a namespace leaves the store that adding the former extended by the latter does, or fails
as it does; adding the same members again leaves the store that adding them once does; adding none
leaves the store as it was. Adding that succeeds comes to what `Added` says. It fails exactly if no
frame around the scope is of the namespace, and then the store is as it was. -/
theorem addData_acts (hs : s.Reachable) (scope : ScopeId) (ns : String) {m : Members Value}
    (hm : m.Distinct) :
    (∀ n, (s.addData scope ns m >>= fun t => t.addData scope ns n) =
      s.addData scope ns (m.extend n)) ∧
    (s.addData scope ns m >>= fun t => t.addData scope ns m) = s.addData scope ns m ∧
    s.perform (.addData scope ns []) = s ∧
    (∀ t, s.addData scope ns m = .ok t → ∃ id f, s.Added t scope ns m id f) ∧
    (∀ e, s.addData scope ns m = .error e ↔
      (∀ x ∈ (s.chain scope).1, x.2.kind ≠ .space ns) ∧
        e = if (s.chain scope).2 then .namespaceMissing ns else .released) ∧
    ∀ e, s.addData scope ns m = .error e → s.perform (.addData scope ns m) = s := by
  obtain ⟨ops, rfl⟩ := hs
  have h := run_filled ops
  generalize new.run ops = s at h ⊢
  have hextended : ∀ n, (s.addData scope ns m >>= fun t => t.addData scope ns n) =
      s.addData scope ns (m.extend n) := by
    intro n
    cases hspace : s.space scope ns with
    | error e =>
      rw [addData_of_error hspace, addData_of_error hspace]
      rfl
    | ok x =>
      obtain ⟨id, f⟩ := x
      have hspace' := space_modify (j := id) (extend_parent m) (extend_kind m) hspace
      rw [addData_of_space hspace, addData_of_space hspace]
      change (s.modify id (Frame.extend · m)).addData scope ns n = _
      rw [addData_of_space hspace', modify_modify]
      simp only [Frame.extend_extend hm]
  refine ⟨hextended, ?_, ?_, fun t ht => h.added_of_addData hm ht, fun e => ?_, fun e he => ?_⟩
  · rw [hextended, Members.extend_of_known fun x hx => Members.get?_of_mem hm hx]
  · cases hspace : s.space scope ns with
    | error e => exact perform_of_error (addData_of_error hspace [])
    | ok x =>
      obtain ⟨id, f⟩ := x
      obtain ⟨hf, hk⟩ := frame?_of_space hspace
      obtain ⟨old, hold⟩ := h.members id f hf ns hk
      -- the frame holds members, so that none are put in the place of something else
      have hsame : f.extend [] = f := by
        rw [extend_object hold]
        change { f with data := .object old } = f
        rw [← hold]
      have hadd : s.attempt (.addData scope ns []) = .ok (s.modify id (Frame.extend · [])) :=
        addData_of_space hspace []
      have hmodify : s.modify id (Frame.extend · []) = s.modify id fun f => f :=
        h.toSound.modify_congr hf hsame
      rw [perform_eq hadd, hmodify, modify_self]
  · rw [← space_error_iff]
    constructor
    · intro ha
      cases hspace : s.space scope ns with
      | error e' =>
        rw [addData_of_error hspace] at ha
        cases ha
        rfl
      | ok x => rw [addData_of_space hspace] at ha; cases ha
    · exact fun hspace => addData_of_error hspace m
  · exact perform_of_error he

/-- Two namespaces of one name, the one inside the other, and another one beside the inner one. -/
def suite : Store :=
  new.run [.openSpace rootId "0:room" "room", .addData 1 "room" [("lamp", .bool false)],
    .openSpace 1 "0:room" "room", .addData 2 "room" [("lamp", .null), ("door", .null)],
    .openSpace 1 "1:hall" "hall"]

/-- What is added to the inner one is read in it, in the order of its members; the outer one is as it
was. -/
theorem addData_acts_suite :
    ∃ t, suite.addData 2 "room" [("mat", .bool true), ("lamp", .bool true)] = .ok t ∧
      t.get 2 ⟨"room", none, ["mat"]⟩ = .ok (.bool true) ∧
      t.get 2 ⟨"room", none, ["door"]⟩ = .ok .null ∧
      t.get 3 ⟨"room", none, ["lamp"]⟩ = .ok (.bool false) ∧
      t.get 2 ⟨"room", none, []⟩ =
        .ok (.object [("lamp", .bool true), ("door", .null), ("mat", .bool true)]) := by
  have hm : Members.Distinct [("mat", Value.bool true), ("lamp", .bool true)] := by
    unfold Members.Distinct
    decide
  obtain ⟨-, -, -, hadded, -, -⟩ := addData_acts (s := suite) ⟨_, rfl⟩ 2 "room" hm
  obtain ⟨t, ht⟩ : ∃ t, suite.addData 2 "room" [("mat", .bool true), ("lamp", .bool true)] = .ok t :=
    ⟨_, rfl⟩
  obtain ⟨id, f, h⟩ := hadded t ht
  have hinner : (suite.space 2 "room").map Prod.fst = .ok 2 := rfl
  rw [h.found] at hinner
  cases hinner
  -- from the hall the nearest room is the outer one
  have hhall : suite.space 3 "room" ≠ .ok (2, f) := by
    intro heq
    have houter : (suite.space 3 "room").map Prod.fst = .ok 1 := rfl
    rw [heq] at houter
    cases houter
  have hwhole : (suite.addData 2 "room" [("mat", .bool true), ("lamp", .bool true)] >>=
      fun t => t.get 2 ⟨"room", none, []⟩) =
        .ok (.object [("lamp", .bool true), ("door", .null), ("mat", .bool true)]) := rfl
  rw [ht] at hwhole
  exact ⟨t, ht, h.given 2 h.found "mat" _ rfl [], (h.kept 2 h.found "door" rfl []).trans rfl,
    (h.others 3 _ fun _ => hhall).trans rfl, hwhole⟩

end Store

end Trellis
