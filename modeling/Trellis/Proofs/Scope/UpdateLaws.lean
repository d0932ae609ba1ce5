import Trellis.Proofs.Scope.Visibility
import Trellis.Proofs.Value.Around

/-!
# Writing and reading

How reads of a namespace come out after a write to it, whatever keys they are at: what was written
is read at the keys of the write and below, all that lies beside is read as before, and what encloses
the written member keeps its places. A write that fails leaves everything as it was, and it fails for
want of a frame or of a place in its data.

* `Store.Updated`: what a write that succeeded did; `Store.updated_of_write`.
* `Store.space_error_iff`, `Store.write_error_iff`: which writes fail, and how.
* `Store.write_laws`: all of it.
-/

namespace Trellis

namespace Store

variable {s t : Store} {scope id : ScopeId} {f : Frame} {ns : String} {keys : List String}
  {v data : Value} {e : Fault}

/-! ### Reads of a namespace -/

theorem get_of_space (h : s.space scope ns = .ok (id, f)) (keys : List String) :
    s.get scope ⟨ns, none, keys⟩ = (f.data.at? keys).mapError (.keyMissing ns) := by
  unfold Store.get
  simp only [h, bind, Except.bind]
  cases f.data.at? keys <;> rfl

/-- **A namespace is not found** if no frame around the scope is of it. -/
theorem space_error_iff : s.space scope ns = .error e ↔
    (∀ x ∈ (s.chain scope).1, x.2.kind ≠ .space ns) ∧
      e = if (s.chain scope).2 then .namespaceMissing ns else .released := by
  cases hfound : (s.chain scope).1.find? fun x => x.2.kind = .space ns with
  | some x =>
    have hspace : s.space scope ns = .ok x := by
      unfold space nearest?
      simp only [hfound]
      rfl
    have hkind : x.2.kind = .space ns := by simpa using List.find?_some hfound
    rw [hspace]
    exact ⟨nofun, fun h => absurd hkind (h.1 x (List.mem_of_find?_eq_some hfound))⟩
  | none =>
    have hnone : ∀ x ∈ (s.chain scope).1, x.2.kind ≠ .space ns := by
      simpa using List.find?_eq_none.1 hfound
    have hspace : s.space scope ns =
        .error (if (s.chain scope).2 then .namespaceMissing ns else .released) := by
      unfold space nearest?
      simp only [hfound]
      split <;> rfl
    rw [hspace, Except.error.injEq, eq_comm]
    exact ⟨fun h => ⟨hnone, h⟩, fun h => h.2⟩

/-! ### Writes that succeed -/

/-- **A write that succeeded**: it found the frame `f` and gave it the data `data`, and changed
nothing else. Reads of its namespace from its scope are settled by how their keys compare with
those that were written at. -/
structure Updated (s t : Store) (scope : ScopeId) (ns : String) (keys : List String) (v : Value)
    (id : ScopeId) (f : Frame) (data : Value) : Prop where
  found : s.space scope ns = .ok (id, f)
  frames : s.Becomes t id { f with data := data }
  index : t.addresses = s.addresses
  counters : t.nextId = s.nextId ∧ t.epoch = s.epoch
  written : ∀ more, t.get scope ⟨ns, none, keys ++ more⟩ = (v.at? more).mapError (.keyMissing ns)
  below : ∀ keys' more, f.data.SameWay keys keys' →
    t.get scope ⟨ns, none, keys' ++ more⟩ = (v.at? more).mapError (.keyMissing ns)
  beside : ∀ keys', f.data.Parted keys keys' →
    t.get scope ⟨ns, none, keys'⟩ = s.get scope ⟨ns, none, keys'⟩
  above : ∀ above key rest above', keys = above ++ key :: rest → f.data.SameWay above above' →
    ∃ old new, s.get scope ⟨ns, none, above'⟩ = .ok old ∧
      t.get scope ⟨ns, none, above'⟩ = .ok new ∧ old.replace (key :: rest) v = .ok new ∧
      Value.KeepsPlaces key old new
  every : ∀ keys', (∃ way more, keys' = way ++ more ∧ f.data.SameWay keys way) ∨
    f.data.Parted keys keys' ∨
      ∃ above rest, keys = above ++ rest ∧ rest ≠ [] ∧ f.data.SameWay above keys'

theorem updated_of_write {path : String} (h : s.write scope ns keys v = .ok (path, t)) :
    ∃ id f data, s.Updated t scope ns keys v id f data := by
  obtain ⟨id, f, data, hs, hr, rfl⟩ := write_eq_ok h
  have hf := (frame?_of_space hs).1
  -- the namespace is found where it was, with its new data
  have hs' : (s.modify id fun f => { f with data := data }).space scope ns =
      .ok (id, { f with data := data }) := by
    rw [space_modify (g := fun f => { f with data := data }) (fun _ => rfl) (fun _ => rfl) hs,
      changed, if_pos rfl]
  have hbelow : ∀ keys' more, f.data.SameWay keys keys' →
      (s.modify id fun f => { f with data := data }).get scope ⟨ns, none, keys' ++ more⟩ =
        (v.at? more).mapError (.keyMissing ns) := by
    intro keys' more hway
    rw [get_of_space hs', hway.at?_below hr]
  refine ⟨id, f, data, hs, .of_modify hf _, rfl, ⟨rfl, rfl⟩,
    fun more => hbelow keys more (Value.sameWay_self hr), hbelow, fun keys' hparted => ?_, ?_,
    Value.sameWay_or_parted hr⟩
  · rw [get_of_space hs', get_of_space hs, hparted.at?_eq hr]
  · rintro above key rest above' rfl hway
    obtain ⟨old, new, hold, hnew, hreplaced⟩ := hway.at?_above (List.cons_ne_nil key rest) hr
    refine ⟨old, new, ?_, ?_, hreplaced, Value.keepsPlaces_of_replace hreplaced⟩
    · rw [get_of_space hs, hold]
      rfl
    · rw [get_of_space hs', hnew]
      rfl

/-! ### Writes that fail -/

/-- A write to a namespace that is found depends on there being a place. -/
theorem write_of_space (hkeys : keys ≠ []) (h : s.space scope ns = .ok (id, f)) (v : Value) :
    s.write scope ns keys v =
      match f.data.replace keys v with
      | .ok data => .ok (memberAddress f ns keys, s.modify id fun f => { f with data := data })
      | .error m => .error (writeFault ns m) := by
  unfold Store.write
  rw [if_neg (by simpa using hkeys), h]
  rfl

/-- **A write fails** if its namespace is not found, or if there is no place for the value. -/
theorem write_error_iff (hkeys : keys ≠ []) : s.write scope ns keys v = .error e ↔
    s.space scope ns = .error e ∨ ∃ id f m, s.space scope ns = .ok (id, f) ∧
      f.data.Placeless keys m ∧ e = writeFault ns m := by
  cases hs : s.space scope ns with
  | error e' =>
    have hw : s.write scope ns keys v = .error e' := by
      unfold Store.write
      rw [if_neg (by simpa using hkeys), hs]
      rfl
    rw [hw]
    simp
  | ok x =>
    obtain ⟨id, f⟩ := x
    rw [write_of_space hkeys hs]
    constructor
    · intro h
      split at h
      · cases h
      · next m hr =>
        cases h
        exact .inr ⟨id, f, m, rfl, Value.replace_error_iff.1 hr, rfl⟩
    · rintro (h | ⟨_, _, m, heq, hplace, rfl⟩)
      · cases h
      · cases heq
        rw [Value.replace_error_iff.2 hplace]

/-! ### The laws -/

/-- **The update laws.** A write below a namespace that succeeds is read back as `Updated` says, and
touches one frame. One that fails leaves the store as it was, and it fails exactly if no frame around
the scope is of the namespace, or if there is no place for the value in the nearest one: a member on
the way is absent, the last container is an array without that place, or it is neither an array nor
an object. -/
theorem write_laws (s : Store) (scope : ScopeId) (ns : String) (keys : List String) (v : Value)
    (hkeys : keys ≠ []) :
    (∀ path t, s.write scope ns keys v = .ok (path, t) →
      ∃ id f data, s.Updated t scope ns keys v id f data) ∧
    (∀ e, s.write scope ns keys v = .error e ↔
      ((∀ x ∈ (s.chain scope).1, x.2.kind ≠ .space ns) ∧
        e = if (s.chain scope).2 then .namespaceMissing ns else .released) ∨
      ∃ id f m, s.space scope ns = .ok (id, f) ∧ f.data.Placeless keys m ∧ e = writeFault ns m) ∧
    ∀ e, s.write scope ns keys v = .error e → s.perform (.write scope ns keys v) = s := by
  refine ⟨fun path t h => updated_of_write h, fun e => ?_, fun e h => ?_⟩
  · rw [write_error_iff hkeys, space_error_iff]
  · exact perform_of_error (congrArg (Except.map Prod.snd) h)

/-- A namespace with a list of rows, the second of which has a lamp. -/
def shelf : Store :=
  new.run [.openSpace rootId "0:shelf" "shelf", .addData 1 "shelf"
    [("rows", .array [.null, .object [("lamp", .bool false)]])]]

/-- The lamp is read back, with the row spelled in another way as well, and the other row is as it
was. Another row is not written to. -/
theorem write_laws_shelf :
    ∃ path t, shelf.write 1 "shelf" ["rows", "1", "lamp"] (.bool true) = .ok (path, t) ∧
      t.get 1 ⟨"shelf", none, ["rows", "01", "lamp"]⟩ = .ok (.bool true) ∧
      t.get 1 ⟨"shelf", none, ["rows", "0"]⟩ = .ok .null ∧
      shelf.write 1 "shelf" ["rows", "2"] .null = .error (.keyMissing "shelf" "2") := by
  obtain ⟨hok, -, -⟩ := write_laws shelf 1 "shelf" ["rows", "1", "lamp"] (.bool true) nofun
  obtain ⟨-, hfails, -⟩ := write_laws shelf 1 "shelf" ["rows", "2"] .null nofun
  obtain ⟨id, f, data, h⟩ := hok _ _ rfl
  have hf : (1, ⟨"/0:shelf", some 0, .space "shelf",
      .object [("rows", .array [.null, .object [("lamp", .bool false)]])], 0⟩) = (id, f) :=
    Except.ok.inj h.found
  cases hf
  refine ⟨_, _, rfl, ?_, ?_, ?_⟩
  · exact h.below ["rows", "01", "lamp"] []
      (.step rfl rfl (.step ⟨1, rfl, rfl⟩ rfl (.last rfl)))
  · have hother : Number.index? "1" ≠ Number.index? "0" := by decide
    refine (h.beside ["rows", "0"] (.later rfl rfl (.here ?_))).trans rfl
    rintro ⟨i, hi, hi'⟩
    exact hother (hi.trans hi'.symm)
  · have hplace : ∀ i, Number.index? "2" = some i → 2 ≤ i := by
      rintro i ⟨⟩
      decide
    exact (hfails _).2 (.inr ⟨_, _, _, rfl, .outside ["rows"] rfl hplace, rfl⟩)

end Store

end Trellis
