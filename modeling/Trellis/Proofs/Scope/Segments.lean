import Trellis.Proofs.Scope.Address
import Trellis.Proofs.Scope.Enclosing

/-!
# Addresses that are apart

The address of a frame begins with those of the frames that enclose it, so nothing is opened inside
a frame from inside one beside it unless the address of the one is the beginning of the other's.
Where segments are plain that does not happen.

* `Store.Apart`, `Store.FarApart`: addresses, and frames, neither of which begins with the other.
* `Store.Beside.not_located`: what is not opened from a scope.
* `Store.Operation.Plain`: plain segments; `Store.run_farApart`: with them all frames beside each
  other are apart.
-/

namespace Trellis

namespace Store

variable {s t : Store} {op : Operation} {id x y z scope p : ScopeId} {f g : Frame}

/-- Neither of two addresses is the beginning of the other, if a further segment is added. -/
def Apart (p q : String) : Prop :=
  ¬ (p ++ "/").toList <+: (q ++ "/").toList ∧ ¬ (q ++ "/").toList <+: (p ++ "/").toList

/-- The address of a frame is the beginning of those inside it. -/
theorem toList_path_prefix_address (f : Frame) (segment : String) :
    (f.path ++ "/").toList <+: (f.address segment ++ "/").toList := by
  unfold Frame.address
  simp only [String.toList_append, List.append_assoc]
  exact ⟨segment.toList ++ "/".toList, by simp⟩

/-- **The address** of what encloses a frame is the beginning of the frame's own. -/
theorem Consistent.prefix_of_encloses (hs : s.Consistent) (h : s.Encloses x z)
    (hf : s.frame? x = some f) (hg : s.frame? z = some g) :
    (f.path ++ "/").toList <+: (g.path ++ "/").toList := by
  induction z using hs.outwards generalizing g with
  | released z hnone => exact absurd h (not_encloses_of_none hnone)
  | outermost z g' hg' hp =>
    obtain rfl := (encloses_root_iff hg' hp).1 h
    rw [hf] at hg
    cases hg
    exact List.prefix_refl _
  | inside z g' p hg' hp ih =>
    obtain rfl : g = g' := Option.some.inj (hg.symm.trans hg')
    rcases (hs.encloses_iff hg hp).1 h with rfl | h
    · rw [hf] at hg
      cases hg
      exact List.prefix_refl _
    · cases ho : s.frame? p with
      | none => exact absurd h (not_encloses_of_none ho)
      | some o =>
        obtain ⟨segment, hsegment⟩ := hs.inside z g p o hg hp ho
        rw [hsegment]
        exact (ih h ho).trans (toList_path_prefix_address o segment)

/-- The addresses of two frames are apart. -/
def FarApart (s : Store) (x y : ScopeId) : Prop :=
  ∀ f g, s.frame? x = some f → s.frame? y = some g → Apart f.path g.path

/-- **An opening** is at no address inside a frame beside one that encloses the scope it is
performed from, if the addresses of the two are apart. -/
theorem Beside.not_located (h : s.Beside x y) (hs : s.Consistent) (hz : s.Encloses x z)
    (hscope : s.Encloses y scope) (hapart : s.FarApart x y) {outer : Frame}
    (houter : s.frame? scope = some outer) (hg : s.frame? z = some g) (segment : String) :
    g.path ≠ outer.address segment := by
  obtain ⟨-, -, f, f', hf, hf', -⟩ := h
  intro heq
  have hx := hs.prefix_of_encloses hz hf hg
  have hy := (hs.prefix_of_encloses hscope hf' houter).trans
    (toList_path_prefix_address outer segment)
  rw [← heq] at hy
  obtain ⟨hxy, hyx⟩ := hapart f f' hf hf'
  rcases List.prefix_or_prefix_of_prefix hx hy with hxy' | hyx'
  · exact hxy hxy'
  · exact hyx hyx'

/-! ### Plain segments -/

/-- A segment without a slash and without the mark of a slot, or that of a slot with no slash in
its names. -/
def PlainSegment (segment : String) : Prop :=
  ('/' ∉ segment.toList ∧ segment.toList.head? ≠ some '#') ∨
    ∃ ns slot, segment = (Step.slot ns slot).segment ∧ '/' ∉ ns.toList ∧ '/' ∉ slot.toList

/-- An operation that opens a frame at a plain segment, if it opens one. -/
def Operation.Plain (op : Operation) : Prop :=
  ∀ parent segment, op.place? = some (parent, segment) → PlainSegment segment

/-- Up to the first slash the beginning of a text is as the text. -/
theorem eq_of_prefix_delimiter {u v r r' : List Char} (hu : '/' ∉ u) (hv : '/' ∉ v)
    (h : u ++ '/' :: r <+: v ++ '/' :: r') : u = v ∧ r <+: r' := by
  obtain ⟨rest, hrest⟩ := h
  rw [List.append_assoc, List.cons_append] at hrest
  obtain ⟨huv, hr⟩ := append_delimiter_inj hu hv hrest
  exact ⟨huv, rest, hr⟩

/-- **Plain segments** are equal if the one is the beginning of the other, up to the slash. -/
theorem PlainSegment.eq_of_prefix {a b : String} (ha : PlainSegment a) (hb : PlainSegment b)
    (h : (a ++ "/").toList <+: (b ++ "/").toList) : a = b := by
  have hslash : ∀ c : String, (c ++ "/").toList = c.toList ++ ['/'] := fun c => String.toList_append
  rw [hslash, hslash] at h
  -- only the segments of slots begin with their mark
  have hmark : ∀ c : String, '/' ∉ c.toList ∧ c.toList.head? ≠ some '#' →
      (c.toList ++ ['/']).head? ≠ some '#' := by
    rintro c ⟨-, hc⟩
    cases hchars : c.toList with
    | nil => decide
    | cons x xs => rw [hchars] at hc; exact hc
  have hhead : (a.toList ++ ['/']).head? = (b.toList ++ ['/']).head? := by
    obtain ⟨rest, hrest⟩ := h
    rw [← hrest, List.append_assoc]
    cases a.toList <;> rfl
  rcases ha with ha | ⟨ns, slot, rfl, hns, hslot⟩ <;>
    rcases hb with hb | ⟨ns', slot', rfl, hns', hslot'⟩
  · exact String.toList_inj.1 (eq_of_prefix_delimiter ha.1 hb.1 h).1
  · rw [Step.toList_slot] at hhead
    exact absurd hhead (hmark a ha)
  · rw [Step.toList_slot] at hhead
    exact absurd hhead.symm (hmark b hb)
  · rw [Step.toList_slot, Step.toList_slot, List.cons_append, List.cons_append,
      List.append_assoc, List.append_assoc, List.cons_append, List.cons_append] at h
    obtain ⟨hn, h⟩ := eq_of_prefix_delimiter hns hns' (List.cons_prefix_cons.1 h).2
    obtain ⟨hs, -⟩ := eq_of_prefix_delimiter hslot hslot' h
    rw [String.toList_inj.1 hn, String.toList_inj.1 hs]

/-- Every frame is at a plain segment of the address that the frame around it has, or had before it
was dropped. -/
def Segmented (s : Store) : Prop :=
  ∃ address : ScopeId → String, (∀ id f, s.frame? id = some f → f.path = address id) ∧
    ∀ id f p, s.frame? id = some f → f.parent = some p →
      ∃ segment, PlainSegment segment ∧ f.path = address p ++ "/" ++ segment

theorem Segmented.new : Store.new.Segmented := by
  refine ⟨fun _ => "", fun id f hf => ?_, fun id f p hf hp => ?_⟩
  · obtain ⟨rfl, rfl⟩ := frame?_new hf
    rfl
  · obtain ⟨rfl, rfl⟩ := frame?_new hf
    cases hp

/-- Frames that keep their addresses and stay in the frames they were in stay so. -/
theorem Segmented.of_frames (h : s.Segmented) (hframes : ∀ id g, t.frame? id = some g →
    ∃ f, s.frame? id = some f ∧ g.path = f.path ∧ g.parent = f.parent) : t.Segmented := by
  obtain ⟨address, hat, hin⟩ := h
  refine ⟨address, fun id g hg => ?_, fun id g p hg hp => ?_⟩
  · obtain ⟨f, hf, hpath, -⟩ := hframes id g hg
    exact hpath.trans (hat id f hf)
  · obtain ⟨f, hf, hpath, hparent⟩ := hframes id g hg
    rw [hpath]
    exact hin id f p hf (hparent.symm.trans hp)

/-- **An operation** keeps the frames at plain segments if it opens none at another. -/
theorem Segmented.effect (h : s.Segmented) (hs : s.Consistent) (he : s.Effect op t)
    (hplain : op.Plain) : t.Segmented := by
  rcases he.kept_or_made hs.toSound with
    ⟨-, hkept⟩ | ⟨parent, outer, f, segment, hplace, hlive, hpath, hinside, rfl⟩
  · exact h.of_frames hkept
  · obtain ⟨address, hat, hin⟩ := h
    refine ⟨Function.update address s.nextId f.path, fun id g hg => ?_, fun id g p hg hp => ?_⟩
    · rcases frame?_insert_cases hg with ⟨rfl, rfl⟩ | hg
      · rw [Function.update_self]
      · rw [Function.update_of_ne (hs.ne_nextId hg)]
        exact hat id g hg
    · rcases frame?_insert_cases hg with ⟨rfl, rfl⟩ | hg
      · cases hinside.symm.trans hp
        have hold : parent < s.nextId := hs.fresh parent outer hlive
        refine ⟨segment, hplain parent segment hplace, ?_⟩
        rw [Function.update_of_ne (Nat.ne_of_lt hold), hpath, Frame.address,
          hat parent outer hlive]
      · have hold : p < s.nextId := hs.lt_nextId_of_parent hg hp
        rw [Function.update_of_ne (Nat.ne_of_lt hold)]
        exact hin id g p hg hp

/-- With plain segments frames beside each other have addresses that are apart. -/
theorem Segmented.farApart (h : s.Segmented) (hs : s.Sound) (hb : s.Beside x y) :
    s.FarApart x y := by
  obtain ⟨address, -, hin⟩ := h
  obtain ⟨hne, p, f, g, hf, hg, hfp, hgp⟩ := hb
  obtain ⟨a, ha, hfa⟩ := hin x f p hf hfp
  obtain ⟨b, hb, hgb⟩ := hin y g p hg hgp
  have hab : a ≠ b := by
    rintro rfl
    exact hne (hs.eq_of_path hf hg (hfa.trans hgb.symm))
  have hstrip : ∀ c d : String, (address p ++ "/" ++ c ++ "/").toList <+:
      (address p ++ "/" ++ d ++ "/").toList → (c ++ "/").toList <+: (d ++ "/").toList := by
    intro c d hcd
    have hsplit : ∀ e : String, (address p ++ "/" ++ e ++ "/").toList =
        (address p ++ "/").toList ++ (e ++ "/").toList := fun e => by
      rw [← String.toList_append, ← String.append_assoc]
    rw [hsplit, hsplit] at hcd
    exact (List.prefix_append_right_inj _).1 hcd
  intro f' g' hf' hg'
  obtain rfl : f = f' := Option.some.inj (hf.symm.trans hf')
  obtain rfl : g = g' := Option.some.inj (hg.symm.trans hg')
  rw [hfa, hgb]
  exact ⟨fun hpre => hab (ha.eq_of_prefix hb (hstrip a b hpre)),
    fun hpre => hab (hb.eq_of_prefix ha (hstrip b a hpre)).symm⟩

/-- **Where all segments are plain**, all frames beside each other have addresses that are apart. -/
theorem run_farApart {ops : List Operation} (hplain : ∀ op ∈ ops, op.Plain)
    (hb : (new.run ops).Beside x y) : (new.run ops).FarApart x y := by
  have hall : (new.run ops).Segmented := by
    clear hb
    induction ops using List.reverseRecOn with
    | nil => exact .new
    | append_singleton ops op ih =>
      have hrest := ih fun o ho => hplain o (List.mem_append_left _ ho)
      rw [run_concat, perform]
      split
      · next t ha =>
        have hs := run_consistent ops
        exact hrest.effect hs (hs.toSound.effect_of_attempt ha)
          (hplain op (List.mem_append_right _ List.mem_cons_self))
      · exact hrest
  exact hall.farApart (run_consistent ops).toSound hb

end Store

end Trellis
