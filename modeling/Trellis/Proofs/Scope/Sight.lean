import Trellis.Proofs.Scope.Chain
import Trellis.Proofs.Value.Alike
import Trellis.Scope.Handle
import Mathlib.Data.List.Forall2

/-!
# What a scope sees

Two stores look alike from a scope if the chains from there are whole, frame by frame of one kind,
and hold related data in the namespaces. Then reading a namespace and writing to it come out alike,
and a write changes nothing but the data of a namespace on the chain.

* `Store.SameSight`, `Store.WithinSight`: the two relations.
* `Store.spaceData?_alike`, `Store.write_alike`: reading and writing.
* `Store.SameView`: the chains from a scope show the same, whole or not; `Store.SameView.get_eq`: so
  the same is read at paths.
* `Store.write_within`: what a write leaves as it was.
-/

/-- Searching lists that are related item by item comes to the same place of both. -/
theorem List.Forall₂.find?_split {α β : Type} {R : α → β → Prop} {p : α → Bool} {q : β → Bool}
    (hpq : ∀ x y, R x y → p x = q y) {l : List α} {m : List β} (h : List.Forall₂ R l m) :
    (l.find? p = none ∧ m.find? q = none) ∨
      ∃ l₁ x l₂ m₁ y m₂, l = l₁ ++ x :: l₂ ∧ m = m₁ ++ y :: m₂ ∧ l.find? p = some x ∧
        m.find? q = some y ∧ List.Forall₂ R l₁ m₁ ∧ R x y ∧ List.Forall₂ R l₂ m₂ := by
  induction h with
  | nil => exact .inl ⟨rfl, rfl⟩
  | @cons x y l m hxy hlm ih =>
    rw [List.find?_cons, List.find?_cons, ← hpq x y hxy]
    cases hp : p x with
    | true => exact .inr ⟨[], x, l, [], y, m, rfl, rfl, rfl, rfl, .nil, hxy, hlm⟩
    | false =>
      rcases ih with ih | ⟨l₁, x', l₂, m₁, y', m₂, rfl, rfl, hl, hm, h₁, hx, h₂⟩
      · exact .inl ih
      · exact .inr ⟨x :: l₁, x', l₂, y :: m₁, y', m₂, rfl, rfl, hl, hm, .cons hxy h₁, hx, h₂⟩

namespace Trellis

/-- Frames of one kind; those of a namespace hold related data. -/
def Frame.Same (A : Value → Value → Prop) (f g : Frame) : Prop :=
  f.kind = g.kind ∧ ∀ ns, f.kind = .space ns → A f.data g.data

namespace Store

/-- Two stores look alike from a scope. -/
structure SameSight (A : Value → Value → Prop) (scope : ScopeId) (a b : Store) : Prop where
  left : (a.chain scope).2 = true
  right : (b.chain scope).2 = true
  frames : List.Forall₂ (fun e e' => Frame.Same A e.2 e'.2) (a.chain scope).1 (b.chain scope).1

/-- From `a` to `b` only the data of namespaces on the chain of a scope changed. -/
structure WithinSight (scope : ScopeId) (a b : Store) : Prop where
  outline : b.outline = a.outline
  other : ∀ id f, a.frame? id = some f →
    ¬ ((∃ ns, f.kind = .space ns) ∧ id ∈ (a.chain scope).1.map Prod.fst) → b.frame? id = some f

variable {A : Value → Value → Prop} {scope : ScopeId} {a b c s t : Store}

theorem WithinSight.refl : WithinSight scope a a :=
  ⟨rfl, fun _ _ h _ => h⟩

theorem WithinSight.trans (h : WithinSight scope a b) (h' : WithinSight scope b c) :
    WithinSight scope a c := by
  refine ⟨h'.outline.trans h.outline, fun id f hf hout => ?_⟩
  have hb := h.other id f hf hout
  rw [chain_ids_of_outline h.outline.symm] at hout
  exact h'.other id f hb hout

theorem SameSight.mono {A' : Value → Value → Prop} (hA : ∀ v w, A v w → A' v w)
    (h : SameSight A scope a b) : SameSight A' scope a b :=
  ⟨h.left, h.right, h.frames.imp fun _ _ hs => ⟨hs.1, fun ns hns => hA _ _ (hs.2 ns hns)⟩⟩

/-! ### Reading -/

/-- On a whole chain a frame of a kind is there or not, and there is no fault. -/
theorem nearest?_of_whole (h : (a.chain scope).2 = true) (kind : FrameKind) :
    a.nearest? scope kind = .ok ((a.chain scope).1.find? fun e => e.2.kind = kind) := by
  unfold nearest?
  simp only [h, if_true]
  split
  · next hfound => rw [hfound]
  · next hfound => rw [hfound]

/-- The nearest frame of a kind is on the chain. -/
theorem mem_of_nearest? {kind : FrameKind} {x : ScopeId × Frame}
    (h : a.nearest? scope kind = .ok (some x)) : x ∈ (a.chain scope).1 ∧ x.2.kind = kind := by
  unfold nearest? at h
  simp only at h
  split at h
  · next e he =>
    cases h
    exact ⟨List.mem_of_find?_eq_some he, by simpa using List.find?_some he⟩
  · split at h <;> cases h

/-- The nearest frame of a namespace stands in the same place of both chains. -/
theorem SameSight.split (h : SameSight A scope a b) (ns : String) :
    (a.nearest? scope (.space ns) = .ok none ∧ b.nearest? scope (.space ns) = .ok none) ∨
      ∃ l₁ x l₂ m₁ y m₂, (a.chain scope).1 = l₁ ++ x :: l₂ ∧ (b.chain scope).1 = m₁ ++ y :: m₂ ∧
        a.nearest? scope (.space ns) = .ok (some x) ∧
        b.nearest? scope (.space ns) = .ok (some y) ∧
        List.Forall₂ (fun e e' => Frame.Same A e.2 e'.2) l₁ m₁ ∧
        (x.2.kind = .space ns ∧ y.2.kind = .space ns ∧ A x.2.data y.2.data) ∧
        List.Forall₂ (fun e e' => Frame.Same A e.2 e'.2) l₂ m₂ := by
  rw [nearest?_of_whole h.left, nearest?_of_whole h.right]
  -- frames that look alike are of one kind, so the searches stop at the same place
  have hkind : ∀ e e' : ScopeId × Frame, Frame.Same A e.2 e'.2 →
      decide (e.2.kind = .space ns) = decide (e'.2.kind = .space ns) :=
    fun e e' hs => by rw [hs.1]
  rcases h.frames.find?_split hkind with ⟨hl, hm⟩ | ⟨l₁, x, l₂, m₁, y, m₂, hl, hm, hx, hy, h₁, hs, h₂⟩
  · exact .inl ⟨by rw [hl], by rw [hm]⟩
  · have hk : x.2.kind = .space ns := by simpa using List.find?_some hx
    exact .inr ⟨l₁, x, l₂, m₁, y, m₂, hl, hm, by rw [hx], by rw [hy], h₁,
      ⟨hk, hs.1 ▸ hk, hs.2 ns hk⟩, h₂⟩

/-- **Reading** a namespace gives related data. -/
theorem spaceData?_alike (h : SameSight A scope a b) (ns : String) :
    SameOutcome (Option.Rel A) (a.spaceData? scope ns) (b.spaceData? scope ns) := by
  unfold spaceData?
  rcases h.split ns with ⟨hx, hy⟩ | ⟨l₁, x, l₂, m₁, y, m₂, -, -, hx, hy, -, ⟨-, -, hd⟩, -⟩
  · rw [hx, hy]; exact .none
  · rw [hx, hy]; exact .some hd

/-! ### Writing -/

/-- What a write comes to when the nearest frame of the namespace is known. -/
theorem write_of_nearest {ns : String} {x : ScopeId × Frame}
    (hx : a.nearest? scope (.space ns) = .ok (some x)) {keys : List String} (hk : keys ≠ [])
    (v : Value) :
    a.write scope ns keys v =
      match x.2.data.replace keys v with
      | .ok data => .ok (memberAddress x.2 ns keys, a.modify x.1 fun f => { f with data := data })
      | .error e => .error (writeFault ns e) := by
  have hspace : a.space scope ns = .ok x := by unfold space; rw [hx]; rfl
  unfold write
  rw [if_neg (by simpa using hk), hspace]
  rfl

/-- New data for the frame in the middle of a chain. -/
theorem chain_modify_data (hw : (a.chain scope).2 = true) {l₁ l₂ : List (ScopeId × Frame)}
    {x : ScopeId × Frame} (hx : (a.chain scope).1 = l₁ ++ x :: l₂) (data : Value) :
    (a.modify x.1 fun f => { f with data := data }).chain scope =
      (l₁ ++ (x.1, { x.2 with data := data }) :: l₂, true) := by
  have hnodup := chainFrom_nodup hw
  change ((a.chain scope).1.map Prod.fst).Nodup at hnodup
  rw [hx] at hnodup
  unfold chain at hx hw ⊢
  rw [modify_eq, chainFrom_mapFrames (by intro i f; unfold changed; split <;> rfl), hw, hx]
  rw [map_changed_append _ hnodup]

/-- **Writing** related values leaves stores that look alike from the scope. -/
theorem write_alike {F : Callable → Callable → Prop} (h : SameSight (Value.Alike F) scope a b)
    (ns : String) (keys : List String) {v w : Value} (hvw : Value.Alike F v w) :
    SameOutcome (fun r r' => SameSight (Value.Alike F) scope r.2 r'.2)
      (a.write scope ns keys v) (b.write scope ns keys w) := by
  by_cases hk : keys = []
  · subst hk; rfl
  rcases h.split ns with ⟨hx, hy⟩ | ⟨l₁, x, l₂, m₁, y, m₂, hl, hm, hx, hy, h₁, ⟨hkx, hky, hd⟩, h₂⟩
  · have hsa : a.space scope ns = .error (.namespaceMissing ns) := by unfold space; rw [hx]; rfl
    have hsb : b.space scope ns = .error (.namespaceMissing ns) := by unfold space; rw [hy]; rfl
    unfold write
    rw [hsa, hsb, if_neg (by simpa using hk), if_neg (by simpa using hk)]
    rfl
  · rw [write_of_nearest hx hk, write_of_nearest hy hk]
    have hr := Value.Alike.replace hvw keys hd
    revert hr
    cases x.2.data.replace keys v <;> cases y.2.data.replace keys w <;> intro hr
    · rw [hr]; rfl
    · exact hr.elim
    · exact hr.elim
    · rename_i d d'
      -- the chains are the same up to the new data in their middle
      have ha := chain_modify_data h.left hl d
      have hb := chain_modify_data h.right hm d'
      refine ⟨by rw [ha], by rw [hb], ?_⟩
      rw [ha, hb]
      exact List.rel_append h₁ (.cons ⟨hkx.trans hky.symm, fun _ _ => hr⟩ h₂)

/-- **Writing** changes the data of one namespace on the chain and nothing else. -/
theorem write_within {ns : String} {keys : List String} {v : Value} {path : String}
    (hw : a.write scope ns keys v = .ok (path, b)) : WithinSight scope a b := by
  by_cases hk : keys = []
  · subst hk; cases hw
  obtain ⟨x, hx⟩ : ∃ x, a.nearest? scope (.space ns) = .ok (some x) := by
    unfold write space at hw
    rw [if_neg (by simpa using hk)] at hw
    cases hn : a.nearest? scope (.space ns) with
    | error e => rw [hn] at hw; cases hw
    | ok found =>
      cases found with
      | none => rw [hn] at hw; cases hw
      | some x => exact ⟨x, rfl⟩
  have hmem := mem_of_nearest? hx
  rw [write_of_nearest hx hk] at hw
  cases hr : x.2.data.replace keys v with
  | error e => rw [hr] at hw; cases hw
  | ok data =>
    rw [hr] at hw
    cases hw
    refine ⟨outline_modify fun _ => rfl, fun id f hf hout => ?_⟩
    rw [frame?_modify_of_ne, hf]
    -- the frame that changed is one of those on the chain that may
    rintro rfl
    rw [frame?_of_mem_chainFrom hmem.1] at hf
    cases hf
    exact hout ⟨⟨ns, hmem.2⟩, List.mem_map_of_mem hmem.1⟩

/-! ### The same view -/

/-- Two stores look the same from a scope: frame by frame its chains show the same, and both are
whole or both break off. -/
structure SameView (scope : ScopeId) (s t : Store) : Prop where
  whole : (s.chain scope).2 = (t.chain scope).2
  frames : List.Forall₂ (fun e e' => e.2.kind = e'.2.kind ∧ e.2.data = e'.2.data)
    (s.chain scope).1 (t.chain scope).1

/-- The nearest frame of a kind holds the same. -/
theorem SameView.nearest? (h : SameView scope s t) (kind : FrameKind) :
    SameOutcome (Option.Rel fun e e' => e.2.data = e'.2.data)
      (s.nearest? scope kind) (t.nearest? scope kind) := by
  have hkind : ∀ e e' : ScopeId × Frame, e.2.kind = e'.2.kind ∧ e.2.data = e'.2.data →
      decide (e.2.kind = kind) = decide (e'.2.kind = kind) :=
    fun e e' hs => by rw [hs.1]
  unfold Store.nearest?
  simp only
  rcases h.frames.find?_split hkind with ⟨hl, hm⟩ | ⟨_, x, _, _, y, _, -, -, hx, hy, -, hs, -⟩
  · rw [hl, hm, h.whole]
    simp only
    split
    · exact .none
    · rfl
  · rw [hx, hy]
    exact .some hs.2

theorem SameView.spaceData?_eq (h : SameView scope s t) (ns : String) :
    s.spaceData? scope ns = t.spaceData? scope ns := by
  refine SameOutcome.eq ((h.nearest? (.space ns)).bind fun x y hxy => ?_)
  cases hxy with
  | none => rfl
  | some hdata => exact congrArg some hdata

theorem SameView.get_eq (h : SameView scope s t) (path : Path) :
    s.get scope path = t.get scope path := by
  refine SameOutcome.eq ?_
  unfold Store.get
  -- either way the nearest frame of a kind holds the same
  cases path.slot
  all_goals
    unfold space slotFrame
    refine SameOutcome.bind (A := fun e e' => e.2.data = e'.2.data)
      ((h.nearest? _).bind fun x y hxy => ?_) fun e e' hdata => ?_
    · cases hxy with
      | none => rfl
      | some hdata => exact hdata
    · simp only
      rw [hdata]
      exact .refl (fun _ => rfl) _

end Store

namespace Handle

variable {h : Handle} {scope : ScopeId} {ns : String} {keys : List String} {v : Value}

theorem write_error {e : Fault} (hw : h.store.write scope ns keys v = .error e) :
    h.write scope ns keys v = .error e := by
  unfold write
  rw [hw]
  rfl

/-- A write counts, and telling subscribers of it leaves the store as it is then. -/
theorem write_ok {path : String} {store : Store}
    (hw : h.store.write scope ns keys v = .ok (path, store)) :
    ∃ h', h.write scope ns keys v = .ok h' ∧ h'.store = store ∧ h'.revision = h.revision + 1 := by
  unfold write
  rw [hw]
  exact ⟨_, rfl, rfl, rfl⟩

end Handle

end Trellis
