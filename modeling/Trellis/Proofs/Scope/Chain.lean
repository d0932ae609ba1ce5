import Trellis.Scope.Store

/-!
# Chains and the outline of a store

A chain that is whole is found with any fuel that is enough, and meets no frame twice. Changing the
data of frames leaves everything else of a store as it was: its *outline*.

* `Store.chainFrom_stable`, `Store.chainFrom_nodup`: whole chains.
* `Store.mapFrames`, `Store.chainFrom_mapFrames`: frames changed in their places.
* `Store.outline`, `Store.chain_outline`: what does not depend on data.
-/

namespace Trellis

/-- A frame without its data. -/
def Frame.bare (f : Frame) : Frame := { f with data := .null }

namespace Store

variable {s : Store} {n m : Nat} {id j : ScopeId} {f : Frame}

theorem chainFrom_none (h : s.frame? id = none) : s.chainFrom (n + 1) id = ([], false) := by
  rw [chainFrom, h]

theorem chainFrom_root (h : s.frame? id = some f) (hp : f.parent = none) :
    s.chainFrom (n + 1) id = ([(id, f)], true) := by
  rw [chainFrom, h]
  simp only [hp]

theorem chainFrom_parent {p : ScopeId} (h : s.frame? id = some f) (hp : f.parent = some p) :
    s.chainFrom (n + 1) id = ((id, f) :: (s.chainFrom n p).1, (s.chainFrom n p).2) := by
  rw [chainFrom, h]
  simp only [hp]

/-- **A whole chain** does not depend on the fuel. -/
theorem chainFrom_stable (h : (s.chainFrom n id).2 = true) (hm : n ≤ m) :
    s.chainFrom m id = s.chainFrom n id := by
  induction n generalizing id m with
  | zero => simp [chainFrom] at h
  | succ n ih =>
    obtain ⟨m, rfl⟩ : ∃ k, m = k + 1 := ⟨m - 1, by omega⟩
    cases hf : s.frame? id with
    | none => rw [chainFrom_none hf, chainFrom_none hf]
    | some f =>
      cases hp : f.parent with
      | none => rw [chainFrom_root hf hp, chainFrom_root hf hp]
      | some p =>
        rw [chainFrom_parent hf hp] at h
        rw [chainFrom_parent hf hp, chainFrom_parent hf hp, ih h (by omega)]

/-- The chain of a frame goes on with that of the frame around it, which is older. -/
theorem chain_parent {p : ScopeId} (h : s.frame? id = some f) (hp : f.parent = some p)
    (hlt : p < id) (hwhole : (s.chain p).2 = true) :
    s.chain id = ((id, f) :: (s.chain p).1, true) := by
  rw [chain, chainFrom_parent h hp, chainFrom_stable hwhole hlt]
  exact congrArg _ hwhole

/-- The frames on a chain are live. -/
theorem frame?_of_mem_chainFrom {e : ScopeId × Frame} (h : e ∈ (s.chainFrom n id).1) :
    s.frame? e.1 = some e.2 := by
  induction n generalizing id with
  | zero => simp [chainFrom] at h
  | succ n ih =>
    cases hf : s.frame? id with
    | none => rw [chainFrom_none hf] at h; simp at h
    | some f =>
      cases hp : f.parent with
      | none =>
        rw [chainFrom_root hf hp] at h
        rw [List.mem_singleton.1 h]
        exact hf
      | some p =>
        rw [chainFrom_parent hf hp] at h
        rcases List.mem_cons.1 h with rfl | h
        · exact hf
        · exact ih h

/-- From a frame on a whole chain the rest of the chain goes on, and is no longer than the whole. -/
theorem chainFrom_of_mem (h : (s.chainFrom n id).2 = true)
    (hj : j ∈ (s.chainFrom n id).1.map Prod.fst) :
    ∃ k ≤ n, (s.chainFrom k j).2 = true ∧
      (s.chainFrom k j).1.length ≤ (s.chainFrom n id).1.length := by
  induction n generalizing id with
  | zero => simp [chainFrom] at h
  | succ n ih =>
    -- the chain goes on from its own beginning, or from a frame further out
    by_cases hij : j = id
    · subst hij
      exact ⟨n + 1, Nat.le_refl _, h, Nat.le_refl _⟩
    cases hf : s.frame? id with
    | none => rw [chainFrom_none hf] at h; cases h
    | some f =>
      cases hp : f.parent with
      | none => rw [chainFrom_root hf hp] at hj; simp [hij] at hj
      | some p =>
        rw [chainFrom_parent hf hp] at h hj
        rcases List.mem_cons.1 hj with hj | hj
        · exact absurd hj hij
        · obtain ⟨k, hk, hw, hl⟩ := ih h hj
          rw [chainFrom_parent hf hp]
          exact ⟨k, by omega, hw, by simp only [List.length_cons]; omega⟩

/-- **A whole chain** meets no frame twice: from the second time on it would go round for ever. -/
theorem chainFrom_nodup (h : (s.chainFrom n id).2 = true) :
    ((s.chainFrom n id).1.map Prod.fst).Nodup := by
  induction n generalizing id with
  | zero => simp [chainFrom]
  | succ n ih =>
    cases hf : s.frame? id with
    | none => rw [chainFrom_none hf]; simp
    | some f =>
      cases hp : f.parent with
      | none => rw [chainFrom_root hf hp]; simp
      | some p =>
        have hwhole := h
        rw [chainFrom_parent hf hp] at h ⊢
        rw [List.map_cons, List.nodup_cons]
        refine ⟨fun hmem => ?_, ih h⟩
        -- met again further out, the frame would have a chain shorter than its own
        obtain ⟨k, hk, hw, hl⟩ := chainFrom_of_mem h hmem
        have heq := chainFrom_stable hw (show k ≤ n + 1 by omega)
        rw [← heq, chainFrom_parent hf hp, List.length_cons] at hl
        omega

/-- The nearest frame of a kind is the scope's own if it is of that kind. -/
theorem nearest?_self (h : s.frame? id = some f) : s.nearest? id f.kind = .ok (some (id, f)) := by
  have hfind : (s.chain id).1.find? (fun e => e.2.kind = f.kind) = some (id, f) := by
    unfold chain
    cases hp : f.parent with
    | none =>
      rw [chainFrom_root h hp]
      exact List.find?_cons_of_pos (by simp)
    | some p =>
      rw [chainFrom_parent h hp]
      exact List.find?_cons_of_pos (by simp)
  unfold nearest?
  simp only [hfind]

/-- The nearest frame of a namespace is the scope's own if it is one of the namespace. -/
theorem space_self {ns : String} (h : s.frame? id = some f) (hk : f.kind = .space ns) :
    s.space id ns = .ok (id, f) := by
  have hnear := nearest?_self h
  rw [hk] at hnear
  unfold space
  rw [hnear]
  rfl

/-! ### Changing frames in place -/

/-- Changing the values of a list by their keys. -/
theorem lookup_map {α β : Type} (g : ScopeId → α → β) (l : List (ScopeId × α)) :
    (l.map fun e => (e.1, g e.1 e.2)).lookup j = (l.lookup j).map (g j) := by
  induction l with
  | nil => rfl
  | cons e l ih =>
    rw [List.map_cons, List.lookup_cons, List.lookup_cons]
    by_cases he : j = e.1
    · subst he
      rw [beq_self_eq_true]
      rfl
    · rw [beq_eq_false_iff_ne.mpr he]
      exact ih

/-- The store with every frame changed in its place. -/
def mapFrames (g : ScopeId → Frame → Frame) (s : Store) : Store :=
  { s with frames := s.frames.map fun e => (e.1, g e.1 e.2) }

theorem frame?_mapFrames (g : ScopeId → Frame → Frame) :
    (s.mapFrames g).frame? j = (s.frame? j).map (g j) :=
  lookup_map g s.frames

/-- The chain leads the same way if no frame gets another parent. -/
theorem chainFrom_mapFrames {g : ScopeId → Frame → Frame} (hg : ∀ i f, (g i f).parent = f.parent) :
    (s.mapFrames g).chainFrom n j =
      ((s.chainFrom n j).1.map fun e => (e.1, g e.1 e.2), (s.chainFrom n j).2) := by
  induction n generalizing j with
  | zero => rfl
  | succ n ih =>
    have hf' := frame?_mapFrames (s := s) (j := j) g
    cases hf : s.frame? j with
    | none =>
      rw [hf] at hf'
      rw [chainFrom_none hf, chainFrom_none hf']
      rfl
    | some f =>
      rw [hf] at hf'
      have hp' := hg j f
      cases hp : f.parent with
      | none =>
        rw [hp] at hp'
        rw [chainFrom_root hf hp, chainFrom_root hf' hp']
        rfl
      | some p =>
        rw [hp] at hp'
        rw [chainFrom_parent hf hp, chainFrom_parent hf' hp', ih]
        rfl

/-- What a change of one frame makes of any frame. -/
def changed (id : ScopeId) (g : Frame → Frame) (i : ScopeId) (f : Frame) : Frame :=
  if i = id then g f else f

theorem modify_eq (g : Frame → Frame) : s.modify id g = s.mapFrames (changed id g) := by
  unfold modify mapFrames
  congr 1
  refine List.map_congr_left fun e _ => ?_
  unfold changed
  split <;> rfl

/-- Changing a frame twice. -/
theorem modify_modify (g g' : Frame → Frame) :
    (s.modify id g).modify id g' = s.modify id fun x => g' (g x) := by
  unfold modify
  simp only [List.map_map, Function.comp_def]
  congr 1
  refine List.map_congr_left fun e _ => ?_
  by_cases he : e.1 = id
  · simp only [he, if_true]
  · simp only [he, if_false]

theorem modify_self (s : Store) (id : ScopeId) : (s.modify id fun f => f) = s := by
  unfold modify
  simp

theorem frame?_modify_of_ne (g : Frame → Frame) (h : j ≠ id) :
    (s.modify id g).frame? j = s.frame? j := by
  rw [modify_eq, frame?_mapFrames]
  cases s.frame? j with
  | none => rfl
  | some f => simp [changed, h]

theorem frame?_modify_self (g : Frame → Frame) :
    (s.modify id g).frame? id = (s.frame? id).map g := by
  rw [modify_eq, frame?_mapFrames]
  cases s.frame? id with
  | none => rfl
  | some f => simp [changed]

/-- On a list without repetitions a change of one frame is a change in one place. -/
theorem map_changed_append {l₁ l₂ : List (ScopeId × Frame)} (g : Frame → Frame)
    (h : ((l₁ ++ (id, f) :: l₂).map Prod.fst).Nodup) :
    ((l₁ ++ (id, f) :: l₂).map fun e => (e.1, changed id g e.1 e.2)) = l₁ ++ (id, g f) :: l₂ := by
  -- nothing changes where the frame is not
  have hout : ∀ l : List (ScopeId × Frame), id ∉ l.map Prod.fst →
      (l.map fun e => (e.1, changed id g e.1 e.2)) = l := by
    intro l hl
    refine (List.map_congr_left fun e he => ?_).trans (List.map_id l)
    have hne : e.1 ≠ id := fun h => hl (h ▸ List.mem_map_of_mem he)
    simp [changed, hne]
  rw [List.map_append, List.map_cons, List.nodup_append, List.nodup_cons] at h
  obtain ⟨-, ⟨h₂, -⟩, h₁⟩ := h
  rw [List.map_append, List.map_cons, hout l₁ fun hm => h₁ _ hm _ List.mem_cons_self rfl, hout l₂ h₂]
  simp [changed]

/-! ### The outline -/

/-- A store without the data of its frames. -/
def outline (s : Store) : Store :=
  s.mapFrames fun _ f => f.bare

/-- **Data** is no part of the outline. -/
theorem outline_modify {g : Frame → Frame} (hg : ∀ f, (g f).bare = f.bare) :
    (s.modify id g).outline = s.outline := by
  rw [modify_eq]
  unfold outline mapFrames
  simp only [List.map_map]
  congr 1
  refine List.map_congr_left fun e _ => ?_
  simp only [Function.comp, changed]
  split
  · rw [hg]
  · rfl

theorem frame?_outline : s.outline.frame? j = (s.frame? j).map Frame.bare :=
  frame?_mapFrames _

theorem chain_outline :
    s.outline.chain j = ((s.chain j).1.map fun e => (e.1, e.2.bare), (s.chain j).2) :=
  chainFrom_mapFrames fun _ _ => rfl

/-- Stores of one outline have the same scopes on a chain. -/
theorem chain_ids_of_outline {t : Store} (h : s.outline = t.outline) :
    (s.chain j).1.map Prod.fst = (t.chain j).1.map Prod.fst := by
  have hc := chain_outline (s := s) (j := j)
  rw [h, chain_outline] at hc
  have hids := congrArg (fun c => c.1.map Prod.fst) hc
  simp only [List.map_map, Function.comp_def] at hids
  exact hids.symm

end Store

end Trellis
