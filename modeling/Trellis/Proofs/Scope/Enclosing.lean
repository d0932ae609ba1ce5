import Trellis.Proofs.Scope.Operations

/-!
# Which frames enclose a scope

The frames on the chain of a scope enclose it. They are older the further out they are, each
encloses those further in, and a frame beside one of them is never among them.

* `Store.Encloses`: a frame is on the chain of a scope.
* `Store.Consistent.outwards`: induction along a chain.
* `Store.Consistent.encloses_trans`, `Store.Consistent.encloses_linear`: how frames enclose each
  other.
* `Store.Beside`: frames in the same frame; `Store.Beside.hidden`: what is inside the one does not
  enclose what is inside the other.
-/

namespace Trellis

namespace Store

/-- A frame is on the chain of a scope. -/
def Encloses (s : Store) (id scope : ScopeId) : Prop :=
  id ∈ (s.chain scope).1.map Prod.fst

variable {s t : Store} {op : Operation} {id x y z scope p : ScopeId} {f g : Frame}

/-! ### The frames on a chain -/

theorem not_encloses_of_none (h : s.frame? scope = none) : ¬ s.Encloses id scope := by
  unfold Encloses chain
  rw [chainFrom_none h]
  exact List.not_mem_nil

/-- What a chain begins with is live. -/
theorem live_of_encloses (h : s.Encloses id scope) : ∃ f, s.frame? scope = some f :=
  Option.ne_none_iff_exists'.1 fun hnone => not_encloses_of_none hnone h

theorem encloses_root_iff (h : s.frame? scope = some f) (hp : f.parent = none) :
    s.Encloses id scope ↔ id = scope := by
  unfold Encloses chain
  rw [chainFrom_root h hp]
  exact List.mem_singleton

namespace Consistent

theorem encloses_iff (hs : s.Consistent) (h : s.frame? scope = some f) (hp : f.parent = some p) :
    s.Encloses id scope ↔ id = scope ∨ s.Encloses id p := by
  unfold Encloses
  rw [hs.chain_cons h hp]
  exact List.mem_cons

/-- **Going outwards** from a live scope, frame by frame. -/
theorem outwards (hs : s.Consistent) {P : ScopeId → Prop}
    (released : ∀ scope, s.frame? scope = none → P scope)
    (outermost : ∀ scope f, s.frame? scope = some f → f.parent = none → P scope)
    (inside : ∀ scope f p, s.frame? scope = some f → f.parent = some p → P p → P scope)
    (scope : ScopeId) : P scope := by
  induction scope using Nat.strongRecOn with
  | ind scope ih =>
    cases h : s.frame? scope with
    | none => exact released scope h
    | some f =>
      cases hp : f.parent with
      | none => exact outermost scope f h hp
      | some p => exact inside scope f p h hp (ih p (hs.older scope f p h hp))

/-- A frame is not younger than what it encloses. -/
theorem le_of_encloses (hs : s.Consistent) (h : s.Encloses id scope) : id ≤ scope := by
  induction scope using hs.outwards with
  | released scope hnone => exact absurd h (not_encloses_of_none hnone)
  | outermost scope f hf hp =>
    have heq := (encloses_root_iff hf hp).1 h
    exact Nat.le_of_eq heq
  | inside scope f p hf hp ih =>
    have hlt := hs.older scope f p hf hp
    rcases (hs.encloses_iff hf hp).1 h with heq | h
    · exact Nat.le_of_eq heq
    · exact Nat.le_trans (ih h) (Nat.le_of_lt hlt)

theorem encloses_trans (hs : s.Consistent) (hx : s.Encloses x y) (hy : s.Encloses y z) :
    s.Encloses x z := by
  induction z using hs.outwards with
  | released z hnone => exact absurd hy (not_encloses_of_none hnone)
  | outermost z f hf hp => exact (encloses_root_iff hf hp).1 hy ▸ hx
  | inside z f p hf hp ih =>
    rcases (hs.encloses_iff hf hp).1 hy with rfl | hy
    · exact hx
    · exact (hs.encloses_iff hf hp).2 (.inr (ih hy))

/-- **Of two frames** on a chain one encloses the other. -/
theorem encloses_linear (hs : s.Consistent) (hx : s.Encloses x scope) (hy : s.Encloses y scope) :
    s.Encloses x y ∨ s.Encloses y x := by
  induction scope using hs.outwards with
  | released scope hnone => exact absurd hx (not_encloses_of_none hnone)
  | outermost scope f hf hp =>
    rw [encloses_root_iff hf hp] at hx
    exact .inr (hx ▸ hy)
  | inside scope f p hf hp ih =>
    rcases (hs.encloses_iff hf hp).1 hx with rfl | hx'
    · exact .inr hy
    · rcases (hs.encloses_iff hf hp).1 hy with rfl | hy'
      · exact .inl hx
      · exact ih hx' hy'

end Consistent

/-- A chain leads the same way as before, unless it begins at a frame that was made. -/
theorem OneFrame.encloses_iff (h : s.OneFrame t id) (hs : s.Consistent) (ht : t.Consistent)
    (hold : scope < s.nextId) : t.Encloses x scope ↔ s.Encloses x scope := by
  induction scope using hs.outwards with
  | released scope hnone =>
    have hne : scope ≠ id := by
      rintro rfl
      have hmade := h.made hnone
      exact Nat.ne_of_lt hold hmade
    have hnone' : t.frame? scope = none := (h.others scope hne).trans hnone
    exact iff_of_false (not_encloses_of_none hnone') (not_encloses_of_none hnone)
  | outermost scope f hf hp =>
    obtain ⟨g, hg, -, hparent⟩ := h.kept scope f hf
    rw [encloses_root_iff hf hp, encloses_root_iff hg (hparent.trans hp)]
  | inside scope f p hf hp ih =>
    obtain ⟨g, hg, -, hparent⟩ := h.kept scope f hf
    rw [hs.encloses_iff hf hp, ht.encloses_iff hg (hparent.trans hp),
      ih (hs.lt_nextId_of_parent hf hp)]

/-! ### Beside each other -/

/-- Two frames in the same frame. -/
structure Beside (s : Store) (x y : ScopeId) : Prop where
  distinct : x ≠ y
  within : ∃ p f g, s.frame? x = some f ∧ s.frame? y = some g ∧ f.parent = some p ∧
    g.parent = some p

/-- Of two frames beside each other neither encloses the other: it would be older than itself. -/
theorem Beside.not_encloses (h : s.Beside x y) (hs : s.Consistent) : ¬ s.Encloses x y := by
  obtain ⟨hne, p, f, g, hf, hg, hfp, hgp⟩ := h
  intro hxy
  have holder := hs.older x f p hf hfp
  rcases (hs.encloses_iff hg hgp).1 hxy with rfl | hxp
  · exact hne rfl
  · have hle := hs.le_of_encloses hxp
    exact Nat.not_lt.2 hle holder

theorem Beside.symm (h : s.Beside x y) : s.Beside y x := by
  obtain ⟨hne, p, f, g, hf, hg, hfp, hgp⟩ := h
  exact ⟨hne.symm, p, g, f, hg, hf, hgp, hfp⟩

/-- **What is inside a frame** is not on the chain of a scope inside one beside it. -/
theorem Beside.hidden (h : s.Beside x y) (hs : s.Consistent) (hz : s.Encloses x z)
    (hscope : s.Encloses y scope) : ¬ s.Encloses z scope := by
  intro hzs
  rcases hs.encloses_linear (hs.encloses_trans hz hzs) hscope with hxy | hyx
  · exact h.not_encloses hs hxy
  · exact h.symm.not_encloses hs hyx

end Store

end Trellis
