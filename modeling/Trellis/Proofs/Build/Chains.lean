import Trellis.Proofs.Build.Nesting
import Mathlib.Data.List.Induction

/-!
# Chains through the frames of a schema

Where no ways clash the chain of a frame that was entered leads through the frames of the shorter
ways, and through no others.

* `Session.Placed.has_eq_iff`: a way has one frame, and a frame one way.
* `Session.Built.chain_cons`: the chain goes on one step nearer to the root.
* `Session.Built.chain_frames`: all of a chain.
-/

namespace Trellis

open Schema

namespace Session

variable {n : Node} {s : Session} {o w : Way} {step : Step} {id p : ScopeId}

/-- Where no ways clash a way has one frame, and a frame one way. -/
theorem Placed.has_eq_iff (h : s.Placed n) (hfree : n.ClashFree) {v : Way} {j : ScopeId}
    (hw : s.Has w id) (hv : s.Has v j) : id = j ↔ w = v := by
  obtain ⟨f, hf, hfp, -⟩ := h.has hw
  obtain ⟨g, hg, hgp, -⟩ := h.has hv
  have hafter : ∀ {u i}, s.Has u i → ((Locus.content n).after u).isSome := by
    rintro u i (⟨rfl, -⟩ | hu)
    · rfl
    · exact (h.way _ hu).2
  constructor
  · rintro rfl
    rw [hf] at hg
    cases hg
    exact way_unique hfree (hafter hw) (hafter hv) (hfp.symm.trans hgp)
  · rintro rfl
    exact h.sound.eq_of_path hf hg (hfp.trans hgp.symm)

/-- One step of a chain: from the frame of a way to that of the way one step shorter. -/
theorem Built.chain_step (h : s.Built n) (hfree : n.ClashFree) (hw : s.Has (o ++ [step]) id) :
    ∃ f p, s.store.frame? id = some f ∧ f.kind = step.kind ∧ f.parent = some p ∧ s.Has o p ∧
      p < id := by
  have hnested := h.nested hfree
  have hvisit : (⟨o ++ [step], id⟩ : Visit) ∈ s.visits := by
    rcases hw with ⟨hnil, -⟩ | hw
    · simp at hnil
    · exact hw
  obtain ⟨f, hf, hfp, -⟩ := h.placed.touched _ hvisit
  have hid : id ≠ Store.rootId := by
    rintro rfl
    exact absurd ((h.placed.has_eq_iff hfree hw (.inl ⟨rfl, rfl⟩)).1 rfl) (by simp)
  -- the frame stands where its address says, and no other way has that address
  obtain ⟨o', step', p, g, hafter, hseat⟩ := hnested.seat id f hf hid
  have hways := way_unique hfree hafter (h.placed.way _ hvisit).2 (hseat.path.symm.trans hfp)
  obtain ⟨rfl, hstep⟩ := List.append_inj' hways rfl
  cases hstep
  obtain ⟨q, hq⟩ := hnested.outer _ hvisit o' step rfl
  obtain ⟨g', hg', hgp', -⟩ := h.placed.has hq
  have hqp := h.placed.sound.eq_of_path hg' hseat.outer (hgp'.trans hseat.around.symm)
  subst hqp
  exact ⟨f, q, hf, hseat.kind, hseat.parent, hq, hseat.older⟩

/-- **Chains** are whole, and lead through the frames of the shorter ways. -/
theorem Built.chain_frames (h : s.Built n) (hfree : n.ClashFree) (hw : s.Has w id) :
    (s.store.chain id).2 = true ∧
      ∀ j, j ∈ (s.store.chain id).1.map Prod.fst ↔ ∃ v, v <+: w ∧ s.Has v j := by
  induction w using List.reverseRecOn generalizing id with
  | nil =>
    rcases hw with ⟨-, rfl⟩ | hw
    · obtain ⟨r, hr, -, hpar, -⟩ := h.placed.sound.root
      rw [Store.chain, Store.chainFrom_root hr hpar]
      refine ⟨rfl, fun j => ?_⟩
      rw [List.map_singleton, List.mem_singleton]
      constructor
      · rintro rfl
        exact ⟨[], List.prefix_refl _, .inl ⟨rfl, rfl⟩⟩
      · rintro ⟨v, hv, hj⟩
        rw [List.prefix_nil] at hv
        exact (h.placed.has_eq_iff hfree hj (.inl ⟨rfl, rfl⟩)).2 hv
    · exact absurd rfl (h.placed.way _ hw).1
  | append_singleton o step ih =>
    obtain ⟨f, p, hf, -, hpar, hp, hlt⟩ := h.chain_step hfree hw
    obtain ⟨hwhole, hids⟩ := ih hp
    rw [Store.chain_parent hf hpar hlt hwhole]
    refine ⟨rfl, fun j => ?_⟩
    rw [List.map_cons, List.mem_cons, hids]
    constructor
    · rintro (rfl | ⟨v, hv, hj⟩)
      · exact ⟨_, List.prefix_refl _, hw⟩
      · exact ⟨v, hv.trans (List.prefix_append _ _), hj⟩
    · rintro ⟨v, hv, hj⟩
      rcases List.prefix_concat_iff.1 hv with rfl | hv
      · exact .inl ((h.placed.has_eq_iff hfree hj hw).2 rfl)
      · exact .inr ⟨v, hv, hj⟩

/-- The chain of a frame goes on with that of the frame one step nearer to the root. -/
theorem Built.chain_cons (h : s.Built n) (hfree : n.ClashFree) (hw : s.Has (o ++ [step]) id) :
    ∃ f p, f.kind = step.kind ∧ s.Has o p ∧
      s.store.chain id = ((id, f) :: (s.store.chain p).1, true) ∧ (s.store.chain p).2 = true := by
  obtain ⟨f, p, hf, hkind, hpar, hp, hlt⟩ := h.chain_step hfree hw
  have hwhole := (h.chain_frames hfree hp).1
  exact ⟨f, p, hkind, hp, Store.chain_parent hf hpar hlt hwhole, hwhole⟩

end Session

end Trellis
