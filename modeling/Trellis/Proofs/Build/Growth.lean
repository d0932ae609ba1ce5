import Trellis.Proofs.Build.Places

/-!
# What building leaves as it was

However far building gets, the frames that were there are there, and are what they were; the pass
has touched no frame but those it entered; and as long as nothing is written, what stood at any way
stands.

* `Session.Grows`: all of this, from one session to a later one, which building allows.
-/

namespace Trellis

open Schema Session Act

namespace Session

/-- What building keeps of the frames of a schema. -/
structure Grows (n : Node) (s t : Session) : Prop where
  visits : s.visits ⊆ t.visits
  epoch : t.store.epoch = s.store.epoch
  frames : n.ClashFree → ∀ id f, s.store.frame? id = some f → ∃ f', t.store.frame? id = some f' ∧
    f'.path = f.path ∧ f'.parent = f.parent ∧ f'.kind = f.kind
  touched : ∀ id f', t.store.frame? id = some f' → f'.epoch = t.store.epoch →
    (∃ f, s.store.frame? id = some f ∧ f.epoch = s.store.epoch) ∨ ∃ w, ⟨w, id⟩ ∈ t.visits
  revision : s.handle.revision ≤ t.handle.revision
  standing : n.ClashFree → t.handle.revision = s.handle.revision →
    ∀ u, ((Locus.content n).after u).isSome → t.standing n u = s.standing n u

variable {n : Node} {s t u : Session} {w : Way} {id : ScopeId} {data : Value}

/-- Changes of data, as long as a write is counted if it changes what stands. -/
theorem Grows.of_outline (h : SameOutline s t) (hrev : s.handle.revision ≤ t.handle.revision)
    (hstands : n.ClashFree → t.handle.revision = s.handle.revision →
      ∀ u, ((Locus.content n).after u).isSome → t.standing n u = s.standing n u) : s.Grows n t where
  visits := by rw [h.visits]; exact List.Subset.refl _
  epoch := h.epoch
  frames _ id f hf := by
    obtain ⟨f', hf', hb⟩ := h.frame? hf
    obtain ⟨hp, hpar, hk, -⟩ := bare_fields hb
    exact ⟨f', hf', hp, hpar, hk⟩
  touched id f' hf' he := by
    obtain ⟨f, hf, hb⟩ := h.symm.frame? hf'
    exact .inl ⟨f, hf, (bare_fields hb).2.2.2.trans (he.trans h.epoch)⟩
  revision := hrev
  standing := hstands

theorem Grows.trans (h : s.Grows n t) (h' : t.Grows n u) : s.Grows n u where
  visits := List.Subset.trans h.visits h'.visits
  epoch := h'.epoch.trans h.epoch
  frames hfree id f hf := by
    obtain ⟨f', hf', hp, hpar, hk⟩ := h.frames hfree id f hf
    obtain ⟨f'', hf'', hp', hpar', hk'⟩ := h'.frames hfree id f' hf'
    exact ⟨f'', hf'', hp'.trans hp, hpar'.trans hpar, hk'.trans hk⟩
  touched id f'' hf'' he := by
    rcases h'.touched id f'' hf'' he with ⟨f', hf', he'⟩ | hv
    · rcases h.touched id f' hf' he' with hs | ⟨w, hw⟩
      · exact .inl hs
      · exact .inr ⟨w, h'.visits hw⟩
    · exact .inr hv
  revision := Nat.le_trans h.revision h'.revision
  standing hfree hr w hw := by
    -- writes are counted, so that there was none in either half
    have hle := h.revision
    have hle' := h'.revision
    rw [h'.standing hfree (by omega) w hw, h.standing hfree (by omega) w hw]

theorem Grows.of_arrives (h : s.Arrives n w id data t) : s.Grows n t := by
  have hrev : t.handle.revision = s.handle.revision := by
    obtain ⟨store, rfl⟩ := h.rest
    rfl
  refine ⟨h.subset, h.epoch, fun hfree j f hf => ?_, fun j f' hf' he => ?_, Nat.le_of_eq hrev.symm,
    fun hfree _ u hu => h.standing hfree hu⟩
  · by_cases hj : j = id
    · subst hj
      obtain ⟨g, hg, hp, -⟩ := h.frame
      obtain ⟨hpar, hk⟩ := h.same hfree f g hf hg
      exact ⟨g, hg, hp.trans (h.again f hf).symm, hpar, hk⟩
    · exact ⟨f, (h.other j hj).trans hf, rfl, rfl, rfl⟩
  · by_cases hj : j = id
    · subst hj
      exact .inr ⟨w, h.visits ▸ List.mem_cons_self⟩
    · exact .inl ⟨f', (h.other j hj).symm.trans hf', he.trans h.epoch⟩

/-- A write is counted. -/
theorem revision_write {h h' : Handle} {scope : ScopeId} {ns : String} {keys : List String}
    {v : Value} (hw : h.write scope ns keys v = .ok h') : h'.revision = h.revision + 1 := by
  cases hs : h.store.write scope ns keys v with
  | error e => rw [Handle.write_error hs] at hw; cases hw
  | ok r =>
    obtain ⟨h₁, hw₁, -, hr⟩ := Handle.write_ok hs
    rw [hw] at hw₁
    cases hw₁
    exact hr

instance : AllowsBuilding n (Grows n) where
  trans _ _ _ := .trans
  inner s t hh hv :=
    .of_outline (AllowsEvaluation.inner s t hh hv) (Nat.le_of_eq (by rw [hh])) fun _ _ u _ => by
      unfold Session.standing dataAt Session.store
      rw [hh]
  write s scope ns keys v h hw := by
    have hr := revision_write hw
    refine .of_outline (AllowsEvaluation.write s scope ns keys v h hw) ?_ fun _ he => ?_
    · simp only
      omega
    · simp only at he
      omega
  enter h _ := .of_arrives h

end Session

end Trellis
