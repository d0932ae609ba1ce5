import Trellis.Proofs.Scope.Ageless
import Trellis.Proofs.View.Run
import Mathlib.Data.List.Induction

/-!
# Frames between passes

What building keeps is said of the frames of a pass that is going on. Between passes a slot may be
asked whose owner was entered by an earlier one, so that frames are touched inside frames that are
not; but where the frames are, and inside which others, is still as building leaves it.

* `Session.Grounded`: the frames are in place, whichever pass touched what.
* `Session.Grounded.begun`: a pass can begin then.
* `Session.Grounded.settle`: and building can go on from any frame that is live.
-/

namespace Trellis

open Schema

namespace Session

/-- The session whichever pass touched what, in which nothing was entered. -/
def ageless (s : Session) : Session :=
  { s.withStore s.store.ageless with visits := [] }

variable {n : Node} {s t : Session} {w : Way} {id : ScopeId} {f : Frame}

/-- The data at the end of a way is no matter of passes. -/
theorem dataAt_of_ageless (h : t.store.ageless = s.store.ageless) (w : Way) :
    t.dataAt w = s.dataAt w := by
  have hframe : ∀ id, (t.store.frame? id).map Frame.data = (s.store.frame? id).map Frame.data := by
    intro id
    have hid := congrArg (fun r : Store => (r.frame? id).map Frame.data) h
    simp only [Store.frame?_ageless, Option.map_map] at hid
    exact hid
  unfold dataAt Store.scopeAt?
  rw [(Store.of_ageless h).1]
  cases Members.get? s.store.addresses w.address with
  | none => rfl
  | some id => exact hframe id

/-- Nor is what stands there. -/
theorem standing_of_ageless (h : t.store.ageless = s.store.ageless) (w : Way) :
    t.standing n w = s.standing n w := by
  unfold standing
  rw [dataAt_of_ageless h]

/-- **Which pass touched what** is no matter, as long as frames that are touched are inside such
frames. -/
theorem Built.of_ageless (hs : s.Built n) (ht : t.store.Sound) (hv : t.visits = [])
    (h : t.store.ageless = s.store.ageless)
    (htouched : ∀ id f p g, t.store.frame? id = some f → id ≠ Store.rootId →
      f.epoch = t.store.epoch → t.store.frame? p = some g → g.epoch = t.store.epoch) :
    t.Built n where
  placed := ⟨ht, by rw [hv]; exact nofun, by rw [hv]; exact nofun⟩
  nested hfree := by
    refine ⟨fun id f hf hid => ?_, by rw [hv]; exact nofun⟩
    -- the frame and the one around it are in both stores
    obtain ⟨f₀, hf₀, hff⟩ := Store.frame?_of_ageless h.symm hf
    obtain ⟨o, step, p, g₀, hafter, hseat⟩ := (hs.nested hfree).seat id f₀ hf₀ hid
    obtain ⟨g, hg, hgg⟩ := Store.frame?_of_ageless h hseat.outer
    obtain ⟨hpath, hparent, hkind, -⟩ := Frame.of_ageless hff
    obtain ⟨hgpath, -⟩ := Frame.of_ageless hgg
    exact ⟨o, step, p, g, hafter, hpath.symm.trans hseat.path, hkind.symm.trans hseat.kind,
      hparent.symm.trans hseat.parent, hseat.older, hg, hgpath.trans hseat.around,
      fun he => htouched id f p g hf hid he hg⟩

/-- The frames are those that building leaves, whichever pass touched what. -/
structure Grounded (n : Node) (s : Session) : Prop where
  sound : s.store.Sound
  built : s.ageless.Built n

theorem Built.grounded (hs : s.Built n) : s.Grounded n where
  sound := hs.placed.sound
  built := by
    refine hs.of_ageless hs.placed.sound.ageless rfl Store.ageless_ageless ?_
    intro _ _ p g _ _ _ hg
    change s.store.ageless.frame? p = some g at hg
    rw [Store.frame?_ageless] at hg
    obtain ⟨g₀, -, rfl⟩ := Option.map_eq_some_iff.1 hg
    rfl

namespace Grounded

/-- So it is in stores that differ in passes alone. -/
theorem of_scopes (h : s.Grounded n) (ht : t.store.Sound)
    (hst : t.store.ageless = s.store.ageless) : t.Grounded n :=
  ⟨ht, h.built.of_outline ⟨congrArg Store.outline hst, rfl⟩⟩

/-- Data is no matter. -/
theorem of_outline (h : s.Grounded n) (ho : t.store.outline = s.store.outline) : t.Grounded n := by
  refine ⟨h.sound.of_outline ho, h.built.of_outline ⟨?_, rfl⟩⟩
  change t.store.ageless.outline = s.store.ageless.outline
  rw [Store.outline_ageless, ho, Store.outline_ageless]

/-- **A pass** can begin. -/
theorem begun (h : s.Grounded n) : s.begun.Built n := by
  refine h.built.of_ageless h.sound.beginPass rfl ?_ ?_
  · change s.store.beginPass.ageless = s.store.ageless.ageless
    rw [Store.ageless_beginPass, Store.ageless_ageless]
  · -- nothing but the root is touched then
    intro id f _ _ hf hid he
    change s.store.beginPass.frame? id = some f at hf
    rw [Store.frame?_beginPass] at hf
    obtain ⟨f₀, hf₀, rfl⟩ := Option.map_eq_some_iff.1 hf
    have hpast := h.sound.past id f₀ hf₀
    rw [Store.changed, if_neg hid] at he
    change f₀.epoch = s.store.epoch + 1 at he
    omega

/-- **Building can go on** from the frame at the end of a way, in a session whose scopes are the
same whichever pass touched what, and in which the frames along the way were entered. -/
theorem settle (h : s.Grounded n) (hfree : n.ClashFree) (hw : ((Locus.content n).after w).isSome)
    (hf : s.store.frame? id = some f) (hp : f.path = w.address) :
    ∃ t : Session, t.store = s.store.ageless ∧ t.Built n ∧ t.Has w id ∧
      ∀ u, (∃ i, t.Has u i) ↔ u <+: w := by
  induction w using List.reverseRecOn generalizing id f with
  | nil =>
    obtain ⟨root, hroot, hpath, -⟩ := h.sound.root
    obtain rfl := h.sound.eq_of_path hf hroot (hp.trans hpath.symm)
    refine ⟨s.ageless, rfl, h.built, .inl ⟨rfl, rfl⟩, fun u => ?_⟩
    rw [List.prefix_nil]
    exact ⟨fun ⟨_, hu⟩ => (hu.resolve_right nofun).1, fun hu => ⟨_, .inl ⟨hu, rfl⟩⟩⟩
  | append_singleton o step ih =>
    have hinside : f.path = { Frame.root with path := Way.address o }.address step.segment :=
      hp.trans (Way.address_append o step)
    have hroot : id ≠ Store.rootId := h.sound.ne_root hf hinside
    have hlive : s.store.ageless.frame? id = some f.ageless := by
      rw [Store.frame?_ageless, hf]
      rfl
    -- the frame around it is at the end of the shorter way, since no ways clash
    obtain ⟨o', step', p, g, hafter, hseat⟩ := (h.built.nested hfree).seat id _ hlive hroot
    have hways : o' ++ [step'] = o ++ [step] :=
      way_unique hfree hafter hw (hseat.path.symm.trans hp)
    obtain ⟨rfl, -⟩ := List.append_inj' hways rfl
    obtain ⟨g₀, hg₀, rfl⟩ : ∃ g₀, s.store.frame? p = some g₀ ∧ g₀.ageless = g := by
      have houter : s.store.ageless.frame? p = some g := hseat.outer
      rw [Store.frame?_ageless] at houter
      exact Option.map_eq_some_iff.1 houter
    obtain ⟨t, ht, hbuilt, hhas, hgone⟩ := ih (Locus.leads_of_append hw) hg₀ hseat.around
    have htouched : t.Touched (o' ++ [step]) id := by
      refine ⟨f.ageless, ?_, hp, ?_⟩
      · rw [ht, hlive]
      · rw [ht]
        rfl
    refine ⟨{ t with visits := ⟨o' ++ [step], id⟩ :: t.visits }, ht, hbuilt.visit hhas hw htouched,
      .inr List.mem_cons_self, fun u => ?_⟩
    rw [List.prefix_concat_iff, ← hgone u]
    constructor
    · rintro ⟨i, hroot | hi⟩
      · exact .inr ⟨i, .inl hroot⟩
      · rcases List.mem_cons.1 hi with hi | hi
        · exact .inl (congrArg Visit.way hi)
        · exact .inr ⟨i, .inr hi⟩
    · rintro (rfl | ⟨i, hi⟩)
      · exact ⟨id, .inr List.mem_cons_self⟩
      · exact ⟨i, hi.mono (List.subset_cons_self _ _)⟩

end Grounded

end Session

end Trellis
