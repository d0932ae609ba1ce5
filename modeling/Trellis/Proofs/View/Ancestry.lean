import Trellis.Proofs.Build.Once
import Trellis.Proofs.View.Frames
import Trellis.Proofs.View.Recovery

/-!
# Live frames have live ancestors

A pass touches a frame only inside one it has touched, and the frames it did not touch are dropped
together; so no frame outlives the one around it, whether passes succeed or fail. This holds of
every schema without a slash in the names of its slots, loaded or not.

* `Session.Built.parent_live`: the frame around a live frame.
* `Session.Built.chain_ends`: the chain of a live frame ends at the root.
* `View.live_ancestors`: both, after every run.
-/

namespace Trellis

open Schema

namespace Session

variable {n : Node} {s : Session} {id : ScopeId} {f : Frame}

/-- **The frame around a live frame** is live, and found at the address that its own goes on
from. -/
theorem Built.parent_live (h : s.Built n) (hfree : n.ClashFree) (hf : s.store.frame? id = some f)
    (hid : id ≠ Store.rootId) :
    ∃ p g segment, f.parent = some p ∧ s.store.frame? p = some g ∧
      f.path = g.path ++ "/" ++ segment ∧ s.store.scopeAt? g.path = some p := by
  obtain ⟨o, step, p, g, -, hseat⟩ := (h.nested hfree).seat id f hf hid
  refine ⟨p, g, step.segment, hseat.parent, hseat.outer, ?_, h.placed.sound.indexed p g hseat.outer⟩
  rw [hseat.path, Way.address_append, hseat.around]

/-- **The chain** of a live frame ends at the root. -/
theorem Built.chain_ends (h : s.Built n) (hfree : n.ClashFree) :
    ∀ (id : ScopeId) (f : Frame), s.store.frame? id = some f →
      ∃ inner root, s.store.frame? Store.rootId = some root ∧
        s.store.chain id = (inner ++ [(Store.rootId, root)], true) := by
  intro id
  induction id using Nat.strongRecOn with
  | ind id ih =>
    intro f hf
    by_cases hid : id = Store.rootId
    · subst hid
      obtain ⟨root, hroot, -, hparent, -⟩ := h.placed.sound.root
      exact ⟨[], root, hroot, by rw [Store.chain, Store.chainFrom_root hroot hparent]; rfl⟩
    · obtain ⟨o, step, p, g, -, hseat⟩ := (h.nested hfree).seat id f hf hid
      obtain ⟨inner, root, hroot, hchain⟩ := ih p hseat.older g hseat.outer
      refine ⟨(id, f) :: inner, root, hroot, ?_⟩
      rw [Store.chain_parent hf hseat.parent hseat.older (by rw [hchain]), hchain]
      rfl

end Session

/-- **Live ancestors.** After any run of a view without a slash in the names of its slots, every
live frame but the root has a live parent, of whose address its own is one segment longer and which
is the frame found there; and every walk from a live frame outwards gets to the root. -/
theorem View.live_ancestors {N C : Type} {n : Node} {b : Builder N C} (hb : b.Confined)
    (hslots : n.All fun k => k.slots.Distinct) (hnames : n.All Node.Unslashed) (k : Nat)
    (moves : List Move) :
    let s := ((View.mount n b k).run moves).session.store
    ∀ id f, s.frame? id = some f →
      (id ≠ Store.rootId → ∃ p g segment, f.parent = some p ∧ s.frame? p = some g ∧
        f.path = g.path ++ "/" ++ segment ∧ s.scopeAt? g.path = some p) ∧
      (∃ inner root, s.frame? Store.rootId = some root ∧
        s.chain id = (inner ++ [(Store.rootId, root)], true)) ∧
      ∀ kind, ∃ found, s.nearest? id kind = .ok found := by
  intro s id f hf
  have h := ((View.mount_once n b k).run hb (Node.orderly_once hslots) moves).session
  have hfree : n.once.ClashFree := Node.clashFree_once hnames
  have hchain := h.chain_ends hfree id f hf
  refine ⟨h.parent_live hfree hf, hchain, fun kind => ⟨_, Store.nearest?_of_whole ?_ kind⟩⟩
  obtain ⟨inner, root, -, hchain⟩ := hchain
  rw [hchain]

/-- A list that a render failed to show to its end: the turn it opened last is live, inside the
list. -/
theorem View.live_ancestors_list :
    let s := ((View.mount listNode (Builder.bare Config.default) 0).run
      (failingMoves ++ [.render])).session.store
    ∃ f, s.frame? 5 = some f ∧ f.path = "/0:n/0:m/[2]" ∧ f.parent = some 2 ∧
      (5 ≠ Store.rootId → ∃ p g segment, f.parent = some p ∧ s.frame? p = some g ∧
        f.path = g.path ++ "/" ++ segment ∧ s.scopeAt? g.path = some p) ∧
      (∃ inner root, s.frame? Store.rootId = some root ∧
        s.chain 5 = (inner ++ [(Store.rootId, root)], true)) ∧
      ∀ kind, ∃ found, s.nearest? 5 kind = .ok found := by
  intro s
  have hlive : (s.frame? 5).map (fun f => (f.path, f.parent)) = some ("/0:n/0:m/[2]", some 2) := by
    decide +kernel
  obtain ⟨f, hf, hfields⟩ := Option.map_eq_some_iff.1 hlive
  obtain ⟨hpath, hparent⟩ := Prod.mk.inj hfields
  exact ⟨f, hf, hpath, hparent, View.live_ancestors (Builder.bare_confined Config.default)
    listNode_distinct listNode_unslashed 0 _ 5 f hf⟩

end Trellis
