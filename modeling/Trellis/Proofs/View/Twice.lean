import Trellis.Proofs.Build.Together
import Trellis.Proofs.View.Passes

/-!
# Two passes

Two passes over one schema are abreast from the beginning if the same stands on the ways the first
one goes, and then they come to the same.

* `Tandem.Begins.abreast`: passes that begin abreast.
* `Tandem.passes_meet`: what two passes come to.
-/

namespace Trellis

open Schema Session Act Value

namespace Tandem

variable {c : Tandem} {s t : Session} {N C : Type} {b : Builder N C} {L : Pairs → N → N → Prop}

/-- The schema can be built in place, and its literals count as the same as themselves. -/
structure Regular (c : Tandem) : Prop where
  orderly : c.schema.All Node.Orderly
  shared : c.schema.All (Node.Over c.Shared)

/-- Where two passes begin. -/
def Pairs.root : Pairs := fun w i j => w = [] ∧ i = Store.rootId ∧ j = Store.rootId

/-- Two passes over the schema, each in its own session; the same stands on the ways that are
watched. -/
structure Begins (c : Tandem) (s t : Session) : Prop where
  left : c.left = s.begun
  right : c.right = t.begun
  before : s.Built c.schema
  after : t.Built c.schema
  root : c.watched []
  stands : ∀ w, c.watched w → ((Locus.content c.schema).after w).isSome →
    Alike (c.fellows Pairs.root) (s.standing c.schema w) (t.standing c.schema w)

/-- **Passes begin abreast** if the same stands on the ways that are watched. -/
theorem Begins.abreast (h : c.Begins s t) : c.Abreast Pairs.root s.begun t.begun := by
  have hhas : ∀ {u : Session} {w i}, u.begun.Has w i ↔ w = [] ∧ i = Store.rootId :=
    or_iff_left nofun
  refine ⟨h.before.beginPass, h.after.beginPass, fun w => ?_, fun w i j => ?_,
    fun w i j hi hj => ?_, fun w hw hleads _ => ?_, ?_⟩
  · simp only [hhas]
  · simp only [hhas, Pairs.root]
    tauto
  · obtain ⟨rfl, -⟩ := hhas.1 hi
    obtain ⟨f, hf, hp⟩ := hi.frame h.before.beginPass
    obtain ⟨g, hg, hq⟩ := hj.frame h.after.beginPass
    have hstands := h.stands [] h.root rfl
    rw [← standing_begun, ← standing_begun (s := t)] at hstands
    unfold Session.standing at hstands
    rw [dataAt_eq h.before.beginPass.placed.sound hf hp,
      dataAt_eq h.after.beginPass.placed.sound hg hq] at hstands ⊢
    exact .some hstands
  · rw [standing_begun, standing_begun]
    exact h.stands w hw hleads
  · rw [h.left, h.right]
    exact .start

/-- **Building a whole schema.** -/
theorem root_together (hc : c.Fair) (hn : c.Regular) (hb : c.Steady b L)
    (hagrees : c.Agrees b.config) :
    c.Together Pairs.root (fun P => Option.Rel (L P)) (b.root c.schema) (b.root c.schema) := by
  unfold Builder.root
  split
  · exact .throw _
  · next hloop =>
    exact place_together hc Site.Lists.root (by simpa using hloop) ⟨rfl, rfl, rfl⟩
      (fun site hsite => Node.build_stays hb.respects c.schema site hn.orderly hsite)
      (build_together hc hb hagrees c.schema hn.orderly hn.shared _)

/-- **Two passes** come to the same if the same stands on the ways the first one goes. -/
theorem passes_meet (hc : c.Fair) (hn : c.Regular) (hb : c.Steady b L)
    (hagrees : c.Agrees b.config) (h : c.Begins s t)
    (hwatched : ∀ v ∈ ((b.root c.schema).runOn s.begun).2.visits, c.watched v.way) :
    c.Meets Pairs.root (fun P => Option.Rel (L P)) ((b.root c.schema).runOn s.begun)
      ((b.root c.schema).runOn t.begun) :=
  root_together hc hn hb hagrees _ _ h.abreast hwatched

end Tandem

end Trellis
