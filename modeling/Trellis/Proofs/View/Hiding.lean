import Trellis.Proofs.Build.Hiding
import Trellis.View

/-!
# Views with one node shown or hidden

Whether a node is shown changes nothing about a render pass but the style of the elements that stand
for the node.

* `View.show_hides`: one pass over the variants of a schema, from any session.
-/

namespace Trellis

open Act (OneUpTo)
open Rendered (Marked)

namespace View

theorem pass_oneUpTo (config : Config) (place : List Schema.Branch) (schema : Schema.Node) :
    OneUpTo drawnNode fun w => pass (schema.edit (·.vary w) place) (.trees .empty config) := by
  refine .bind_same _ fun _ => ?_
  refine .bind (Builder.root_oneUpTo config place schema) fun node => ?_
  exact .bind_same _ fun _ => .pure node fun _ => rfl

/-- An outcome is known from what is drawn of it for all variants. -/
theorem outcome_inj : ∀ {x y : Except Fault (Option Marked)},
    (∀ w, x.map (drawnNode w) = y.map (drawnNode w)) → x = y
  | .error _, .error _, h => congrArg Except.error (Except.error.inj (h .plain))
  | .error _, .ok _, h | .ok _, .error _, h => nomatch h .plain
  | .ok none, .ok none, _ => rfl
  | .ok none, .ok (some _), h | .ok (some _), .ok none, h => nomatch Except.ok.inj (h .plain)
  | .ok (some m), .ok (some n), h => by
    have hdrawn : ∀ w, m.drawn w = n.drawn w := fun w => Option.some.inj (Except.ok.inj (h w))
    rw [Marked.drawn_inj hdrawn]

/-- **Showing only hides.** At one node of a schema, at any place, `show` is set and the reference
exchanged. All variants come to one outcome and leave one session, but that in the elements marked
in the outcome the style is that of the shown ones without its `display`, and with a `display` of
`none` behind. The marked elements are those whose reference follows that of the node: its copies,
and no others. -/
theorem show_hides (config : Config) (schema : Schema.Node) (place : List Schema.Branch)
    (s : Session) (subscriber : Nat) (settled : Option Nat) :
    ∃ (outcome : Except Fault (Option Marked)) (t : Session) (settled' : Option Nat),
      (∀ w : Variant,
        View.render ⟨schema.edit (·.vary w) place, .trees .empty config, s, subscriber, settled⟩ =
          (outcome.map (drawnNode w),
            ⟨schema.edit (·.vary w) place, .trees .empty config, t, subscriber, settled'⟩)) ∧
      ∀ other : Except Fault (Option Marked),
        (∀ w, other.map (drawnNode w) = outcome.map (drawnNode w)) → other = outcome := by
  obtain ⟨outcome, t, hpass⟩ := (pass_oneUpTo config place schema).runOn s
  cases outcome with
  | error e =>
    refine ⟨.error e, t, settled, fun w => ?_, fun _ => outcome_inj⟩
    unfold render perform
    rw [hpass]
    rfl
  | ok node =>
    refine ⟨.ok node, t, some (t.handle.heard subscriber).length, fun w => ?_, fun _ => outcome_inj⟩
    unfold render perform
    rw [hpass]
    rfl

end View

end Trellis
