import Trellis.Proofs.Members
import Trellis.Proofs.Script.Free
import Trellis.Script

/-!
# Dependencies in the order of first use

Without defaults of parameters, the dependencies of a script are told from its expression alone,
although they are found in the tree that it comes from: they are its free names but those that every
expression knows, each where it occurs first (`Script.dependencies_exact`).
-/

namespace Trellis

theorem globalValue?_eq_none {name : String} :
    globalValue? name = none ↔ name ∉ ["undefined", "NaN", "Infinity"] := by
  unfold globalValue?
  split <;> simp_all

/-- **Dependencies** of a source that compiles, without defaults of parameters: the names that occur
in the expression where no function around has a parameter of the name, each once and in the order
in which they first occur, but those that every expression knows. -/
theorem Script.dependencies_exact {source : String} {script : Script}
    (hcompile : Script.compile source = .ok script)
    (hdefaults : ∀ tree ∈ Script.Syntax.parse? source, tree.defaults = []) :
    (∀ ns, ns ∈ script.dependencies ↔
      ns ∈ script.expr.freeNames ∧ ns ∉ ["undefined", "NaN", "Infinity"]) ∧
    script.dependencies.Nodup ∧
    script.dependencies.Pairwise (FirstUse script.expr.freeNames) := by
  unfold Script.compile at hcompile
  split at hcompile
  · cases hcompile
  next tree htree =>
  split at hcompile
  · next expr hlower =>
    cases hcompile
    have hfree : tree.freeNames = expr.freeNames :=
      Script.Syntax.freeNames_eq hlower (hdefaults tree htree)
    have horder : tree.dependencies.Pairwise (FirstUse expr.freeNames) :=
      hfree ▸ eraseDups_firstUse tree.freeNames _
    refine ⟨fun ns => ?_, horder.imp fun h heq => ?_, horder⟩
    · rw [← hfree, ← globalValue?_eq_none, Script.Syntax.dependencies, List.mem_eraseDups,
        List.mem_filter, Option.isNone_iff_eq_none]
    · exact Nat.lt_irrefl _ (heq ▸ h)
  · cases hcompile

/-- A source in which `a` is a parameter in one place and a namespace in another. -/
def Script.shadowing : String := "(a => a.k = b)(NaN) + a"

/-- A name is depended on where it is that of a namespace. -/
theorem Script.dependencies_exact_shadowing :
    (∀ tree ∈ Script.Syntax.parse? Script.shadowing, tree.defaults = []) ∧
      ∃ script, Script.compile Script.shadowing = .ok script ∧
        script.dependencies = ["b", "a"] ∧ FirstUse script.expr.freeNames "b" "a" := by
  have hdefaults : ∀ tree ∈ Script.Syntax.parse? Script.shadowing, tree.defaults = [] := by
    have hempty : (Script.Syntax.parse? Script.shadowing).all (·.defaults.isEmpty) = true := by
      decide +kernel
    intro tree htree
    rw [Option.mem_def] at htree
    rw [htree] at hempty
    exact List.isEmpty_iff.1 hempty
  have hdeps : (Script.compile Script.shadowing).toOption.any
      (·.dependencies == ["b", "a"]) = true := by
    decide +kernel
  cases hcompile : Script.compile Script.shadowing with
  | error fault =>
    rw [hcompile] at hdeps
    cases hdeps
  | ok script =>
    rw [hcompile] at hdeps
    have horder := (Script.dependencies_exact hcompile hdefaults).2.2
    have hlist : script.dependencies = ["b", "a"] := eq_of_beq hdeps
    rw [hlist, List.pairwise_pair] at horder
    exact ⟨hdefaults, script, rfl, hlist, horder⟩

end Trellis
