import Trellis.Proofs.Lexical.Interpreter
import Trellis.Proofs.Resolved
import Trellis.Proofs.Scope.Chain

/-!
# Layers and frames

The layers around a node are what the store has on the chain of its scope, the root apart. So a
binding is read in the layers as it is from the scope.

* `Store.Sees`: the frames from a scope outwards are the given layers.
* `Store.Sees.get`, `Store.Sees.resolve`: paths and bindings.
-/

namespace Trellis

namespace Store

/-- The frames from a scope outwards are the given layers, and then the root. -/
inductive Sees (s : Store) : ScopeId → Env → Prop
  | root {f : Frame} (h : s.frame? rootId = some f) (hp : f.parent = none) (hk : f.kind = .root) :
    Sees s rootId []
  | inner {id p : ScopeId} {f : Frame} {env : Env} (h : s.frame? id = some f)
    (hp : f.parent = some p) (hlt : p < id) (outer : Sees s p env) :
    Sees s id (⟨f.kind, f.data⟩ :: env)

variable {s t : Store} {id : ScopeId} {env : Env}

/-- Frames that stay as they are stay layers. -/
theorem Sees.mono (h : s.Sees id env) (hst : ∀ i f, s.frame? i = some f → t.frame? i = some f) :
    t.Sees id env := by
  induction h with
  | root h hp hk => exact .root (hst _ _ h) hp hk
  | inner h hp hlt _ ih => exact .inner (hst _ _ h) hp hlt ih

/-- **The chain** of the scope holds the layers. -/
theorem Sees.chain (h : s.Sees id env) : (s.chain id).2 = true ∧
    ∃ data, (s.chain id).1.map (fun e => Layer.mk e.2.kind e.2.data) = env ++ [⟨.root, data⟩] := by
  induction h with
  | @root f h hp hk =>
    rw [Store.chain, chainFrom_root h hp]
    exact ⟨rfl, f.data, by rw [← hk]; rfl⟩
  | @inner id p f env h hp hlt _ ih =>
    obtain ⟨hwhole, data, hlayers⟩ := ih
    rw [chain_parent h hp hlt hwhole]
    exact ⟨rfl, data, congrArg (Layer.mk f.kind f.data :: ·) hlayers⟩

/-- The nearest frame of a kind holds what the innermost layer of that kind does. -/
theorem Sees.nearest? (h : s.Sees id env) (kind : FrameKind) (hk : kind ≠ .root) :
    ∃ found, s.nearest? id kind = .ok found ∧ found.map (fun e => e.2.data) = env.find kind := by
  obtain ⟨hwhole, data, hlayers⟩ := h.chain
  have hfind : ((s.chain id).1.find? fun e => e.2.kind = kind).map (fun e => e.2.data) =
      env.find kind := by
    have hmap := List.find?_map (p := fun l : Layer => decide (l.kind = kind))
      (f := fun e : ScopeId × Frame => Layer.mk e.2.kind e.2.data) (l := (s.chain id).1)
    rw [hlayers, List.find?_append] at hmap
    have hroot : [Layer.mk .root data].find? (fun l => decide (l.kind = kind)) = none := by
      simp [hk.symm]
    rw [hroot, Option.or_none] at hmap
    unfold Env.find
    rw [hmap, Option.map_map]
    rfl
  refine ⟨(s.chain id).1.find? fun e => e.2.kind = kind, ?_, hfind⟩
  unfold Store.nearest?
  simp only [hwhole, if_true]
  cases (s.chain id).1.find? fun e => e.2.kind = kind <;> rfl

/-- **Paths** lead from a scope where they lead in its layers. -/
theorem Sees.get (h : s.Sees id env) (path : Path) : s.get id path = env.get path := by
  unfold Store.get Env.get Env.root
  cases path.slot with
  | none =>
    obtain ⟨found, hnear, hfind⟩ := h.nearest? (.space path.ns) (by simp)
    simp only [space, hnear, ← hfind]
    cases found <;> rfl
  | some slot =>
    obtain ⟨found, hnear, hfind⟩ := h.nearest? (.slot path.ns slot) (by simp)
    simp only [slotFrame, hnear, ← hfind]
    cases found <;> rfl

end Store

/-- **Bindings** stand for what they do in the layers if expressions are switched off. -/
theorem Store.Sees.resolve {s : Session} {id : ScopeId} {env : Env}
    (h : s.handle.store.Sees id env) {config : Config} (hoff : config.expressions = false)
    (b : Binding) : Act.Reads s (b.resolve config id) (env.value b) := by
  cases b with
  | literal v => rfl
  | path p =>
    unfold Act.Reads
    rw [Binding.resolve, Act.runOn_scopes, h.get]
    rfl
  | expression raw =>
    unfold Act.Reads
    rw [Binding.resolve, hoff]
    rfl

end Trellis
