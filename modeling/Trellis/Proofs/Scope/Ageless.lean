import Trellis.Proofs.Scope.Sight
import Trellis.Proofs.Scope.Sound

/-!
# Stores, whichever pass touched what

Which pass touched a frame last decides which frames the end of a pass drops, and nothing else. So
stores that differ in that alone are read the same, and whatever is opened or set in both leaves
stores that differ in that alone.

* `Store.ageless`: a store, whichever pass touched what.
* `Store.get_ageless`: reading.
* `Store.Timeless`: changes that come to the same then; `Store.timeless_openSpace` and the others
  say so of the operations.
-/

namespace Trellis

/-- A frame, whichever pass touched it last. -/
def Frame.ageless (f : Frame) : Frame := { f with epoch := 0 }

/-- Frames that differ in passes alone are in the same place, stand for the same and hold the same. -/
theorem Frame.of_ageless {f g : Frame} (h : f.ageless = g.ageless) :
    f.path = g.path ∧ f.parent = g.parent ∧ f.kind = g.kind ∧ f.data = g.data := by
  injection h with hpath hparent hkind hdata
  exact ⟨hpath, hparent, hkind, hdata⟩

namespace Store

/-- A store, whichever pass touched what. -/
def ageless (s : Store) : Store :=
  ({ s with epoch := 0 } : Store).mapFrames fun _ => Frame.ageless

variable {s t : Store} {id : ScopeId} {f : Frame} {α : Type}

theorem frame?_ageless : s.ageless.frame? id = (s.frame? id).map Frame.ageless :=
  frame?_mapFrames _

theorem Sound.ageless (h : s.Sound) : s.ageless.Sound :=
  h.mapFrames (fun _ _ => rfl) (fun _ _ _ => Nat.le_refl 0) fun _ _ => ⟨rfl, rfl, rfl⟩

/-- Stores that differ in passes alone have the same addresses, and the same number comes next. -/
theorem of_ageless (h : s.ageless = t.ageless) :
    s.addresses = t.addresses ∧ s.nextId = t.nextId := by
  injection h with _ haddresses hnext
  exact ⟨haddresses, hnext⟩

/-- A frame of the one store is in the other one, but for the pass that touched it. -/
theorem frame?_of_ageless (h : t.ageless = s.ageless) (hf : s.frame? id = some f) :
    ∃ g, t.frame? id = some g ∧ g.ageless = f.ageless := by
  have ht : t.ageless.frame? id = some f.ageless := by
    rw [h, frame?_ageless, hf]
    rfl
  rw [frame?_ageless] at ht
  exact Option.map_eq_some_iff.1 ht

/-- Changing a frame in a way that is no matter of passes. -/
theorem ageless_modify {g g' : Frame → Frame} (hg : ∀ f, (g f).ageless = g' f.ageless) :
    (s.modify id g).ageless = s.ageless.modify id g' := by
  unfold ageless mapFrames modify
  simp only [List.map_map, Function.comp_def]
  congr 1
  refine List.map_congr_left fun e _ => ?_
  by_cases he : e.1 = id
  · simp only [he, if_true, hg]
  · simp only [he, if_false]

/-- The beginning of a pass is a matter of passes alone. -/
theorem ageless_beginPass : s.beginPass.ageless = s.ageless := by
  let g : Frame → Frame := fun f => { f with epoch := s.epoch + 1 }
  have hg : ∀ f, (g f).ageless = (fun f => f) f.ageless := fun _ => rfl
  exact (ageless_modify hg).trans (modify_self _ _)

theorem outline_ageless : s.ageless.outline = s.outline.ageless := by
  unfold ageless outline mapFrames
  simp only [List.map_map, Function.comp_def]
  rfl

/-! ### Reading -/

theorem chainFrom_ageless (n : Nat) : s.ageless.chainFrom n id =
    ((s.chainFrom n id).1.map fun e => (e.1, e.2.ageless), (s.chainFrom n id).2) := by
  have hepoch : ∀ m j, ({ s with epoch := 0 } : Store).chainFrom m j = s.chainFrom m j := by
    intro m
    induction m with
    | zero => exact fun _ => rfl
    | succ m ih =>
      intro j
      rw [chainFrom, chainFrom]
      simp only [ih]
      rfl
  rw [ageless, chainFrom_mapFrames (g := fun _ => Frame.ageless) fun _ _ => rfl, hepoch]

/-- The nearest frame of a kind is the same, but for the pass that touched it. -/
theorem nearest?_ageless (scope : ScopeId) (kind : FrameKind) : s.ageless.nearest? scope kind =
    (s.nearest? scope kind).map (Option.map fun e => (e.1, e.2.ageless)) := by
  have hfind : (s.ageless.chain scope).1.find? (fun e => e.2.kind = kind) =
      ((s.chain scope).1.find? fun e => e.2.kind = kind).map fun e => (e.1, e.2.ageless) := by
    rw [chain, chainFrom_ageless, List.find?_map]
    rfl
  have hwhole : (s.ageless.chain scope).2 = (s.chain scope).2 := by
    rw [chain, chainFrom_ageless]
    rfl
  unfold nearest?
  simp only [hfind, hwhole]
  cases (s.chain scope).1.find? fun e => e.2.kind = kind with
  | some e => rfl
  | none => cases (s.chain scope).2 <;> rfl

theorem space_ageless (scope : ScopeId) (ns : String) :
    s.ageless.space scope ns = (s.space scope ns).map fun e => (e.1, e.2.ageless) := by
  unfold space
  rw [nearest?_ageless]
  rcases s.nearest? scope (.space ns) with _ | _ | _ <;> rfl

theorem slotFrame_ageless (scope : ScopeId) (ns slot : String) :
    s.ageless.slotFrame scope ns slot =
      (s.slotFrame scope ns slot).map fun e => (e.1, e.2.ageless) := by
  unfold slotFrame
  rw [nearest?_ageless]
  rcases s.nearest? scope (.slot ns slot) with _ | _ | _ <;> rfl

/-- **Reading at a path** is no matter of passes. -/
theorem get_ageless (scope : ScopeId) (path : Path) :
    s.ageless.get scope path = s.get scope path := by
  unfold get
  cases path.slot with
  | none =>
    simp only [space_ageless]
    cases s.space scope path.ns <;> rfl
  | some slot =>
    simp only [slotFrame_ageless]
    cases s.slotFrame scope path.ns slot <;> rfl

/-! ### Changing -/

/-- What a change comes to, whichever pass touched what. -/
def agelessly : Except Fault (α × Store) → Except Fault (α × Store) :=
  Except.map fun r => (r.1, r.2.ageless)

/-- A change that is no matter of passes. -/
def Timeless (change : Store → Except Fault (α × Store)) : Prop :=
  ∀ s, agelessly (change s.ageless) = agelessly (change s)

/-- **A change that is no matter of passes** comes to the same in stores that differ in these
alone. -/
theorem Timeless.eq {change : Store → Except Fault (α × Store)} (h : Timeless change)
    (hst : s.ageless = t.ageless) : agelessly (change s) = agelessly (change t) := by
  rw [← h s, hst, h t]

@[simp] theorem ageless_ageless : s.ageless.ageless = s.ageless := by
  unfold ageless mapFrames
  simp only [List.map_map, Function.comp_def]
  rfl

/-- Changing a frame in two ways that differ in passes alone. -/
theorem modify_ageless (g' : Frame → Frame) {g₁ g₂ : Frame → Frame}
    (h₁ : ∀ f, (g₁ f).ageless = g' f.ageless) (h₂ : ∀ f, (g₂ f).ageless = g' f.ageless) :
    (s.ageless.modify id g₁).ageless = (s.modify id g₂).ageless := by
  rw [ageless_modify h₁, ageless_ageless, ageless_modify h₂]

/-- **Opening a frame** is no matter of passes. -/
theorem timeless_openFrame (parent : ScopeId) (segment : String) (kind : FrameKind) :
    Timeless fun s => s.openFrame parent segment kind := by
  intro s
  change agelessly (s.ageless.openFrame parent segment kind) =
    agelessly (s.openFrame parent segment kind)
  unfold openFrame
  cases hp : s.frame? parent with
  | none =>
    rw [frame?_ageless, hp]
    rfl
  | some outer =>
    have haddress : outer.ageless.address segment = outer.address segment := rfl
    have hscope : s.ageless.scopeAt? (outer.address segment) =
        s.scopeAt? (outer.address segment) := rfl
    simp only [frame?_ageless, hp, Option.map_some, haddress, hscope]
    cases ha : s.scopeAt? (outer.address segment) with
    | none =>
      change Except.ok _ = Except.ok _
      unfold ageless mapFrames
      simp only [List.map_cons, List.map_map, Function.comp_def]
      rfl
    | some id =>
      simp only
      cases hf : s.frame? id with
      | none => rfl
      | some f =>
        have hkind : f.ageless.kind = f.kind := rfl
        simp only [Option.map_some, hkind]
        -- the epoch that the frame gets is no matter either
        split
        · exact congrArg (fun u => Except.ok ((id, false), u))
            (modify_ageless (fun f => f) (fun _ => rfl) fun _ => rfl)
        · exact congrArg (fun u => Except.ok ((id, true), u))
            (modify_ageless (fun f => { f with kind := kind, data := .empty }) (fun _ => rfl)
              fun _ => rfl)

theorem timeless_openSpace (parent : ScopeId) (segment ns : String) :
    Timeless fun s => s.openSpace parent segment ns :=
  timeless_openFrame parent segment (.space ns)

/-- A change of data after one that is no matter of passes. -/
theorem Timeless.modify {change : Store → Except Fault (α × Store)} (h : Timeless change) {β : Type}
    (at? : α → ScopeId) (k : α → β) {g : Frame → Frame} (hg : ∀ f, (g f).ageless = g f.ageless) :
    Timeless fun s => (change s).map fun r => (k r.1, r.2.modify (at? r.1) g) := by
  intro s
  have hs := h s
  simp only
  cases hx : change s.ageless with
  | error e =>
    rw [hx] at hs
    cases hy : change s with
    | error e' => rw [hy] at hs; cases hs; rfl
    | ok r' => rw [hy] at hs; cases hs
  | ok r =>
    rw [hx] at hs
    cases hy : change s with
    | error e' => rw [hy] at hs; cases hs
    | ok r' =>
      rw [hy] at hs
      obtain ⟨ha, ht⟩ := Prod.mk.inj (Except.ok.inj hs)
      refine congrArg Except.ok (Prod.ext (congrArg k ha) ?_)
      change (r.2.modify (at? r.1) g).ageless = (r'.2.modify (at? r'.1) g).ageless
      rw [ageless_modify hg, ageless_modify hg, ht, ha]

theorem timeless_openSlot (owner : ScopeId) (ns slot : String) (given : Value) :
    Timeless fun s => s.openSlot owner ns slot given := by
  have h := (timeless_openFrame owner (Step.slot ns slot).segment (.slot ns slot)).modify Prod.fst
    Prod.fst (g := fun f => { f with data := given }) fun _ => rfl
  convert h using 2 with s
  unfold openSlot
  cases s.openFrame owner (Step.slot ns slot).segment (.slot ns slot) <;> rfl

/-- **Adding data** is no matter of passes. -/
theorem timeless_addData (scope : ScopeId) (ns : String) (members : Members Value) :
    Timeless fun s => (s.addData scope ns members).map ((), ·) := by
  have hextend : ∀ f : Frame, (f.extend members).ageless = f.ageless.extend members := by
    intro f
    unfold Frame.extend Frame.ageless
    simp only
    split <;> rfl
  intro s
  simp only [addData, space_ageless]
  cases s.space scope ns with
  | error e => rfl
  | ok e =>
    exact congrArg (fun u => Except.ok ((), u)) (modify_ageless (·.extend members) hextend hextend)

/-- **Setting a loop's member** is no matter of passes. -/
theorem timeless_setLoop (scope : ScopeId) (binding : Value) :
    Timeless fun s => (s.setLoop scope binding).map ((), ·) := by
  intro s
  simp only [setLoop, frame?_ageless]
  cases s.frame? scope with
  | none => rfl
  | some f =>
    have hkind : f.ageless.kind = f.kind := rfl
    have hdata : f.ageless.data = f.data := rfl
    simp only [Option.map_some, hkind, hdata]
    split
    · next ns held _ _ =>
      exact congrArg (fun u => Except.ok ((), u)) (modify_ageless
        (fun f => { f with data := .object (Members.assign held loopKey binding) })
        (fun _ => rfl) fun _ => rfl)
    · rfl

end Store

end Trellis
