import Trellis.Proofs.Build.Chains
import Trellis.Proofs.Build.Standing
import Trellis.Proofs.Schema.Plain
import Trellis.Proofs.Script.Lockstep
import Mathlib.Order.Basic

/-!
# Two runs abreast

Two runs over one schema are compared, each in a session of its own. They are abreast when they have
entered frames at the same ways, hold the same data there up to functions, and will find the same
wherever they go next. Then reading and writing from the frames of one way come out alike, and the
runs stay abreast when both go one step further.

* `Tandem`: two runs that are compared, and which functions count as the same.
* `Tandem.Abreast`: what two runs keep.
* `Tandem.Abreast.get_alike`, `Tandem.Abreast.write_alike`: reading and writing.
* `Tandem.Abreast.arrives`: entering a frame.
-/

namespace Trellis

open Schema Session Act Value

/-- Two runs over a schema: the sessions they begin in, the ways on which what stands is the same,
and the functions that count as the same, given which scopes do. -/
structure Tandem where
  schema : Node
  left : Session
  right : Session
  watched : Way → Prop
  twins : (ScopeId → ScopeId → Prop) → Callable → Callable → Prop

namespace Tandem

/-- No ways clash, functions count as the same however many scopes do, and those that do are told
apart by their numbers. -/
structure Fair (c : Tandem) : Prop where
  free : c.schema.ClashFree
  mono : ∀ {S S' : ScopeId → ScopeId → Prop}, (∀ i j, S i j → S' i j) →
    ∀ f g, c.twins S f g → c.twins S' f g
  faithful : ∀ S, Faithful (c.twins S)

/-- Ways and the scopes at their ends in two runs. -/
abbrev Pairs := Way → ScopeId → ScopeId → Prop

/-- The scopes at the ends of one way. -/
def Pairs.Scopes (P : Pairs) (i j : ScopeId) : Prop := ∃ w, P w i j

/-- The functions that count as the same if the scopes at the ends of one way do. -/
abbrev fellows (c : Tandem) (P : Pairs) : Callable → Callable → Prop :=
  c.twins P.Scopes

/-- The runs have come to `s` and `t`, having gone the ways and found the scopes that `P` pairs. -/
structure Abreast (c : Tandem) (P : Pairs) (s t : Session) : Prop where
  left : s.Built c.schema
  right : t.Built c.schema
  ways : ∀ w, (∃ i, s.Has w i) ↔ ∃ j, t.Has w j
  pairs : ∀ w i j, P w i j ↔ s.Has w i ∧ t.Has w j
  seen : ∀ w i j, s.Has w i → t.Has w j →
    Option.Rel (Alike (c.fellows P)) (s.dataAt w) (t.dataAt w)
  unseen : ∀ w, c.watched w → ((Locus.content c.schema).after w).isSome → (∀ i, ¬ s.Has w i) →
    Alike (c.fellows P) (s.standing c.schema w) (t.standing c.schema w)
  counts : SameCalls c.left c.right (c.fellows P) s t

/-- Frames at the ends of one way. -/
structure Beside (c : Tandem) (P : Pairs) (s t : Session)
    (e e' : ScopeId × Frame) : Prop where
  way : ∃ w, s.Has w e.1 ∧ t.Has w e'.1
  left : s.store.frame? e.1 = some e.2
  right : t.store.frame? e'.1 = some e'.2
  kind : e.2.kind = e'.2.kind
  data : Alike (c.fellows P) e.2.data e'.2.data

variable {c : Tandem} {P : Pairs} {s t s' t' : Session} {w : Way} {i j : ScopeId}

theorem Pairs.scopes_mono {P P' : Pairs} (h : P ≤ P') (i j : ScopeId) (hij : P.Scopes i j) :
    P'.Scopes i j := by
  obtain ⟨w, hw⟩ := hij
  exact ⟨w, h w i j hw⟩

/-- Data of one kind lasts alike. -/
theorem lasting_alike {F : Callable → Callable → Prop} (w : Way) {v v' : Value}
    (h : Alike F v v') : Alike F (w.lasting v) (w.lasting v') := by
  unfold Way.lasting
  cases w.getLast? with
  | none => exact h
  | some step =>
    cases step with
    | space => exact h
    | slot => exact .null
    | turn =>
      cases h with
      | object hs => exact .object (hs.assign loopKey .null)
      | null => exact .null
      | bool b => exact .bool b
      | number x => exact .number x
      | string s => exact .string s
      | array hs => exact .array hs
      | function hf => exact .function hf

namespace Abreast

/-- **What stands** on a watched way is alike, whether the way was gone or not. -/
theorem standing (h : c.Abreast P s t) (hw : c.watched w)
    (hleads : ((Locus.content c.schema).after w).isSome) :
    Alike (c.fellows P) (s.standing c.schema w) (t.standing c.schema w) := by
  by_cases hgone : ∃ i, s.Has w i
  · obtain ⟨i, hi⟩ := hgone
    obtain ⟨j, hj⟩ := (h.ways w).1 ⟨i, hi⟩
    obtain ⟨f, hf, hp⟩ := hi.frame h.left
    obtain ⟨g, hg, hq⟩ := hj.frame h.right
    have hdata := h.seen w i j hi hj
    unfold Session.standing
    rw [dataAt_eq h.left.placed.sound hf hp, dataAt_eq h.right.placed.sound hg hq] at hdata ⊢
    cases hdata with
    | some hdata => exact lasting_alike w hdata
  · exact h.unseen w hw hleads fun i hi => hgone ⟨i, hi⟩

/-! ### Chains -/

/-- The frames at the ends of one way that was gone are beside each other. -/
theorem beside (h : c.Abreast P s t) (hi : s.Has w i) (hj : t.Has w j) {f g : Frame}
    (hf : s.store.frame? i = some f) (hg : t.store.frame? j = some g) (hk : f.kind = g.kind) :
    c.Beside P s t (i, f) (j, g) := by
  obtain ⟨f', hf', hp⟩ := hi.frame h.left
  obtain ⟨g', hg', hq⟩ := hj.frame h.right
  rw [hf] at hf'
  rw [hg] at hg'
  cases hf'
  cases hg'
  have hdata := h.seen w i j hi hj
  rw [dataAt_eq h.left.placed.sound hf hp, dataAt_eq h.right.placed.sound hg hq] at hdata
  cases hdata with
  | some hdata => exact ⟨⟨w, hi, hj⟩, hf, hg, hk, hdata⟩

/-- **The chains** from the ends of one way are whole, and beside each other frame by frame. -/
theorem chains (h : c.Abreast P s t) (hfree : c.schema.ClashFree) (hi : s.Has w i)
    (hj : t.Has w j) : (s.store.chain i).2 = true ∧ (t.store.chain j).2 = true ∧
      List.Forall₂ (c.Beside P s t) (s.store.chain i).1 (t.store.chain j).1 := by
  induction w using List.reverseRecOn generalizing i j with
  | nil =>
    have hroot : ∀ {u : Session} {k}, u.Built c.schema → u.Has [] k → k = Store.rootId :=
      fun hu hk => (hu.placed.has_eq_iff hfree hk (.inl ⟨rfl, rfl⟩)).2 rfl
    have hi' := hroot h.left hi
    have hj' := hroot h.right hj
    subst hi'
    subst hj'
    obtain ⟨f, hf, -, hpar, hk, -⟩ := h.left.placed.sound.root
    obtain ⟨g, hg, -, hpar', hk', -⟩ := h.right.placed.sound.root
    rw [Store.chain, Store.chain, Store.chainFrom_root hf hpar, Store.chainFrom_root hg hpar']
    exact ⟨rfl, rfl, .cons (h.beside hi hj hf hg (hk.trans hk'.symm)) .nil⟩
  | append_singleton o step ih =>
    obtain ⟨f, p, hf, hk, hpar, hp, hlt⟩ := h.left.chain_step hfree hi
    obtain ⟨g, q, hg, hk', hpar', hq, hlt'⟩ := h.right.chain_step hfree hj
    obtain ⟨hwhole, hwhole', hchains⟩ := ih hp hq
    rw [Store.chain_parent hf hpar hlt hwhole, Store.chain_parent hg hpar' hlt' hwhole']
    exact ⟨rfl, rfl, .cons (h.beside hi hj hf hg (hk.trans hk'.symm)) hchains⟩

/-- The nearest frames of a kind are beside each other. -/
theorem nearest?_beside (h : c.Abreast P s t) (hfree : c.schema.ClashFree) (hij : P.Scopes i j)
    (kind : FrameKind) :
    ∃ x y, s.store.nearest? i kind = .ok x ∧ t.store.nearest? j kind = .ok y ∧
      Option.Rel (fun e e' => c.Beside P s t e e' ∧ e.2.kind = kind) x y := by
  obtain ⟨w, hw⟩ := hij
  obtain ⟨hi, hj⟩ := (h.pairs w i j).1 hw
  obtain ⟨hwhole, hwhole', hchains⟩ := h.chains hfree hi hj
  refine ⟨_, _, Store.nearest?_of_whole hwhole kind, Store.nearest?_of_whole hwhole' kind, ?_⟩
  have hkind : ∀ e e' : ScopeId × Frame, c.Beside P s t e e' →
      decide (e.2.kind = kind) = decide (e'.2.kind = kind) := fun e e' hs => by rw [hs.kind]
  rcases hchains.find?_split hkind with ⟨hl, hm⟩ | ⟨_, x, _, _, y, _, -, -, hx, hy, -, hs, -⟩
  · rw [hl, hm]
    exact .none
  · rw [hx, hy]
    exact .some ⟨hs, by simpa using List.find?_some hx⟩

/-! ### Reading and writing -/

/-- **Reading a namespace** from scopes that count as the same. -/
theorem spaceData?_alike (h : c.Abreast P s t) (hfree : c.schema.ClashFree) (hij : P.Scopes i j)
    (ns : String) :
    SameOutcome (Option.Rel (Alike (c.fellows P))) (s.store.spaceData? i ns)
      (t.store.spaceData? j ns) := by
  obtain ⟨x, y, hx, hy, hxy⟩ := h.nearest?_beside hfree hij (.space ns)
  unfold Store.spaceData?
  rw [hx, hy]
  cases hxy with
  | none => exact .none
  | some hs => exact .some hs.1.data

theorem space_alike (h : c.Abreast P s t) (hfree : c.schema.ClashFree) (hij : P.Scopes i j)
    (ns : String) :
    SameOutcome (fun e e' => c.Beside P s t e e' ∧ e.2.kind = .space ns) (s.store.space i ns)
      (t.store.space j ns) := by
  obtain ⟨x, y, hx, hy, hxy⟩ := h.nearest?_beside hfree hij (.space ns)
  unfold Store.space
  rw [hx, hy]
  cases hxy with
  | none => rfl
  | some hs => exact hs

theorem slotFrame_alike (h : c.Abreast P s t) (hfree : c.schema.ClashFree) (hij : P.Scopes i j)
    (ns slot : String) :
    SameOutcome (fun e e' => c.Beside P s t e e' ∧ e.2.kind = .slot ns slot)
      (s.store.slotFrame i ns slot) (t.store.slotFrame j ns slot) := by
  obtain ⟨x, y, hx, hy, hxy⟩ := h.nearest?_beside hfree hij (.slot ns slot)
  unfold Store.slotFrame
  rw [hx, hy]
  cases hxy with
  | none => rfl
  | some hs => exact hs

/-- **Reading at a path** from scopes that count as the same. -/
theorem get_alike (h : c.Abreast P s t) (hfree : c.schema.ClashFree) (hij : P.Scopes i j)
    (path : Path) :
    SameOutcome (Alike (c.fellows P)) (s.store.get i path) (t.store.get j path) := by
  unfold Store.get
  cases path.slot
  -- either way the rest of the path leads on from data that is alike
  all_goals
    first
      | refine (h.space_alike hfree hij path.ns).bind ?_
      | refine (h.slotFrame_alike hfree hij path.ns _).bind ?_
    intro e e' hs
    have hat := hs.1.data.at? path.keys
    simp only
    revert hat
    cases e.2.data.at? path.keys <;> cases e'.2.data.at? path.keys <;> intro hat
    · cases hat; rfl
    · exact hat.elim
    · exact hat.elim
    · exact hat

/-- **Other data** at the ends of one way, which is alike again. -/
theorem rewrites (h : c.Abreast P s t) (hc : c.Fair) (hi : s.Has w i) (hj : t.Has w j)
    {v v' : Value} (hs : s.Rewrites c.schema w i v s') (ht : t.Rewrites c.schema w j v' t')
    (hv : Alike (c.fellows P) v v') (hcounts : SameCalls c.left c.right (c.fellows P) s' t') :
    c.Abreast P s' t' := by
  have hhas : ∀ u k, s'.Has u k ↔ s.Has u k := fun u k => by unfold Session.Has; rw [hs.visits]
  have hhas' : ∀ u k, t'.Has u k ↔ t.Has u k := fun u k => by unfold Session.Has; rw [ht.visits]
  refine ⟨hs.built, ht.built, fun u => ?_, fun u k l => ?_, fun u k l hk hl => ?_,
    fun u hu hleads hun => ?_, hcounts⟩
  · simp only [hhas, hhas']
    exact h.ways u
  · simp only [hhas, hhas']
    exact h.pairs u k l
  · rw [hhas] at hk
    rw [hhas'] at hl
    by_cases hne : u = w
    · subst hne
      rw [hs.dataAt, ht.dataAt]
      exact .some hv
    · rw [hs.dataAt_of_ne hc.free (hk.leads h.left) hne, ht.dataAt_of_ne hc.free (hk.leads h.left) hne]
      exact h.seen u k l hk hl
  · have hne : u = w → False := fun hu => hun i ((hhas u i).2 (hu ▸ hi))
    rw [hs.standing hc.free hleads fun hu => (hne hu).elim,
      ht.standing hc.free hleads fun hu => (hne hu).elim]
    exact h.unseen u hu hleads fun k hk => hun k ((hhas u k).2 hk)

/-- **Writing** what is alike from scopes that count as the same. -/
theorem write_alike (h : c.Abreast P s t) (hc : c.Fair) (hij : P.Scopes i j) (ns : String)
    (keys : List String) {v v' : Value} (hv : Alike (c.fellows P) v v') :
    SameOutcome (fun h h' => c.Abreast P { s with handle := h } { t with handle := h' })
      (s.handle.write i ns keys v) (t.handle.write j ns keys v') := by
  have hstores : SameOutcome
      (fun r r' => ∃ u k l d d', s.Has u k ∧ t.Has u l ∧ Alike (c.fellows P) d d' ∧
        r.2 = s.store.modify k (fun f => { f with data := d }) ∧
        r'.2 = t.store.modify l fun f => { f with data := d' })
      (s.store.write i ns keys v) (t.store.write j ns keys v') := by
    unfold Store.write
    split
    · rfl
    refine (h.space_alike hc.free hij ns).bind ?_
    rintro ⟨k, f⟩ ⟨l, g⟩ ⟨hb, -⟩
    have hr := Alike.replace hv keys hb.data
    simp only at hr ⊢
    revert hr
    cases f.data.replace keys v <;> cases g.data.replace keys v' <;> intro hr
    · cases hr; rfl
    · exact hr.elim
    · exact hr.elim
    · obtain ⟨u, hk, hl⟩ := hb.way
      exact ⟨u, k, l, _, _, hk, hl, hr, rfl, rfl⟩
  refine hstores.bind ?_
  rintro ⟨_, store⟩ ⟨_, store'⟩ ⟨u, k, l, d, d', hk, hl, hd, rfl, rfl⟩
  exact h.rewrites hc hk hl ⟨h.left, hk.leads h.left, hk.frame h.left, rfl, rfl⟩
    ⟨h.right, hl.leads h.right, hl.frame h.right, rfl, rfl⟩ hd
    ⟨h.counts.functions, h.counts.calls, h.counts.params⟩

/-- **Entering** the frames at the end of one way, where the data is alike then. -/
theorem arrives (h : c.Abreast P s t) (hc : c.Fair) {v v' : Value}
    (hs : s.Arrives c.schema w i v s') (ht : t.Arrives c.schema w j v' t')
    (hv : Alike (c.fellows P) v v') :
    ∃ P', P ≤ P' ∧ P' w i j ∧ c.Abreast P' s' t' := by
  have hhas : ∀ u k, s'.Has u k ↔ s.Has u k ∨ (u = w ∧ k = i) := fun u k => by
    unfold Session.Has
    rw [hs.visits, List.mem_cons, Visit.mk.injEq]
    tauto
  have hhas' : ∀ u k, t'.Has u k ↔ t.Has u k ∨ (u = w ∧ k = j) := fun u k => by
    unfold Session.Has
    rw [ht.visits, List.mem_cons, Visit.mk.injEq]
    tauto
  have hmono : P ≤ fun u k l => s'.Has u k ∧ t'.Has u l := fun u k l hkl => by
    obtain ⟨hk, hl⟩ := (h.pairs u k l).1 hkl
    exact ⟨(hhas u k).2 (.inl hk), (hhas' u l).2 (.inl hl)⟩
  have hincl := hc.mono (Pairs.scopes_mono hmono)
  refine ⟨_, hmono, ⟨hs.has, ht.has⟩, hs.after, ht.after, fun u => ?_, fun _ _ _ => Iff.rfl,
    fun u k l hk hl => ?_, fun u hu hleads hun => ?_, ?_⟩
  · have hways := h.ways u
    constructor
    · rintro ⟨k, hk⟩
      rcases (hhas u k).1 hk with hk | ⟨rfl, -⟩
      · obtain ⟨l, hl⟩ := hways.1 ⟨k, hk⟩
        exact ⟨l, (hhas' u l).2 (.inl hl)⟩
      · exact ⟨j, ht.has⟩
    · rintro ⟨l, hl⟩
      rcases (hhas' u l).1 hl with hl | ⟨rfl, -⟩
      · obtain ⟨k, hk⟩ := hways.2 ⟨l, hl⟩
        exact ⟨k, (hhas u k).2 (.inl hk)⟩
      · exact ⟨i, hs.has⟩
  · by_cases hne : u = w
    · subst hne
      rw [hs.dataAt, ht.dataAt]
      exact .some (hv.mono hincl)
    · have hleads := hk.leads hs.after
      rw [hs.dataAt_of_ne hc.free hleads hne, ht.dataAt_of_ne hc.free hleads hne]
      have hk' : s.Has u k := ((hhas u k).1 hk).resolve_right fun h => hne h.1
      have hl' : t.Has u l := ((hhas' u l).1 hl).resolve_right fun h => hne h.1
      have hseen := h.seen u k l hk' hl'
      generalize s.dataAt u = x at hseen
      generalize t.dataAt u = y at hseen
      cases hseen with
      | none => exact .none
      | some hd => exact .some (hd.mono hincl)
  · rw [hs.standing hc.free hleads, ht.standing hc.free hleads]
    exact (h.unseen u hu hleads fun k hk => hun k ((hhas u k).2 (.inl hk))).mono hincl
  · obtain ⟨store, rfl⟩ := hs.rest
    obtain ⟨store', rfl⟩ := ht.rest
    exact ⟨h.counts.functions, h.counts.calls, fun k l hkl => (h.counts.params k l hkl).mono hincl⟩

end Abreast

/-! ### Evaluation -/

/-- Functions that are equally far from the first one of two runs, and that are otherwise the same,
made in corresponding calls and in scopes that count as the same. -/
inductive Fellow (s t : Session) (S : ScopeId → ScopeId → Prop) : Callable → Callable → Prop
  | lambda (k : Nat) (params : List String) (body : Body) {calls calls' : List LocalId}
    {i j : ScopeId} (h : List.Forall₂ (SameCall s t) calls calls') (hij : S i j) :
    Fellow s t S (.lambda (s.nextFunction + k) params body calls i)
      (.lambda (t.nextFunction + k) params body calls' j)

variable {S : ScopeId → ScopeId → Prop}

theorem Fellow.mono {S' : ScopeId → ScopeId → Prop} (h : ∀ i j, S i j → S' i j) {f g : Callable}
    (hfg : Fellow s t S f g) : Fellow s t S' f g := by
  obtain ⟨k, params, body, hcalls, hij⟩ := hfg
  exact .lambda k params body hcalls (h _ _ hij)

theorem Fellow.faithful : Faithful (Fellow s t S) where
  name := by rintro _ _ ⟨⟩; rfl
  id := by
    rintro _ _ _ _ ⟨k⟩ ⟨l⟩
    simp only [Callable.id]
    omega

/-- **Runs abreast** are in lockstep when they evaluate, if corresponding functions are those that
count as the same. -/
theorem Abreast.lockstep (hc : c.Fair) (htwins : c.twins = Fellow c.left c.right) :
    Lockstep c.left c.right (c.Abreast P) (c.fellows P) P.Scopes where
  faithful := hc.faithful P.Scopes
  fresh k params body calls calls' i j hcalls hij := by
    rw [fellows, htwins]
    exact .lambda k params body hcalls hij
  lambda := by
    intro f g hfg
    rw [fellows, htwins] at hfg
    obtain ⟨k, params, body, hcalls, hij⟩ := hfg
    exact ⟨_, _, _, _, _, _, _, _, rfl, rfl, hcalls, hij⟩
  counts h := h.counts
  inner := by
    intro s t h s' t' hs hsv ht htv hcounts
    have hout : SameOutline s s' := ⟨by rw [Session.store, hs], hsv⟩
    have hout' : SameOutline t t' := ⟨by rw [Session.store, ht], htv⟩
    have hhas : ∀ u k, s'.Has u k ↔ s.Has u k := fun u k => by unfold Session.Has; rw [hsv]
    have hhas' : ∀ u k, t'.Has u k ↔ t.Has u k := fun u k => by unfold Session.Has; rw [htv]
    have hdata : ∀ u, s'.dataAt u = s.dataAt u := fun u => by
      unfold Session.dataAt Session.store; rw [hs]
    have hdata' : ∀ u, t'.dataAt u = t.dataAt u := fun u => by
      unfold Session.dataAt Session.store; rw [ht]
    refine ⟨h.left.of_outline hout, h.right.of_outline hout', fun w => ?_, fun w i j => ?_,
      fun w i j hi hj => ?_, fun w hw hleads hun => ?_, hcounts⟩
    · simp only [hhas, hhas']
      exact h.ways w
    · simp only [hhas, hhas']
      exact h.pairs w i j
    · rw [hdata, hdata']
      exact h.seen w i j ((hhas w i).1 hi) ((hhas' w j).1 hj)
    · unfold Session.standing
      rw [hdata, hdata']
      exact h.unseen w hw hleads fun i hi => hun i ((hhas w i).2 hi)
  reads h i j hij ns := h.spaceData?_alike hc.free hij ns
  writes h i j hij ns keys v w hvw := h.write_alike hc hij ns keys hvw

/-- The value counts as the same as itself, wherever the runs have come. -/
def Shared (c : Tandem) (v : Value) : Prop := ∀ P : Pairs, Alike (c.fellows P) v v

theorem Shared.of_plain {v : Value} (h : v.Plain) : c.Shared v := fun _ => Alike.refl h

/-- Bindings come to the same in scopes that count as the same. -/
def Agrees (c : Tandem) (config : Config) : Prop :=
  ∀ (P : Pairs) i j, P.Scopes i j → ∀ b : Binding, b.Over c.Shared →
    Agree (c.Abreast P) (Alike (c.fellows P)) (b.resolve config i) (b.resolve config j)

theorem resolve_path (hc : c.Fair) (hij : P.Scopes i j) (path : Path) :
    Agree (c.Abreast P) (Alike (c.fellows P)) (scopes (·.get i path)) (scopes (·.get j path)) := by
  intro s t h
  rw [runOn_scopes, runOn_scopes]
  exact ⟨h.get_alike hc.free hij path, h⟩

/-- **With expressions switched off**, whatever functions count as the same. -/
theorem Fair.agrees_off (hc : c.Fair) {config : Config} (hoff : config.expressions = false) :
    c.Agrees config := by
  intro P i j hij b hb
  cases b with
  | literal v => exact Agree.pure (hb P)
  | path p => exact resolve_path hc hij p
  | expression raw =>
    simp only [Binding.resolve, hoff, Bool.false_eq_true, if_false]
    exact Agree.pure (.string raw)

/-- **With expressions switched on**, if corresponding functions are those that count as the
same. -/
theorem Fair.agrees (hc : c.Fair) (htwins : c.twins = Fellow c.left c.right)
    (config : Config) : c.Agrees config := by
  intro P i j hij b hb
  cases b with
  | literal v => exact Agree.pure (hb P)
  | path p => exact resolve_path hc hij p
  | expression raw =>
    simp only [Binding.resolve]
    split
    · refine Agree.bind (Agree.ofExcept (SameOutcome.refl (A := Eq) (fun _ => rfl) _)) ?_
      rintro script _ rfl
      exact script.run_lockstep (Abreast.lockstep hc htwins) hij
    · exact Agree.pure (.string raw)

end Tandem

end Trellis
