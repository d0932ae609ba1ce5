import Trellis.Proofs.View.Frames
import Trellis.Proofs.View.Passes

/-!
# What the frames of namespaces hold

The frame of a namespace has members, whatever is written to it. In a turn the one its loop sets is
among them: it is set whenever the frame is entered, and nothing takes a member away. So the place
of that member among the others is always the same, and other members can be set before it or after
it.

* `Way.lasting_replace`, `Way.lasting_extend`: writing to what lasts.
* `Session.Ready`: what the frames of namespaces hold.
* `View.Built.run_ready`: after every run.
-/

namespace Trellis

open Schema Session Act

/-! ### Frames of namespaces -/

/-- The data of a namespace has members, and in a turn the one its loop sets is among them. -/
structure Way.Ready (w : Way) (v : Value) : Prop where
  holds : ∀ step, w.getLast? = some step → (∀ ns name, step ≠ .slot ns name) →
    ∃ members, v = .object members
  looped : w.Looped v

namespace Way

variable {w : Way} {v v' r : Value} {keys : List String} {x : Value}

theorem Ready.turn (h : w.Ready v) {i : Nat} {ns : String}
    (hlast : w.getLast? = some (.turn i ns)) :
    ∃ members, v = .object members ∧ loopKey ∈ Members.names members := by
  obtain ⟨members, hv⟩ := h.holds _ hlast nofun
  exact ⟨members, hv, h.looped i ns members hlast hv⟩

theorem Ready.replace (h : w.Ready v) (hkeys : keys ≠ []) (hr : v.replace keys x = .ok r) :
    w.Ready r := by
  obtain ⟨key, rest, rfl⟩ := List.exists_cons_of_ne_nil hkeys
  constructor
  · intro step hlast hslot
    obtain ⟨members, rfl⟩ := h.holds step hlast hslot
    rw [Value.replace_object] at hr
    obtain ⟨y, -, rfl⟩ := Except.map_eq_ok.1 hr
    exact ⟨_, rfl⟩
  · rintro i ns members' hlast rfl
    obtain ⟨members, rfl, hmem⟩ := h.turn hlast
    rw [Value.replace_object] at hr
    obtain ⟨y, -, hy⟩ := Except.map_eq_ok.1 hr
    cases hy
    exact Members.mem_names_assign hmem key y

/-- The members that were assigned to a frame's. -/
theorem Ready.extend {f : Frame} (h : w.Ready f.data) (members : Members Value) :
    w.Ready (f.extend members).data := by
  constructor
  · intro step hlast hslot
    obtain ⟨old, hold⟩ := h.holds step hlast hslot
    unfold Frame.extend
    rw [hold]
    exact ⟨_, rfl⟩
  · intro i ns members' hlast hnew
    obtain ⟨old, hold, hmem⟩ := h.turn hlast
    unfold Frame.extend at hnew
    rw [hold] at hnew
    cases hnew
    exact Members.mem_names_extend hmem members

theorem lasting_of_last (hne : ∀ i ns, w.getLast? ≠ some (.turn i ns))
    (hv : w.lasting v = w.lasting v') :
    v = v' ∨ ∀ y z, w.lasting y = w.lasting z := by
  unfold lasting at hv ⊢
  cases hlast : w.getLast? with
  | none =>
    rw [hlast] at hv
    exact .inl hv
  | some step =>
    rw [hlast] at hv
    cases step with
    | space => exact .inl hv
    | slot => exact .inr fun _ _ => rfl
    | turn i ns => exact absurd hlast (hne i ns)

/-- Members of turns that last the same differ in what the loop sets alone. -/
theorem lasting_turn {i : Nat} {ns : String} (hlast : w.getLast? = some (.turn i ns))
    (m : Members Value) : w.lasting (.object m) = .object (Members.assign m loopKey .null) := by
  unfold lasting
  rw [hlast]
  rfl

/-- **Writing to what lasts.** Of data that lasts the same a write makes data that lasts the same,
or it fails in both places for the same reason; or what it changes does not last. -/
theorem lasting_replace (hv : w.Ready v) (hv' : w.Ready v') (h : w.lasting v = w.lasting v')
    (hkeys : keys ≠ []) (x : Value) :
    SameOutcome (fun r r' => w.lasting r = w.lasting r') (v.replace keys x) (v'.replace keys x) ∨
      (∀ r, v.replace keys x = .ok r → w.lasting r = w.lasting v) ∧
        ∀ r, v'.replace keys x = .ok r → w.lasting r = w.lasting v' := by
  by_cases hturn : ∃ i ns, w.getLast? = some (.turn i ns)
  · obtain ⟨i, ns, hlast⟩ := hturn
    obtain ⟨m, rfl, hm⟩ := hv.turn hlast
    obtain ⟨m', rfl, hm'⟩ := hv'.turn hlast
    obtain ⟨key, rest, rfl⟩ := List.exists_cons_of_ne_nil hkeys
    simp only [lasting_turn hlast, Value.object.injEq] at h
    rw [Value.replace_object, Value.replace_object]
    by_cases hkey : key = loopKey
    · -- what the loop sets does not last
      subst hkey
      refine .inr ⟨fun r hr => ?_, fun r hr => ?_⟩
      all_goals
        obtain ⟨y, -, rfl⟩ := Except.map_eq_ok.1 hr
        rw [lasting_turn hlast, lasting_turn hlast, Members.assign_assign]
    · have hget : Members.get? m key = Members.get? m' key := by
        rw [← Members.get?_assign_of_ne (m := m) .null hkey,
          ← Members.get?_assign_of_ne (m := m') .null hkey, h]
      rw [hget]
      refine .inl ?_
      cases Value.replaceBelow (Members.get? m' key) key rest x with
      | error e => exact rfl
      | ok y =>
        change w.lasting _ = w.lasting _
        rw [lasting_turn hlast, lasting_turn hlast, Members.assign_comm hm hkey,
          Members.assign_comm hm' hkey, h]
  · rcases lasting_of_last (fun i ns hlast => hturn ⟨i, ns, hlast⟩) h with rfl | hall
    · exact .inl (SameOutcome.refl (A := fun r r' => w.lasting r = w.lasting r') (fun _ => rfl) _)
    · exact .inr ⟨fun _ _ => hall _ _, fun _ _ => hall _ _⟩

/-- **Adding** members to what lasts. -/
theorem lasting_extend {f g : Frame} (hf : w.Ready f.data) (hg : w.Ready g.data)
    (h : w.lasting f.data = w.lasting g.data) (members : Members Value) :
    w.lasting (f.extend members).data = w.lasting (g.extend members).data := by
  by_cases hturn : ∃ i ns, w.getLast? = some (.turn i ns)
  · obtain ⟨i, ns, hlast⟩ := hturn
    obtain ⟨m, hfm, hm⟩ := hf.turn hlast
    obtain ⟨m', hgm, hm'⟩ := hg.turn hlast
    unfold Frame.extend
    rw [hfm, hgm] at h ⊢
    simp only [lasting_turn hlast, Value.object.injEq] at h ⊢
    rw [Members.assign_extend members hm, Members.assign_extend members hm', h]
  · rcases lasting_of_last (fun i ns hlast => hturn ⟨i, ns, hlast⟩) h with heq | hall
    · unfold Frame.extend
      rw [heq]
      cases g.data <;> rfl
    · exact hall _ _

end Way

namespace Session

/-- The frames of namespaces have members, and those of turns what their loops set. -/
def Ready (n : Node) (s : Session) : Prop :=
  ∀ w data, ((Locus.content n).after w).isSome → s.dataAt w = some data → w.Ready data

variable {n : Node} {s t : Session} {w : Way} {id : ScopeId} {data : Value}

/-- Other data in one frame. -/
theorem Ready.modify {g : Frame → Frame} (h : s.Ready n) (ht : t.store = s.store.modify id g)
    (hg : ∀ w f, s.store.frame? id = some f → Way.Ready w f.data → Way.Ready w (g f).data) :
    t.Ready n := by
  intro w data hleads hdata
  have hat : t.store.scopeAt? w.address = s.store.scopeAt? w.address := by rw [ht]; rfl
  unfold dataAt at hdata
  rw [hat] at hdata
  obtain ⟨f', hf', rfl⟩ := Option.map_eq_some_iff.1 hdata
  obtain ⟨j, hj, hf'⟩ := Option.bind_eq_some_iff.1 hf'
  -- the frame is the one that changed, or it is as it was
  have hold : ∀ f, s.store.frame? j = some f → Way.Ready w f.data := fun f hf =>
    h w f.data hleads (by unfold dataAt; rw [hj, Option.bind_some, hf]; rfl)
  rw [ht] at hf'
  by_cases hid : j = id
  · subst hid
    rw [Store.frame?_modify_self] at hf'
    obtain ⟨f, hf, rfl⟩ := Option.map_eq_some_iff.1 hf'
    exact hg w f hf (hold f hf)
  · rw [Store.frame?_modify_of_ne g hid] at hf'
    exact hold f' hf'

/-- The frame of a namespace has members. -/
theorem Ready.members (h : s.Ready n) (hs : s.Built n) (hfree : n.ClashFree) {f : Frame} {ns : String}
    (hf : s.store.frame? id = some f) (hk : f.kind = .space ns) :
    ∃ members, f.data = .object members := by
  obtain ⟨w, hleads, hp, hkind⟩ := hs.way_of_live hfree hf
  rw [hk] at hkind
  unfold Way.kind at hkind
  cases hlast : w.getLast? with
  | none => rw [hlast] at hkind; cases hkind
  | some step =>
    rw [hlast] at hkind
    refine (h w f.data hleads (dataAt_eq hs.placed.sound hf hp)).holds step hlast fun ns name => ?_
    rintro rfl
    cases hkind

theorem Ready.write (h : s.Ready n) {scope : ScopeId} {ns : String} {keys : List String}
    {v : Value} {handle : Handle} (hw : s.handle.write scope ns keys v = .ok handle) :
    Ready n { s with handle := handle } := by
  obtain ⟨id, f, data, hwrote⟩ := Handle.wrote_of_write hw
  refine h.modify (t := { s with handle := handle }) hwrote.store fun w f' hf' hready => ?_
  obtain ⟨hf, -⟩ := Store.frame?_of_space hwrote.space
  rw [show s.store.frame? id = some f from hf] at hf'
  cases hf'
  exact hready.replace hwrote.below hwrote.replaced

/-- The frame behind a step to a namespace has members when it is entered: what stood had members,
and so has what lasts of it. -/
theorem Ready.arrived (h : s.Ready n) (hfree : n.ClashFree) (ht : s.Arrives n w id data t)
    {step : Step} (hlast : w.getLast? = some step) (hslot : ∀ ns name, step ≠ .slot ns name) :
    ∃ members, data = .object members := by
  obtain ⟨members, hstood⟩ : ∃ members, (s.dataAt w).getD (n.fresh w) = .object members := by
    cases hold : s.dataAt w with
    | none => exact ⟨_, rfl⟩
    | some d => exact (h w d ht.leads hold).holds step hlast hslot
  have hlasting := ht.lasting hfree
  unfold standing at hlasting
  rw [hstood] at hlasting
  unfold Way.lasting at hlasting
  rw [hlast] at hlasting
  cases step with
  | slot ns name => exact absurd rfl (hslot ns name)
  | space => exact ⟨_, hlasting⟩
  | turn =>
    cases data with
    | object members' => exact ⟨_, rfl⟩
    | _ => cases hlasting

theorem Ready.arrives (h : s.Ready n) (hfree : n.ClashFree) (ht : s.Arrives n w id data t)
    (hlooped : w.Looped data) : t.Ready n := by
  intro u d hleads hd
  by_cases hne : u = w
  · subst hne
    rw [ht.dataAt] at hd
    cases hd
    exact ⟨fun step hlast hslot => h.arrived hfree ht hlast hslot, hlooped⟩
  · rw [ht.dataAt_of_ne hfree hleads hne] at hd
    exact h u d hleads hd

/-- Building leaves frames ready. -/
instance : AllowsBuilding n (Keeping fun s => n.ClashFree → s.Ready n) where
  trans _ _ _ h h' hs := h' (h hs)
  inner s t hh _ hs hfree w data hleads hdata := by
    refine hs hfree w data hleads ?_
    unfold dataAt Session.store at hdata ⊢
    rw [hh]
    exact hdata
  write _ _ _ _ _ _ hw hs hfree := (hs hfree).write hw
  enter ht hlooped hs hfree := (hs hfree).arrives hfree ht hlooped

end Session

/-! ### Runs -/

section Runs

variable {N C : Type} {b : Builder N C} {n : Node}

/-- The only frame there is first is the root. -/
theorem Session.Ready.start (hfree : n.ClashFree) {s : Session} (hstore : s.store = Store.new) :
    s.Ready n := by
  intro w data hleads hdata
  obtain ⟨id, f, hf, hp, -⟩ := (dataAt_eq_some (hstore ▸ Store.Sound.new)).1 hdata
  rw [hstore] at hf
  obtain ⟨-, rfl⟩ := Store.frame?_new hf
  rw [way_unique (q := []) hfree hleads rfl hp.symm]
  exact ⟨nofun, nofun⟩

theorem Session.Ready.begun {s : Session} (h : s.Ready n) : s.begun.Ready n :=
  fun w data hleads hdata => h w data hleads (dataAt_begun ▸ hdata)

/-- What is dropped holds nothing. -/
theorem Session.Ready.finished {s : Session} (h : s.Ready n) (hs : s.Built n) :
    s.finished.Ready n := by
  intro w data hleads hdata
  obtain ⟨id, f, hf, hp, rfl⟩ := (dataAt_eq_some hs.finished.placed.sound).1 hdata
  obtain ⟨hf, -⟩ := (Store.frame?_finishPass_iff hs.placed.sound).1 hf
  exact h w f.data hleads (dataAt_eq hs.placed.sound hf hp)

theorem Session.Ready.add {s : Session} (h : s.Ready n) (scope : ScopeId) (ns : String)
    (members : Members Value) : Ready n ((Act.adding scope ns members).runOn s).2 := by
  cases hs : s.store.space scope ns with
  | error e =>
    rw [Act.adding_error hs]
    exact h
  | ok x =>
    rw [Act.adding_ok hs]
    exact h.modify (t := s.withStore _) rfl fun w f _ hready => hready.extend members

section Building

variable {v : View N C} (hv : v.Built b n) (hb : b.Honest) (hn : n.All Node.Orderly)
  (hfree : n.ClashFree) (h : v.session.Ready n)

include hv hb hn hfree h

/-- **After every run** the frames of namespaces have members, and those of turns what their loops
set. -/
theorem View.Built.run_ready (moves : List Move) : (v.run moves).session.Ready n :=
  hv.run_keeps (I := fun s => n.ClashFree → s.Ready n) hb hn (fun _ _ h hfree => (h hfree).begun)
    (fun _ hs h hfree => (h hfree).finished hs)
    (fun _ scope ns members h hfree => (h hfree).add scope ns members) moves (fun _ => h) hfree

/-- After a render they do. -/
theorem View.Built.render_ready : v.render.2.session.Ready n :=
  hv.render_keeps (I := fun s => n.ClashFree → s.Ready n) hb hn (fun _ => h.begun)
    (fun _ _ _ _ hu hI hfree => (hI hfree).finished hu) hfree

/-- After any move they do. -/
theorem View.Built.step_ready (move : Move) : (v.step move).session.Ready n :=
  View.step_keeps n (I := fun s => n.ClashFree → s.Ready n) move
    (fun _ _ => hv.render_ready hb hn hfree h) (fun scope ns members _ _ => h.add scope ns members)
    (fun _ => h) hfree

end Building

end Runs

end Trellis
