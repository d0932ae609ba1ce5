import Trellis.Proofs.Build.Chains
import Trellis.Proofs.Build.Renderers
import Trellis.Proofs.Build.Standing
import Trellis.Proofs.View.Run

/-!
# One frame for each place

In every pass a frame belongs to one way through the schema, up to ways that clash, and where none
clash the frames around it are those of the shorter ways.

* `Session.Enclosed`: what the frames around a frame are.
* `Session.Placed.scope_eq_iff`: which ways share a frame.
* `View.frames_of_ways`: all of it, after every run.
-/

namespace Trellis

open Schema

/-- What the frame at the end of a way stands for. -/
def Way.kind (w : Way) : FrameKind :=
  (w.getLast?.map Step.kind).getD .root

namespace Session

variable {n : Node} {s : Session} {x y : Visit} {o w : Way} {step : Step} {id p : ScopeId}

/-- The frames around a frame that was entered are those of the shorter ways: its parent is that of
the way one step shorter, and its chain has the frames of the ways its own way goes on from, and no
others. In the content of a slot the nearest frame of the slot is that content's own. -/
structure Enclosed (s : Session) (x : Visit) : Prop where
  parent : ∃ f p, s.store.frame? x.scope = some f ∧ f.kind = x.way.kind ∧ f.parent = some p ∧
    s.Has x.way.dropLast p
  whole : (s.store.chain x.scope).2 = true
  around : ∀ y ∈ s.visits, y.scope ∈ (s.store.chain x.scope).1.map Prod.fst ↔ y.way <+: x.way
  bucket : ∀ o ns name v, x.way = o ++ .slot ns name :: v → (∀ st ∈ v, st.kind ≠ .slot ns name) →
    ∃ id f, s.Has (o ++ [.slot ns name]) id ∧ s.store.slotFrame x.scope ns name = .ok (id, f)

/-- **Two ways share a frame** if they are the same, or clash. -/
theorem Placed.scope_eq_iff (h : s.Placed n) (hx : x ∈ s.visits) (hy : y ∈ s.visits) :
    x.scope = y.scope ↔ x.way = y.way ∨ Clash x.way y.way := by
  rw [← Locus.address_eq_iff (h.way x hx).2 (h.way y hy).2]
  obtain ⟨f, hf, hfp, -⟩ := h.touched x hx
  obtain ⟨g, hg, hgp, -⟩ := h.touched y hy
  constructor
  · intro heq
    rw [heq, hg] at hf
    cases hf
    exact hfp.symm.trans hgp
  · intro heq
    exact h.sound.eq_of_path hf hg (hfp.trans (heq.trans hgp.symm))

/-- **In the content of a slot** the nearest frame of that slot is its own. -/
theorem Built.slotFrame_eq (h : s.Built n) (hfree : n.ClashFree) {ns name : String} {v : Way}
    (hv : ∀ st ∈ v, st.kind ≠ .slot ns name) (hw : s.Has (o ++ .slot ns name :: v) id) :
    ∃ j f, s.Has (o ++ [.slot ns name]) j ∧ s.store.slotFrame id ns name = .ok (j, f) := by
  induction v using List.reverseRecOn generalizing id with
  | nil =>
    obtain ⟨f, p, hkind, -, hchain, -⟩ := h.chain_cons hfree hw
    refine ⟨id, f, hw, ?_⟩
    unfold Store.slotFrame Store.nearest?
    simp only [hchain, List.find?_cons]
    rw [hkind]
    simp only [Step.kind, decide_true]
    rfl
  | append_singleton v st ih =>
    have hassoc : o ++ Step.slot ns name :: (v ++ [st]) = (o ++ .slot ns name :: v) ++ [st] := by
      simp
    rw [hassoc] at hw
    obtain ⟨f, p, hkind, hp, hchain, hwhole⟩ := h.chain_cons hfree hw
    obtain ⟨j, g, hj, hslot⟩ := ih (fun st' hst' => hv st' (List.mem_append_left _ hst')) hp
    refine ⟨j, g, hj, ?_⟩
    -- the search goes past the frame of the last step
    have hne : f.kind ≠ .slot ns name := hkind ▸ hv st (by simp)
    unfold Store.slotFrame Store.nearest? at hslot ⊢
    simp only [hchain, hwhole, List.find?_cons, hne, decide_false] at hslot ⊢
    exact hslot

/-- **Frames that were entered** are enclosed by those of the shorter ways if no ways clash. -/
theorem Built.enclosed (h : s.Built n) (hfree : n.ClashFree) (hx : x ∈ s.visits) :
    s.Enclosed x := by
  obtain ⟨way, id⟩ := x
  have hw : s.Has way id := .inr hx
  obtain ⟨hwhole, hids⟩ := h.chain_frames hfree hw
  refine ⟨?_, hwhole, fun y hy => ?_, ?_⟩
  · rcases List.eq_nil_or_concat' way with rfl | ⟨o, step, rfl⟩
    · exact absurd rfl (h.placed.way _ hx).1
    · obtain ⟨f, p, hf, hkind, hpar, hp, -⟩ := h.chain_step hfree hw
      refine ⟨f, p, hf, ?_, hpar, ?_⟩
      · simpa [Way.kind] using hkind
      · simpa using hp
  · rw [hids]
    constructor
    · rintro ⟨v, hv, hy'⟩
      exact (h.placed.has_eq_iff hfree (.inr hy) hy').1 rfl ▸ hv
    · exact fun hpre => ⟨y.way, hpre, .inr hy⟩
  · rintro o ns name v rfl hv
    exact h.slotFrame_eq hfree hv hw

/-! ### Frames that are live -/

/-- A live frame is at the end of a way through the schema, and is of its kind. -/
theorem Built.way_of_live (h : s.Built n) (hfree : n.ClashFree) {f : Frame}
    (hf : s.store.frame? id = some f) :
    ∃ w, ((Locus.content n).after w).isSome ∧ f.path = Way.address w ∧ f.kind = w.kind := by
  by_cases hid : id = Store.rootId
  · subst hid
    obtain ⟨r, hr, hp, -, hk, -⟩ := h.placed.sound.root
    rw [hf] at hr
    cases hr
    exact ⟨[], rfl, hp, hk⟩
  · obtain ⟨o, step, p, g, hafter, hseat⟩ := (h.nested hfree).seat id f hf hid
    refine ⟨o ++ [step], hafter, hseat.path, hseat.kind.trans ?_⟩
    unfold Way.kind
    rw [List.getLast?_concat]
    rfl

/-- So is one that was entered. -/
theorem Built.kind_eq (h : s.Built n) (hfree : n.ClashFree) (hw : s.Has w id) {f : Frame}
    (hf : s.store.frame? id = some f) : f.kind = w.kind := by
  obtain ⟨u, hu, hp, hk⟩ := h.way_of_live hfree hf
  obtain ⟨g, hg, hq⟩ := hw.frame h
  rw [hf] at hg
  cases hg
  rw [hk, way_unique hfree hu (hw.leads h) (hp.symm.trans hq)]

/-- **The chain** of a live frame is whole. -/
theorem Built.chain_whole (h : s.Built n) (hfree : n.ClashFree) :
    ∀ (id : ScopeId) (f : Frame), s.store.frame? id = some f → (s.store.chain id).2 = true := by
  intro id
  induction id using Nat.strongRecOn with
  | ind id ih =>
    intro f hf
    by_cases hid : id = Store.rootId
    · subst hid
      obtain ⟨r, hr, -, hpar, -⟩ := h.placed.sound.root
      rw [Store.chain, Store.chainFrom_root hr hpar]
    · obtain ⟨o, step, p, g, -, hseat⟩ := (h.nested hfree).seat id f hf hid
      rw [Store.chain_parent hf hseat.parent hseat.older (ih p hseat.older g hseat.outer)]

end Session

/-- **One frame for each place.** After any run of a view of a loaded schema, the frames of the last
pass are shared by the ways to them that clash, and by no others; and where no ways through the
schema clash, each is enclosed by the frames of the shorter ways. -/
theorem View.frames_of_ways {N C : Type} {j : Json} {n : Node} (hn : Node.ofJson j = .ok n)
    {b : Builder N C} (hb : b.Confined) (k : Nat) (moves : List Move) :
    let s := ((View.mount n b k).run moves).session
    (∀ x ∈ s.visits, ∀ y ∈ s.visits, x.scope = y.scope ↔ x.way = y.way ∨ Clash x.way y.way) ∧
      (n.ClashFree → ∀ x ∈ s.visits, s.Enclosed x) := by
  have h := ((View.mount_built n b k).run hb (Node.proper_of_ofJson hn).orderly moves).session
  exact ⟨fun x hx y hy => h.placed.scope_eq_iff hx hy, fun hfree x hx => h.enclosed hfree hx⟩

/-- A panel whose slot is filled with a node that has a namespace. -/
def panelSchema : Json :=
  .object
    [("component", .string "panel"), ("namespace", .string "n"),
      ("scopedSlots", .object
        [("default", .object [("component", .string "b"), ("namespace", .string "m")])])]

/-- The schema it loads to. -/
def panelNode : Node :=
  .mk { Directives.plain (.named "panel") with ns := some "n" } none
    [("default", .mk { Directives.plain (.named "b") with ns := some "m" } none [])]

/-- In a panel the frame of the slot stands between the panel's and that of the slot's content. -/
theorem View.frames_of_ways_panel :
    Node.ofJson panelSchema = .ok panelNode ∧ panelNode.ClashFree ∧
      let s := ((View.mount panelNode ⟨Rendered.renderer, Rendered.samples, Config.default⟩ 0).run
        [.render, .render]).session
      s.visits = [⟨[.space [0] "n", .slot "n" "default", .space [0] "m"], 3⟩,
          ⟨[.space [0] "n", .slot "n" "default"], 2⟩, ⟨[.space [0] "n"], 1⟩] ∧
        ∀ x ∈ s.visits, s.Enclosed x := by
  have hload : Node.ofJson panelSchema = .ok panelNode := rfl
  have hnames : panelNode.All Node.Unslashed := by
    refine ⟨?_, ⟨nofun, trivial⟩, trivial⟩
    intro name hname
    rw [List.mem_singleton.1 hname]
    decide
  have hfree := Node.ClashFree.of_unslashed hnames
  exact ⟨hload, hfree, by decide +kernel, (View.frames_of_ways hload
    (Rendered.confined Rendered.samples_confined Config.default) 0 [.render, .render]).2 hfree⟩

/-- A node with two slots, the name of one of which spells a step into the content of the other. -/
def clashingSchema : Json :=
  .object
    [("component", .object
        [("tag", .string "div"),
          ("slotProps", .object
            [("s/0:m", .object []), ("s", .object [("v", .string "inner")])])]),
      ("namespace", .string "n"),
      ("scopedSlots", .object
        [("s/0:m", .object [("component", .string "i")]),
          ("s", .object
            [("component", .string "b"), ("namespace", .string "m"),
              (":text", .string "n#s.v")])])]

/-- The schema it loads to. -/
def clashingNode : Node :=
  .mk
    { Directives.plain (.inline (.object
        [("tag", .string "div"),
          ("slotProps", .object
            [("s/0:m", .object []), ("s", .object [("v", .string "inner")])])])) with ns := some "n" }
    none
    [("s/0:m", .mk (.plain (.named "i")) none []),
      ("s", .mk
        { Directives.plain (.named "b") with
          ns := some "m"
          boundText := some (.path ⟨"n", some "s", ["v"]⟩) } none [])]

/-- Two ways that clash share a frame, and the content of a slot does not find what the slot was
given. -/
theorem View.frames_of_clashing_ways :
    Node.ofJson clashingSchema = .ok clashingNode ∧
      let v := (View.mount clashingNode ⟨Rendered.renderer, Registry.empty, Config.default⟩ 0).render
      v.1 = .error (.slotMissing "n" "s") ∧
        ∃ x ∈ v.2.session.visits, ∃ y ∈ v.2.session.visits, x.way ≠ y.way ∧ x.scope = y.scope := by
  refine ⟨rfl, ?_, ⟨[.space [0] "n", .slot "n" "s", .space [0] "m"], 2⟩, by decide +kernel,
    ⟨[.space [0] "n", .slot "n" "s/0:m"], 2⟩, by decide +kernel, by decide +kernel, rfl⟩
  generalize hv :
    (View.mount clashingNode ⟨Rendered.renderer, Registry.empty, Config.default⟩ 0).render = v
  have hfault : (match v.1 with
      | .error e => some e
      | .ok _ => none) = some (.slotMissing "n" "s") := by
    rw [← hv]
    decide +kernel
  cases hout : v.1 with
  | error e => rw [hout] at hfault; exact congrArg _ (Option.some.inj hfault)
  | ok _ => rw [hout] at hfault; cases hfault

end Trellis
