import Trellis.Proofs.View.Idempotent
import Trellis.Proofs.View.Members

/-!
# What was written stays

A view is the one subscriber of its store, and is told of each write. What the frame of a namespace
was given in one of them it holds from then on, through later passes, failed ones included, as long
as no later write replaces it and no pass that succeeds leaves the frame out: neither a later one nor
the one in the middle of which it was written.

* `Member`, `Delivery.Assigns`: a member of a frame, and the writes that assign it.
* `Session.Upholds`: what the frame holds, which building and evaluating keep.
* `View.Returns`: a run that adds no members over it, and comes back to the frame.
* `View.writes_survive`: after every such run.
* `View.writes_dropped`: a write in the middle of a pass that leaves the frame out.
-/

namespace Trellis

open Schema Session Act Value

variable {n : Node} {s t : Session} {w : Way} {id : ScopeId} {data : Value}

/-! ### Members that were assigned -/

/-- A member of the frame of a namespace: the frame with its address, and the keys that lead to the
member, of which there is at least one. -/
structure Member where
  scope : ScopeId
  path : String
  ns : String
  key : String
  rest : List String

namespace Member

variable {m : Member}

/-- All the keys. -/
def keys (m : Member) : List String := m.key :: m.rest

/-- The path to the member from inside its frame. -/
def lookup (m : Member) : Path := ⟨m.ns, none, m.keys⟩

end Member

/-- What a subscriber was told of assigned a member of a frame: the frame is the nearest of its
namespace, the member has the address that was told, and the value. -/
structure Delivery.Assigns (d : Delivery) (m : Member) (f : Frame) : Prop where
  space : d.seen.space d.change.scope m.ns = .ok (m.scope, f)
  path : f.path = m.path
  address : d.change.path = Store.memberAddress f m.ns m.keys
  value : f.data.at? m.keys = .ok d.change.value

/-- It assigned neither the member, nor one that encloses it or is contained in it. -/
def Delivery.Spares (d : Delivery) (m : Member) : Prop :=
  ∀ m' f, d.Assigns m' f → m'.scope = m.scope → f.data.overlaps m.keys m'.keys = false

/-- The frame of a member is there and holds a value in it. -/
def Session.Holds (s : Session) (m : Member) (v : Value) : Prop :=
  ∃ f, s.store.frame? m.scope = some f ∧ f.path = m.path ∧ f.kind = .space m.ns ∧
    f.data.at? m.keys = .ok v

/-- **A write** is told as one that assigns the member it was given. -/
theorem Handle.Wrote.assigns {h h' : Handle} {scope : ScopeId} {ns key : String}
    {rest : List String} {v : Value} {f : Frame}
    (hw : h.Wrote scope ns (key :: rest) v id f data h') (i r : Nat) :
    Delivery.Assigns ⟨i, ⟨scope, Store.memberAddress f ns (key :: rest), v, r⟩, h'.store⟩
      ⟨id, f.path, ns, key, rest⟩ { f with data := data } where
  space := by
    have hs := Store.space_modify (j := id) (g := fun f => { f with data := data })
      (fun _ => rfl) (fun _ => rfl) hw.space
    rw [Store.changed, if_pos rfl] at hs
    change h'.store.space scope ns = _
    rw [hw.store]
    exact hs
  path := rfl
  address := rfl
  value := at?_of_replace hw.replaced

namespace Session

variable {m : Member} {v : Value} {base : List Delivery}

/-- **What was assigned is there** when subscribers are told. -/
theorem Holds.of_assigns {d : Delivery} {f : Frame} (h : d.Assigns m f) (hseen : d.seen = s.store) :
    s.Holds m d.change.value := by
  obtain ⟨hf, hk⟩ := Store.frame?_of_space h.space
  rw [hseen] at hf
  exact ⟨f, hf, h.path, hk, h.value⟩

/-- Frames are left as they were but for what cannot be seen from inside. -/
theorem Holds.of_frame (h : s.Holds m v)
    (hframe : ∀ f, s.store.frame? m.scope = some f → ∃ f', t.store.frame? m.scope = some f' ∧
      f'.path = f.path ∧ f'.kind = f.kind ∧ f'.data.at? m.keys = f.data.at? m.keys) :
    t.Holds m v := by
  obtain ⟨f, hf, hp, hk, hd⟩ := h
  obtain ⟨f', hf', hp', hk', hd'⟩ := hframe f hf
  exact ⟨f', hf', hp'.trans hp, hk'.trans hk, hd'.trans hd⟩

end Session

/-- All of the data of a namespace lasts, but for what its loop sets. -/
theorem Schema.Way.at?_lasting {ns key : String} (hkind : w.kind = .space ns) (v : Value)
    (hkey : key ≠ loopKey) (rest : List String) :
    (w.lasting v).at? (key :: rest) = v.at? (key :: rest) := by
  unfold Way.kind at hkind
  unfold Way.lasting
  cases hlast : w.getLast? with
  | none => rw [hlast] at hkind; cases hkind
  | some step =>
    rw [hlast] at hkind
    change (step.lasting v).at? _ = _
    cases step with
    | space => rfl
    | slot => cases hkind
    | turn =>
      cases v with
      | object members =>
        change (Value.object (Members.assign members loopKey .null)).at? _ = _
        rw [at?, at?, member?, member?, Members.get?_assign_of_ne (m := members) Value.null hkey]
      | _ => rfl

namespace Session

variable {m : Member} {v : Value} {base : List Delivery}

/-- Since a time when subscribers had been told of `base`: what assigned the member, if all that was
told later spared it, is what the frame holds. -/
structure Upholds (base : List Delivery) (m : Member) (s : Session) : Prop where
  single : s.handle.subscribers = 1
  since : base <+: s.handle.deliveries
  holds : ∀ told d later f, s.handle.deliveries = told ++ d :: later → base <+: told →
    d.Assigns m f → (∀ d' ∈ later, d'.Spares m) → s.Holds m d.change.value

/-- Nothing was told in between, and what the frame held it holds. -/
theorem Upholds.of_holds (h : s.Upholds base m)
    (hsubscribers : t.handle.subscribers = s.handle.subscribers)
    (hdeliveries : t.handle.deliveries = s.handle.deliveries)
    (hholds : ∀ v, s.Holds m v → t.Holds m v) : t.Upholds base m where
  single := hsubscribers.trans h.single
  since := hdeliveries ▸ h.since
  holds told d later f hsplit hbase hassigns hspares :=
    hholds _ (h.holds told d later f (hdeliveries ▸ hsplit) hbase hassigns hspares)

/-- **Entering frames** leaves what they hold. -/
theorem Holds.arrives (h : s.Holds m v) (hfree : n.ClashFree) (hkey : m.key ≠ loopKey)
    (ht : s.Arrives n w id data t) : t.Holds m v := by
  obtain ⟨f, hf, hp, hk, hd⟩ := h
  by_cases hid : m.scope = id
  · subst hid
    obtain ⟨g, hg, hq, rfl⟩ := ht.frame
    have hgkind : g.kind = .space m.ns := (ht.same hfree f g hf hg).2.trans hk
    have hwkind : w.kind = .space m.ns := (ht.after.kind_eq hfree ht.has hg).symm.trans hgkind
    have hw := ht.again f hf
    -- what stood is what the frame held, and it lasts
    have hlasting : w.lasting g.data = w.lasting f.data := by
      rw [ht.lasting hfree, standing, dataAt_eq ht.before.placed.sound hf hw]
      rfl
    refine ⟨g, hg, hq.trans (hw.symm.trans hp), hgkind, ?_⟩
    unfold Member.keys at hd ⊢
    rw [← Way.at?_lasting hwkind g.data hkey, hlasting, Way.at?_lasting hwkind f.data hkey, hd]
  · exact ⟨f, (ht.other _ hid).trans hf, hp, hk, hd⟩

/-- **A write** leaves what it spares. -/
theorem Holds.write {h' : Handle} {scope : ScopeId} {ns key : String} {rest : List String} {x : Value}
    {f : Frame} (h : s.Holds m v) (hw : s.handle.Wrote scope ns (key :: rest) x id f data h')
    (hspares : id = m.scope → data.overlaps m.keys (key :: rest) = false) :
    Holds { s with handle := h' } m v := by
  refine h.of_frame fun f' hf' => ?_
  by_cases hid : id = m.scope
  · subst hid
    rw [show s.store.frame? m.scope = some f from (Store.frame?_of_space hw.space).1] at hf'
    cases hf'
    exact ⟨_, hw.frame, rfl, rfl, at?_of_apart hw.replaced (hspares rfl)⟩
  · refine ⟨f', ?_, rfl, rfl, rfl⟩
    change h'.store.frame? m.scope = some f'
    rw [hw.store, Store.frame?_modify_of_ne _ (Ne.symm hid)]
    exact hf'

theorem Upholds.write {scope : ScopeId} {ns : String} {keys : List String} {x : Value} {h' : Handle}
    (h : s.Upholds base m) (hw : s.handle.write scope ns keys x = .ok h') :
    Upholds base m { s with handle := h' } := by
  obtain ⟨id, f, data, hwrote⟩ := Handle.wrote_of_write hw
  obtain ⟨hsingle, htold⟩ := hwrote.told h.single
  obtain ⟨key, rest, rfl⟩ := List.exists_cons_of_ne_nil hwrote.below
  refine ⟨hsingle, ?_, fun told d later g hsplit hbase hassigns hspares => ?_⟩
  · change base <+: h'.deliveries
    rw [htold]
    exact h.since.trans (List.prefix_append _ _)
  · change h'.deliveries = _ at hsplit
    rw [htold] at hsplit
    rcases List.eq_nil_or_concat' later with rfl | ⟨later, last, rfl⟩
    · -- the member was assigned just now
      obtain ⟨-, hd⟩ := List.append_inj' hsplit rfl
      cases hd
      exact Holds.of_assigns hassigns rfl
    · -- it was assigned before, and is spared now
      rw [← List.cons_append, ← List.append_assoc] at hsplit
      obtain ⟨hbefore, hlast⟩ := List.append_inj' hsplit rfl
      cases hlast
      have hheld := h.holds told d later g hbefore hbase hassigns fun d' hd' =>
        hspares d' (List.mem_append_left _ hd')
      exact hheld.write hwrote (hspares _ (List.mem_append_right _ List.mem_cons_self) _ _
        (hwrote.assigns 0 _))

/-- A session upholds the member, if no ways clash and no loop sets it. -/
def Upheld (n : Node) (base : List Delivery) (m : Member) (s : Session) : Prop :=
  n.ClashFree → m.key ≠ loopKey → s.Upholds base m

instance : AllowsBuilding n (Keeping (Upheld n base m)) where
  trans _ _ _ h h' hs := h' (h hs)
  inner s t hh _ hs hfree hkey :=
    (hs hfree hkey).of_holds (by rw [hh]) (by rw [hh]) fun v hv => by
      unfold Holds Session.store at hv ⊢
      rwa [← hh]
  write _ _ _ _ _ _ hw hs hfree hkey := (hs hfree hkey).write hw
  enter ht _ hs hfree hkey := by
    refine (hs hfree hkey).of_holds ?_ ?_ fun v hv => hv.arrives hfree hkey ht
    all_goals
      obtain ⟨store, rfl⟩ := ht.rest
      rfl

/-! ### Moves -/

theorem Upholds.begun (h : s.Upholds base m) : s.begun.Upholds base m :=
  h.of_holds rfl rfl fun v hv => hv.of_frame fun f hf => by
    have hframe : s.begun.store.frame? m.scope = (s.store.frame? m.scope).map _ :=
      Store.frame?_beginPass m.scope
    rw [hf] at hframe
    refine ⟨_, hframe, ?_⟩
    unfold Store.changed
    split <;> exact ⟨rfl, rfl, rfl⟩

/-- **The end of a pass** leaves the frame if the pass came to its address. -/
theorem Upholds.finished (h : s.Upholds base m) (hs : s.Built n)
    (hcame : ∃ x ∈ s.visits, x.way.address = m.path) : s.finished.Upholds base m := by
  refine h.of_holds rfl rfl fun v ⟨f, hf, hp, hk, hd⟩ => ?_
  obtain ⟨x, hx, haddress⟩ := hcame
  obtain ⟨g, hg, hq, -⟩ := hs.placed.touched x hx
  have hscope : m.scope = x.scope :=
    hs.placed.sound.eq_of_path hf hg (hp.trans (haddress.symm.trans hq.symm))
  have hhas : s.Has x.way m.scope := hscope ▸ .inr hx
  exact ⟨f, (hhas.frame?_finished hs).trans hf, hp, hk, hd⟩

/-- **Adding** members beside it leaves the member. -/
theorem Upholds.add (h : s.Upholds base m) (hs : s.Built n) (hfree : n.ClashFree)
    (hready : s.Ready n) {scope : ScopeId} {ns : String} {members : Members Value}
    (hbeside : ∀ f, s.store.space scope ns = .ok (m.scope, f) → m.key ∉ Members.names members) :
    Upholds base m ((Act.adding scope ns members).runOn s).2 := by
  cases hspace : s.store.space scope ns with
  | error e =>
    rw [Act.adding_error hspace]
    exact h
  | ok x =>
    obtain ⟨id, g⟩ := x
    rw [Act.adding_ok hspace]
    refine h.of_holds rfl rfl fun v ⟨f, hf, hp, hk, hd⟩ => ?_
    by_cases hid : m.scope = id
    · subst hid
      obtain ⟨old, hold⟩ := hready.members hs hfree hf hk
      have hf' : (s.store.modify m.scope (Frame.extend · members)).frame? m.scope =
          some { f with data := .object (Members.extend old members) } := by
        rw [Store.frame?_modify_self, hf, Option.map_some, Frame.extend, hold]
      refine ⟨_, hf', hp, hk, ?_⟩
      rw [hold] at hd
      exact (at?_extend m.key (hbeside g hspace) old m.rest).trans hd
    · exact ⟨f, (Store.frame?_modify_of_ne _ hid).trans hf, hp, hk, hd⟩

end Session

/-! ### Runs -/

namespace View

variable {N C : Type}

/-- A render that succeeds comes to the frame of a member, and what is added to a namespace is
beside it. -/
def ReturnsBy (m : Member) (v : View N C) : Move → Prop
  | .render => ∀ node, v.render.1 = .ok node →
      ∃ x ∈ v.render.2.session.visits, x.way.address = m.path
  | .add scope ns members => ∀ f, v.session.store.space scope ns = .ok (m.scope, f) →
      m.key ∉ Members.names members
  | .fire _ _ => True
  | .write _ _ _ => True

/-- So do all the moves of a run, the one it is assigned in among them. -/
def Returns (m : Member) : View N C → List Move → Prop
  | _, [] => True
  | v, move :: moves => v.ReturnsBy m move ∧ (v.step move).Returns m moves

variable {b : Builder N C} {m : Member} {base : List Delivery} {v : View N C}

section Moves

variable (hv : v.Built b n) (hb : b.Honest) (hn : n.All Node.Orderly) (hfree : n.ClashFree)
  (hkey : m.key ≠ loopKey) (hready : v.session.Ready n) (h : v.session.Upholds base m)

include hv hb hn hfree hkey hready h

theorem Built.step_upholds (move : Move) (hreturns : v.ReturnsBy m move) :
    (v.step move).session.Upholds base m := by
  refine View.step_keeps n (I := Upheld n base m) move ?_ ?_ (fun _ _ => h) hfree hkey
  · rintro rfl
    refine hv.render_keeps hb hn (fun _ _ => h.begun)
      fun node u hout hsession hu hI hfree hkey => (hI hfree hkey).finished hu ?_
    have hvisits : v.render.2.session.visits = u.visits := by rw [hsession]; rfl
    exact hvisits ▸ hreturns node hout
  · rintro scope ns members rfl _ _
    exact h.add hv.session hfree hready hreturns

theorem Built.run_upholds (moves : List Move) (hreturns : v.Returns m moves) :
    (v.run moves).session.Upholds base m := by
  induction moves generalizing v with
  | nil => exact h
  | cons move moves ih =>
    exact ih (hv.step hb.confined hn move) (hv.step_ready hb hn hfree hready move)
      (hv.step_upholds hb hn hfree hkey hready h move hreturns.1) hreturns.2

end Moves

end View

/-- **What was written stays.** In a run of a view without a slash in the names of its slots that
adds no members over it and that comes back to its frame with each render that succeeds, a member
that was assigned reads, from inside its frame, as the value it was assigned, as long as nothing that
was told later assigned the same member, one that encloses it or one that is contained in it; and the
frame of its address is still the same one. -/
theorem View.writes_survive {N C : Type} {b : Builder N C} (hb : b.Honest) {n : Node}
    (hslots : n.All fun m => m.slots.Distinct) (hnames : n.All Node.Unslashed) (k : Nat)
    (before after : List Move) :
    let v := (View.mount n b k).run before
    let t := (v.run after).session
    ∀ (m : Member) told d later f, v.session.handle.deliveries <+: told →
      t.handle.deliveries = told ++ d :: later → d.Assigns m f → m.key ≠ loopKey →
      (∀ d' ∈ later, d'.Spares m) → v.Returns m after →
        t.store.get m.scope m.lookup = .ok d.change.value ∧
          t.store.scopeAt? m.path = some m.scope ∧
          ∀ x ∈ t.visits, x.way.address = m.path ↔ x.scope = m.scope := by
  intro v t m told d later f hbase hsplit hassigns hkey hspares hreturns
  have horderly : n.once.All Node.Orderly := Node.orderly_once hslots
  have hfree : n.once.ClashFree := Node.clashFree_once hnames
  have hmounted := View.mount_once n b k
  have hv : v.Built b n.once := hmounted.run hb.confined horderly before
  have hready : v.session.Ready n.once :=
    hmounted.run_ready hb horderly hfree (Session.Ready.start hfree rfl) before
  have htallied : v.session.Tallied :=
    hmounted.run_tallied hb horderly (View.mount_tallied n b k) before
  have hstart : v.session.Upholds v.session.handle.deliveries m := by
    refine ⟨htallied.subscribers, List.prefix_refl _, fun told d later f hsplit hbase => ?_⟩
    -- nothing was told yet
    have hle := hbase.length_le
    rw [hsplit, List.length_append, List.length_cons] at hle
    omega
  have hupholds : t.Upholds v.session.handle.deliveries m :=
    hv.run_upholds hb horderly hfree hkey hready hstart after hreturns
  have ht : t.Built n.once := (hv.run hb.confined horderly after).session
  obtain ⟨g, hg, hp, hk, hd⟩ := hupholds.holds told d later f hsplit hbase hassigns hspares
  refine ⟨?_, hp ▸ ht.placed.sound.indexed _ g hg, fun x hx => ?_⟩
  · unfold Store.get
    simp only [Member.lookup, Store.space_self hg hk, bind, Except.bind, hd]
  · obtain ⟨g', hg', hp', -⟩ := ht.placed.touched x hx
    constructor
    · intro haddress
      exact ht.placed.sound.eq_of_path hg' hg (hp'.trans (haddress.trans hp.symm))
    · rintro hscope
      rw [hscope, hg] at hg'
      cases hg'
      exact hp'.symm.trans hp

/-! ### Runs on given moves -/

/-- Whether the last that was told assigned a text to the member. -/
def Handle.lastAssigns (h : Handle) (m : Member) (text : String) : Bool :=
  h.deliveries.getLast?.any fun d =>
    match d.seen.space d.change.scope m.ns, d.change.value with
    | .ok (id, f), .string x =>
      decide (id = m.scope ∧ f.path = m.path ∧ x = text ∧
        d.change.path = Store.memberAddress f m.ns m.keys) &&
      match f.data.at? m.keys with
      | .ok (.string y) => decide (y = text)
      | _ => false
    | _, _ => false

theorem Handle.assigns_of_lastAssigns {h : Handle} {m : Member} {text : String}
    (hlast : h.lastAssigns m text = true) :
    ∃ told d f, h.deliveries = told ++ [d] ∧ d.Assigns m f ∧ d.change.value = .string text := by
  obtain ⟨d, hd, hcheck⟩ := (Option.any_eq_true _ _).1 hlast
  obtain ⟨told, htold⟩ := List.getLast?_eq_some_iff.1 hd
  split at hcheck
  · next id f x hspace hvalue =>
    rw [Bool.and_eq_true] at hcheck
    obtain ⟨hmember, hheld⟩ := hcheck
    obtain ⟨rfl, hpath, rfl, haddress⟩ := of_decide_eq_true hmember
    split at hheld
    · next y hy =>
      obtain rfl := of_decide_eq_true hheld
      exact ⟨told, d, f, htold, ⟨hspace, hpath, haddress, hvalue ▸ hy⟩, hvalue⟩
    · cases hheld
  · cases hcheck

/-- The list grows and part of the note is overwritten, and then everything is rendered again. -/
def growingMoves : List Move :=
  [.write 1 ⟨"n", none, ["items"]⟩ (.array [.string "a", .string "b", .string "c"]),
    .write 1 ⟨"n", none, ["note", "t"]⟩ (.string "y"), .render]

/-- The part of the note that is overwritten. -/
def noteMember : Member := ⟨1, "/0:n", "n", "note", ["t"]⟩

/-- The note reads as it was overwritten, although the list beside it has grown. -/
theorem View.writes_survive_list :
    let v := (View.mount listNode (Builder.bare Config.default) 0).run [.render]
    let t := (v.run growingMoves).session
    (v.session.store.size = 5 ∧ t.store.size = 6) ∧
      t.store.get 1 noteMember.lookup = .ok (.string "y") ∧ t.store.scopeAt? "/0:n" = some 1 ∧
        ∀ x ∈ t.visits, x.way.address = "/0:n" ↔ x.scope = 1 := by
  have hb : (Builder.bare Config.default).Honest := fun _ => Builder.bare_lets _
  have hsurvive := View.writes_survive hb listNode_distinct listNode_unslashed 0 [.render]
    growingMoves noteMember
  generalize hv : (View.mount listNode (Builder.bare Config.default) 0).run [.render] = v
    at hsurvive ⊢
  have hcomes : v.Returns noteMember growingMoves := by
    refine ⟨trivial, trivial, fun _ _ => ⟨⟨[.space [0] "n"], 1⟩, ?_, rfl⟩, trivial⟩
    rw [← hv]
    decide +kernel
  generalize ht : (v.run growingMoves).session = t at hsurvive
  obtain ⟨told, d, f, hlog, hassigns, hvalue⟩ : ∃ told d f, t.handle.deliveries = told ++ [d] ∧
      d.Assigns noteMember f ∧ d.change.value = .string "y" := by
    refine Handle.assigns_of_lastAssigns ?_
    rw [← ht, ← hv]
    decide +kernel
  have hnone : v.session.handle.deliveries = [] := by
    rw [← List.length_eq_zero_iff, ← hv]
    decide +kernel
  obtain ⟨hget, hat, hvisits⟩ := hsurvive told d [] f (hnone ▸ List.nil_prefix) hlog hassigns
    (by decide) nofun hcomes
  rw [hvalue] at hget
  subst ht
  refine ⟨⟨?_, ?_⟩, hget, hat, hvisits⟩
  all_goals
    rw [← hv]
    decide +kernel

/-- A node that gives away a function which writes into its namespace, and a text that calls it. -/
def stowedNode : Node :=
  .mk
    { Directives.plain (.named "div") with
      ns := some "n"
      data := some [("on", .bool true), ("f", .null)] }
    (some
      [.mk
        { Directives.plain (.named "p") with
          condition := ⟨none, some (.path ⟨"n", none, ["on"]⟩)⟩ }
        (some
          [.mk
            { Directives.plain (.named "i") with
              ns := some "m"
              data := some [("a", .string "old")]
              attrs := ⟨[("x", .expression "|> n.f = (v => m.a = v)")], none⟩ } none []]) [],
      .mk
        { Directives.plain (.named "b") with
          boundText := some (.expression "|> n.f && n.f('new')") } none []])
    []

/-- The node is rendered, and is then to be left out. -/
def stowingMoves : List Move :=
  [.render, .write 1 ⟨"n", none, ["on"]⟩ (.bool false)]

/-- What the function writes. -/
def stowedMember : Member := ⟨2, "/0:n/0.0:m", "m", "a", []⟩

/-- What is written in the middle of a pass that does not come to the frame is gone with the frame
when that pass ends, although no other render follows. -/
theorem View.writes_dropped :
    stowedNode.All Node.Proper ∧ stowedNode.All Node.Unslashed ∧
      let v := (View.mount stowedNode (Builder.bare ⟨true⟩) 0).run stowingMoves
      let t := v.render.2.session
      v.render.1.isOk ∧
        (∃ told d f, t.handle.deliveries = told ++ [d] ∧
          told.length = v.session.handle.deliveries.length ∧ d.Assigns stowedMember f ∧
          d.change.value = .string "new") ∧
        t.store.get stowedMember.scope stowedMember.lookup = .error .released := by
  have hproper : stowedNode.All Node.Proper :=
    ⟨⟨List.nodup_nil, rfl, nofun⟩,
      ⟨⟨⟨List.nodup_nil, rfl, nofun⟩, ⟨⟨⟨List.nodup_nil, rfl, nofun⟩, trivial⟩, trivial⟩, trivial⟩,
        ⟨⟨List.nodup_nil, rfl, nofun⟩, trivial⟩, trivial⟩, trivial⟩
  have hunslashed : stowedNode.All Node.Unslashed :=
    ⟨nofun, ⟨⟨nofun, ⟨⟨nofun, trivial⟩, trivial⟩, trivial⟩, ⟨nofun, trivial⟩, trivial⟩, trivial⟩
  generalize hv : (View.mount stowedNode (Builder.bare ⟨true⟩) 0).run stowingMoves = v
  have hok : v.render.1.isOk = true := by
    rw [← hv]
    decide +kernel
  obtain ⟨told, d, f, hlog, hassigns, hvalue⟩ : ∃ told d f,
      v.render.2.session.handle.deliveries = told ++ [d] ∧ d.Assigns stowedMember f ∧
        d.change.value = .string "new" := by
    refine Handle.assigns_of_lastAssigns ?_
    rw [← hv]
    decide +kernel
  have hlength : v.render.2.session.handle.deliveries.length =
      v.session.handle.deliveries.length + 1 := by
    rw [← hv]
    decide +kernel
  rw [hlog, List.length_append, List.length_singleton] at hlength
  have hgone : (match v.render.2.session.store.get stowedMember.scope stowedMember.lookup with
      | .error e => decide (e = .released)
      | .ok _ => false) = true := by
    rw [← hv]
    decide +kernel
  refine ⟨hproper, hunslashed, hok, ⟨told, d, f, hlog, Nat.succ.inj hlength, hassigns, hvalue⟩, ?_⟩
  split at hgone
  · next e hget => rw [hget, of_decide_eq_true hgone]
  · cases hgone

end Trellis
