import Trellis.Proofs.Scope.Address
import Trellis.Schema

/-!
# The ways of a schema

Which steps lead on from a frame is settled by the schema: a frame holds nodes at positions, the
turns of one node, or the contents of the slots of one node. Of two ways with one address the schema
leaves no choice, except that the name of a slot may swallow what another way spells in steps.

* `Schema.Node.All`: a property of every node of a schema.
* `Schema.Locus.after`: where a way through a schema leads.
* `Clash`: ways that part at two slots of a node and are spelled alike behind.
* `Schema.Locus.address_eq_iff`: ways of one address are the same, or they clash.
* `Schema.Node.ClashFree.of_unslashed`: no ways clash in a schema without a slash in the name of a
  slot.
-/

namespace Trellis

namespace Schema

namespace Node

mutual

/-- A property of every node of a schema. -/
def All (P : Node → Prop) : Node → Prop
  | mk d none contents => P (mk d none contents) ∧ AllContents P contents
  | mk d (some kids) contents =>
    P (mk d (some kids) contents) ∧ AllKids P kids ∧ AllContents P contents

/-- A property of every node of some schemas. -/
def AllKids (P : Node → Prop) : List Node → Prop
  | [] => True
  | n :: rest => All P n ∧ AllKids P rest

/-- A property of every node of the contents of slots. -/
def AllContents (P : Node → Prop) : List (String × Node) → Prop
  | [] => True
  | (_, n) :: rest => All P n ∧ AllContents P rest

end

variable {P : Node → Prop} {n : Node}

theorem All.self (h : n.All P) : P n := by
  obtain ⟨d, _ | kids, contents⟩ := n <;> exact h.1

theorem All.kids (h : n.All P) : AllKids P (n.children.getD []) := by
  obtain ⟨d, _ | kids, contents⟩ := n
  · trivial
  · exact h.2.1

theorem All.contents (h : n.All P) : AllContents P n.slots := by
  obtain ⟨d, _ | kids, contents⟩ := n
  · exact h.2
  · exact h.2.2

theorem AllKids.getElem {kids : List Node} (h : AllKids P kids) {i : Nat}
    (hi : kids[i]? = some n) : n.All P := by
  induction kids generalizing i with
  | nil => simp at hi
  | cons k kids ih =>
    cases i with
    | zero => simp only [List.getElem?_cons_zero, Option.some.injEq] at hi; exact hi ▸ h.1
    | succ i => exact ih h.2 (by simpa using hi)

theorem allContents_iff {contents : List (String × Node)} :
    AllContents P contents ↔ ∀ c ∈ contents, c.2.All P := by
  induction contents with
  | nil => exact iff_of_true trivial (List.forall_mem_nil _)
  | cons c contents ih =>
    rw [List.forall_mem_cons, ← ih]
    exact Iff.rfl

theorem AllContents.get {contents : Members Node} (h : AllContents P contents) {name : String}
    (hn : contents.get? name = some n) : n.All P :=
  allContents_iff.1 h (name, n) (Members.mem_of_get? hn)

end Node

/-- What a frame is for: nodes at its first positions, the node whose turns are in it, and the
contents of slots, with the namespace they are addressed under. -/
structure Locus where
  kids : List Node
  turn : Option Node
  slots : Option (String × Members Node)

namespace Locus

/-- A frame in which one node is built: the root, or that of a slot. -/
def content (n : Node) : Locus := ⟨[n], none, none⟩

/-- The frame around the turns of a loop. -/
def anchor (n : Node) : Locus := ⟨[], some n, none⟩

/-- The frame of a node. -/
def inside (n : Node) : Locus := ⟨n.children.getD [], none, n.self.ns.map fun ns => (ns, n.slots)⟩

/-- The node at some positions: a child, a child of it, and so on. -/
def nodeAt : List Node → List Nat → Option Node
  | _, [] => none
  | kids, [i] => kids[i]?
  | kids, i :: j :: rest => kids[i]?.bind fun n => nodeAt (n.children.getD []) (j :: rest)

/-- Where a step leads. -/
def next (l : Locus) : Step → Option Locus
  | .space ps ns => (nodeAt l.kids ps).bind fun n =>
    if n.self.ns = some ns then some (if n.self.loop.isSome then anchor n else inside n) else none
  | .turn _ ns => l.turn.bind fun n => if n.self.ns = some ns then some (inside n) else none
  | .slot ns name => l.slots.bind fun owner =>
    if owner.1 = ns then (Members.get? owner.2 name).map content else none

/-- Where a way leads. -/
def after : Locus → Way → Option Locus
  | l, [] => some l
  | l, step :: w => (l.next step).bind fun m => m.after w

theorem after_append (l : Locus) (v w : Way) :
    l.after (v ++ w) = (l.after v).bind fun m => m.after w := by
  induction v generalizing l with
  | nil => rfl
  | cons step v ih =>
    rw [List.cons_append, after, after]
    cases l.next step with
    | none => rfl
    | some m => exact ih m

theorem after_concat (l : Locus) (w : Way) (step : Step) :
    l.after (w ++ [step]) = (l.after w).bind fun m => m.next step := by
  rw [after_append]
  cases l.after w with
  | none => rfl
  | some m =>
    change (m.next step).bind (fun m' => some m') = m.next step
    cases m.next step <;> rfl

/-- A way that leads through a schema does so from its beginning on. -/
theorem leads_of_append {l : Locus} {v w : Way} (h : (l.after (v ++ w)).isSome) :
    (l.after v).isSome := by
  rw [after_append] at h
  exact Option.isSome_of_isSome_bind h

end Locus

end Schema

/-- Ways that part at two slots, and whose addresses are spelled alike from there. -/
def Clash (p q : Way) : Prop :=
  ∃ o ns x y p' q', p = o ++ .slot ns x :: p' ∧ q = o ++ .slot ns y :: q' ∧ x ≠ y ∧
    x ++ Way.address p' = y ++ Way.address q'

theorem Clash.cons {p q : Way} (h : Clash p q) (step : Step) : Clash (step :: p) (step :: q) := by
  obtain ⟨o, ns, x, y, p', q', rfl, rfl, hne, heq⟩ := h
  exact ⟨step :: o, ns, x, y, p', q', rfl, rfl, hne, heq⟩

/-- Ways that clash have the same address. -/
theorem Clash.address_eq {p q : Way} (h : Clash p q) : p.address = q.address := by
  obtain ⟨o, ns, x, y, p', q', rfl, rfl, -, heq⟩ := h
  have hchars := congrArg String.toList heq
  rw [String.toList_append, String.toList_append, Way.toList_address, Way.toList_address] at hchars
  rw [Way.address_inj_iff, Way.chars_append, Way.chars_append, Way.chars_cons, Way.chars_cons,
    Step.toList_slot, Step.toList_slot]
  simp only [List.cons_append, List.append_assoc, hchars]

namespace Schema.Locus

variable {l m : Locus}

theorem next_space {ps : List Nat} {ns : String} (h : l.next (.space ps ns) = some m) :
    ∃ n, nodeAt l.kids ps = some n ∧ n.self.ns = some ns ∧
      m = if n.self.loop.isSome then anchor n else inside n := by
  obtain ⟨n, hn, hm⟩ := Option.bind_eq_some_iff.1 h
  split at hm
  · next hns => exact ⟨n, hn, hns, (Option.some.inj hm).symm⟩
  · cases hm

theorem next_turn {i : Nat} {ns : String} (h : l.next (.turn i ns) = some m) :
    ∃ n, l.turn = some n ∧ n.self.ns = some ns ∧ m = inside n := by
  obtain ⟨n, hn, hm⟩ := Option.bind_eq_some_iff.1 h
  split at hm
  · next hns => exact ⟨n, hn, hns, (Option.some.inj hm).symm⟩
  · cases hm

theorem next_slot {ns name : String} (h : l.next (.slot ns name) = some m) :
    ∃ contents n, l.slots = some (ns, contents) ∧ Members.get? contents name = some n ∧
      m = content n := by
  obtain ⟨⟨own, contents⟩, hslots, hm⟩ := Option.bind_eq_some_iff.1 h
  split at hm
  · next hns =>
    obtain ⟨n, hn, rfl⟩ := Option.map_eq_some_iff.1 hm
    have hown : own = ns := hns
    exact ⟨contents, n, hown ▸ hslots, hn, rfl⟩
  · cases hm

theorem positions_ne_nil {ps : List Nat} {ns : String} (h : l.next (.space ps ns) = some m) :
    ps ≠ [] := by
  rintro rfl
  obtain ⟨n, hn, -⟩ := next_space h
  cases hn

/-- Steps to nodes with frames: the positions end at the first colon. -/
theorem space_eq {ps qs : List Nat} {ns ms : String} {m' : Locus}
    (hs : l.next (.space ps ns) = some m) (ht : l.next (.space qs ms) = some m') {a b : List Char}
    (h : (Step.space ps ns).segment.toList ++ a = (Step.space qs ms).segment.toList ++ b) :
    Step.space ps ns = .space qs ms ∧ a = b := by
  rw [Step.toList_space, Step.toList_space, List.append_assoc, List.append_assoc, List.cons_append,
    List.cons_append] at h
  have hcolon : ∀ ps : List Nat, ':' ∉ positionChars ps := by
    intro ps hm
    rcases mem_positionChars hm with hd | hd <;> revert hd <;> decide
  obtain ⟨hpos, hrest⟩ := append_delimiter_inj (hcolon ps) (hcolon qs) h
  have hps := positionChars_inj (positions_ne_nil hs) (positions_ne_nil ht) hpos
  subst hps
  -- the node at these positions has one namespace
  obtain ⟨n, hn, hns, -⟩ := next_space hs
  obtain ⟨n', hn', hms, -⟩ := next_space ht
  rw [hn] at hn'
  cases hn'
  rw [hns] at hms
  cases hms
  exact ⟨rfl, List.append_cancel_left hrest⟩

/-- Steps to turns: the number stands in brackets. -/
theorem turn_eq {i j : Nat} {ns ms : String} {m' : Locus} (hs : l.next (.turn i ns) = some m)
    (ht : l.next (.turn j ms) = some m') {a b : List Char}
    (h : (Step.turn i ns).segment.toList ++ a = (Step.turn j ms).segment.toList ++ b) :
    Step.turn i ns = .turn j ms ∧ a = b := by
  rw [Step.toList_turn, Step.toList_turn] at h
  simp only [List.cons_append, List.append_assoc, List.nil_append, List.cons.injEq, true_and] at h
  obtain ⟨hdigits, hrest⟩ :=
    append_delimiter_inj (notMem_toDigits rfl i) (notMem_toDigits rfl j) h
  have hij := toDigits_inj hdigits
  subst hij
  -- the loop has one namespace
  obtain ⟨n, hn, hns, -⟩ := next_turn hs
  obtain ⟨n', hn', hms, -⟩ := next_turn ht
  rw [hn] at hn'
  cases hn'
  rw [hns] at hms
  cases hms
  exact ⟨rfl, hrest⟩

/-- Steps to slots: both begin with the namespace of the owner. -/
theorem slot_eq {ns ms x y : String} {m' : Locus} (hs : l.next (.slot ns x) = some m)
    (ht : l.next (.slot ms y) = some m') {a b : List Char}
    (h : (Step.slot ns x).segment.toList ++ a = (Step.slot ms y).segment.toList ++ b) :
    ns = ms ∧ x.toList ++ a = y.toList ++ b := by
  obtain ⟨contents, n, hn, -⟩ := next_slot hs
  obtain ⟨contents', n', hn', -⟩ := next_slot ht
  rw [hn] at hn'
  cases hn'
  rw [Step.toList_slot, Step.toList_slot] at h
  simp only [List.cons_append, List.append_assoc, List.cons.injEq, true_and] at h
  have hrest := List.append_cancel_left h
  simp only [List.cons.injEq, true_and] at hrest
  exact ⟨rfl, hrest⟩

/-- **Steps** from one frame whose segments begin the same text are the same, or go to two slots of
a node. -/
theorem step_eq_or_slots {s t : Step} {m' : Locus} (hs : l.next s = some m)
    (ht : l.next t = some m') {a b : List Char}
    (h : s.segment.toList ++ a = t.segment.toList ++ b) :
    (s = t ∧ a = b) ∨
      ∃ ns x y, s = .slot ns x ∧ t = .slot ns y ∧ x ≠ y ∧ x.toList ++ a = y.toList ++ b := by
  -- steps of two kinds begin with two characters
  cases s with
  | space ps ns =>
    cases t with
    | space qs ms => exact .inl (space_eq hs ht h)
    | turn j ms =>
      rw [Step.toList_turn] at h
      exact absurd rfl (Step.head_space h).1
    | slot ms y =>
      rw [Step.toList_slot] at h
      exact absurd rfl (Step.head_space h).2
  | turn i ns =>
    cases t with
    | space qs ms =>
      rw [Step.toList_turn] at h
      exact absurd rfl (Step.head_space h.symm).1
    | turn j ms => exact .inl (turn_eq hs ht h)
    | slot ms y =>
      rw [Step.toList_turn, Step.toList_slot] at h
      simp at h
  | slot ns x =>
    cases t with
    | space qs ms =>
      rw [Step.toList_slot] at h
      exact absurd rfl (Step.head_space h.symm).2
    | turn j ms =>
      rw [Step.toList_turn, Step.toList_slot] at h
      simp at h
    | slot ms y =>
      obtain ⟨rfl, hrest⟩ := slot_eq hs ht h
      by_cases hxy : x = y
      · subst hxy
        exact .inl ⟨rfl, List.append_cancel_left hrest⟩
      · exact .inr ⟨ns, x, y, rfl, rfl, hxy, hrest⟩

/-- Ways that are spelled alike from one frame on are the same, or they clash. -/
theorem eq_or_clash {p q : Way} (hp : (l.after p).isSome) (hq : (l.after q).isSome)
    (h : p.chars = q.chars) : p = q ∨ Clash p q := by
  induction p generalizing l q with
  | nil =>
    cases q with
    | nil => exact .inl rfl
    | cons t q => cases h
  | cons s p ih =>
    cases q with
    | nil => cases h
    | cons t q =>
      rw [after] at hp hq
      obtain ⟨m, hs⟩ := Option.isSome_iff_exists.1 (Option.isSome_of_isSome_bind hp)
      obtain ⟨m', ht⟩ := Option.isSome_iff_exists.1 (Option.isSome_of_isSome_bind hq)
      rw [Way.chars_cons, Way.chars_cons, List.cons.injEq] at h
      rcases step_eq_or_slots hs ht h.2 with ⟨rfl, hrest⟩ | ⟨ns, x, y, rfl, rfl, hxy, hrest⟩
      · -- the ways go on from the same frame
        rw [hs] at ht hp hq
        cases ht
        rcases ih hp hq hrest with rfl | hc
        · exact .inl rfl
        · exact .inr (hc.cons s)
      · refine .inr ⟨[], ns, x, y, p, q, rfl, rfl, hxy, ?_⟩
        rw [← String.toList_inj, String.toList_append, String.toList_append, Way.toList_address,
          Way.toList_address]
        exact hrest

/-- **Ways of one address** through a schema are the same, or they clash. -/
theorem address_eq_iff {p q : Way} (hp : (l.after p).isSome) (hq : (l.after q).isSome) :
    p.address = q.address ↔ p = q ∨ Clash p q := by
  constructor
  · intro h
    exact eq_or_clash hp hq (Way.address_inj_iff.1 h)
  · rintro (rfl | hc)
    · rfl
    · exact hc.address_eq

/-! ### Schemas without clashes -/

/-- A property of every node a frame is for. -/
structure Within (P : Node → Prop) (l : Locus) : Prop where
  kids : Node.AllKids P l.kids
  turn : ∀ n, l.turn = some n → n.All P
  slots : ∀ ns contents, l.slots = some (ns, contents) → ∃ n : Node, n.slots = contents ∧ n.All P

variable {P : Node → Prop} {n : Node}

theorem Within.content (h : n.All P) : (content n).Within P :=
  ⟨⟨h, trivial⟩, nofun, nofun⟩

theorem Within.anchor (h : n.All P) : (anchor n).Within P :=
  ⟨trivial, fun _ hn => Option.some.inj hn ▸ h, nofun⟩

theorem Within.inside (h : n.All P) : (inside n).Within P := by
  refine ⟨h.kids, nofun, fun ns contents hs => ⟨n, ?_, h⟩⟩
  obtain ⟨_, -, heq⟩ := Option.map_eq_some_iff.1 hs
  cases heq
  rfl

theorem nodeAt_all {kids : List Node} (h : Node.AllKids P kids) {ps : List Nat}
    (hn : nodeAt kids ps = some n) : n.All P := by
  induction ps generalizing kids with
  | nil => cases hn
  | cons i ps ih =>
    cases ps with
    | nil => exact h.getElem hn
    | cons j ps =>
      obtain ⟨k, hk, hn⟩ := Option.bind_eq_some_iff.1 hn
      exact ih (h.getElem hk).kids hn

/-- **Every step** stays within the schema. -/
theorem Within.next (h : l.Within P) {step : Step} (hm : l.next step = some m) : m.Within P := by
  cases step with
  | space ps ns =>
    obtain ⟨n, hn, -, rfl⟩ := next_space hm
    split
    · exact .anchor (nodeAt_all h.kids hn)
    · exact .inside (nodeAt_all h.kids hn)
  | turn i ns =>
    obtain ⟨n, hn, -, rfl⟩ := next_turn hm
    exact .inside (h.turn n hn)
  | slot ns name =>
    obtain ⟨contents, n, hs, hn, rfl⟩ := next_slot hm
    obtain ⟨owner, rfl, howner⟩ := h.slots ns contents hs
    exact .content (howner.contents.get hn)

theorem Within.after (h : l.Within P) {w : Way} (hm : l.after w = some m) : m.Within P := by
  induction w generalizing l with
  | nil => exact Option.some.inj hm ▸ h
  | cons step w ih =>
    obtain ⟨l', hl', hm⟩ := Option.bind_eq_some_iff.1 hm
    exact ih (h.next hl') hm

end Schema.Locus

namespace Schema.Node

/-- No slash in the names of a node's slots. -/
def Unslashed (n : Node) : Prop :=
  ∀ name ∈ n.slots.names, '/' ∉ name.toList

/-- No two ways through a schema clash. -/
def ClashFree (n : Node) : Prop :=
  ∀ p q : Way, ((Locus.content n).after p).isSome → ((Locus.content n).after q).isSome → ¬ Clash p q

/-- The name of a slot that a way goes to. -/
theorem mem_slot_names {l : Locus} {P : Node → Prop} (hl : l.Within P) {o w : Way}
    {ns name : String} (h : (l.after (o ++ .slot ns name :: w)).isSome) :
    ∃ n : Node, P n ∧ name ∈ n.slots.names := by
  rw [Locus.after_append] at h
  cases ho : l.after o with
  | none => rw [ho] at h; cases h
  | some m =>
    rw [ho, Option.bind_some, Locus.after] at h
    cases hs : m.next (.slot ns name) with
    | none => rw [hs] at h; cases h
    | some m' =>
      obtain ⟨contents, n, hslots, hn, -⟩ := Locus.next_slot hs
      obtain ⟨owner, rfl, howner⟩ := (hl.after ho).slots ns contents hslots
      exact ⟨owner, howner.self, Members.mem_names_of_get? hn⟩

/-- **Without a slash** in the name of any slot no ways clash: the name ends where the next step
begins. -/
theorem ClashFree.of_unslashed {n : Node} (h : n.All Unslashed) : n.ClashFree := by
  rintro _ _ hp hq ⟨o, ns, x, y, p, q, rfl, rfl, hxy, heq⟩
  obtain ⟨k, hk, hx⟩ := mem_slot_names (.content h) hp
  obtain ⟨k', hk', hy⟩ := mem_slot_names (.content h) hq
  have hchars := congrArg String.toList heq
  rw [String.toList_append, String.toList_append, Way.toList_address, Way.toList_address] at hchars
  have hname := append_tail_inj (hk x hx) (hk' y hy) (Way.tail_chars p) (Way.tail_chars q) hchars
  exact hxy (String.toList_inj.1 hname)

end Schema.Node

end Trellis
