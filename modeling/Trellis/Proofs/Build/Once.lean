import Trellis.Proofs.View.Run

/-!
# Contents of slots are built once

Building the content of a slot does not ask whether it is a loop: a schema in which it carries `for`
is built like the one in which it does not. Loading refuses such a schema; a view of one that was put
together otherwise is that of an orderly one.

* `Schema.Node.once`: the schema without loops on the contents of slots.
* `Schema.Node.build_once`: it is built the same. The induction follows the schema.
* `View.mount_once`: so it is in its views.
-/

namespace Trellis

open Schema

namespace Schema

/-- What a node says about itself but that it is a loop. -/
def Directives.unlooped (d : Directives) : Directives :=
  { d with loop := none }

namespace Node

mutual

/-- A schema without loops on the contents of slots. -/
def once : Node → Node
  | mk d none contents => mk d none (onceContents contents)
  | mk d (some kids) contents => mk d (some (onceAll kids)) (onceContents contents)

/-- Schemas without loops on the contents of slots. -/
def onceAll : List Node → List Node
  | [] => []
  | n :: rest => once n :: onceAll rest

/-- Contents of slots that are no loops. -/
def onceContents : List (String × Node) → List (String × Node)
  | [] => []
  | (name, n) :: rest => (name, (once n).update Directives.unlooped) :: onceContents rest

end

theorem once_mk (d : Directives) (kids : Option (List Node)) (contents : List (String × Node)) :
    (mk d kids contents).once = mk d (kids.map onceAll) (onceContents contents) := by
  cases kids <;> rw [once] <;> rfl

@[simp] theorem self_once (n : Node) : n.once.self = n.self := by
  obtain ⟨d, kids, contents⟩ := n
  rw [once_mk]
  rfl

theorem slots_once (n : Node) : n.once.slots = onceContents n.slots := by
  obtain ⟨d, kids, contents⟩ := n
  rw [once_mk]
  rfl

theorem isEmpty_onceContents (contents : List (String × Node)) :
    (onceContents contents).isEmpty = contents.isEmpty := by
  cases contents <;> rfl

theorem names_onceContents : ∀ contents : Members Node,
    Members.names (onceContents contents) = Members.names contents
  | [] => rfl
  | (name, _) :: rest => congrArg (name :: ·) (names_onceContents rest)

theorem loop_onceContents : ∀ contents : List (String × Node),
    ∀ c ∈ onceContents contents, c.2.self.loop = none
  | (_, n) :: rest, c, hc => by
    rcases List.mem_cons.1 hc with rfl | hc
    · obtain ⟨d, kids, contents⟩ := n
      rw [once_mk]
      rfl
    · exact loop_onceContents rest c hc

/-! ### What holds of every node -/

variable {P Q : Node → Prop}

theorem All.unlooped (hloop : ∀ n, Q n → Q (n.update Directives.unlooped)) {n : Node}
    (h : n.All Q) : (n.update Directives.unlooped).All Q := by
  have hself := hloop n h.self
  have hkids := h.kids
  have hcontents := h.contents
  obtain ⟨d, kids, contents⟩ := n
  exact all_iff.2 ⟨hself, hkids, hcontents⟩

mutual

/-- What holds of every node still does, if it is no matter of loops and of what is below. -/
theorem All.once (hP : ∀ n, P n → Q n.once) (hloop : ∀ n, Q n → Q (n.update Directives.unlooped)) :
    ∀ {n : Node}, n.All P → n.once.All Q
  | mk _ none _, h => by
    have hself := hP _ h.self
    rw [once_mk] at hself ⊢
    exact ⟨hself, AllContents.once hP hloop h.2⟩
  | mk _ (some _) _, h => by
    have hself := hP _ h.self
    rw [once_mk] at hself ⊢
    exact ⟨hself, AllKids.once hP hloop h.2.1, AllContents.once hP hloop h.2.2⟩

theorem AllKids.once (hP : ∀ n, P n → Q n.once)
    (hloop : ∀ n, Q n → Q (n.update Directives.unlooped)) :
    ∀ {kids : List Node}, AllKids P kids → AllKids Q (onceAll kids)
  | [], _ => trivial
  | _ :: _, h => ⟨All.once hP hloop h.1, AllKids.once hP hloop h.2⟩

theorem AllContents.once (hP : ∀ n, P n → Q n.once)
    (hloop : ∀ n, Q n → Q (n.update Directives.unlooped)) :
    ∀ {contents : List (String × Node)}, AllContents P contents → AllContents Q (onceContents contents)
  | [], _ => trivial
  | (_, _) :: _, h => ⟨(All.once hP hloop h.1).unlooped hloop, AllContents.once hP hloop h.2⟩

end

/-- **Every node** is orderly then, as long as its slots have different names. -/
theorem orderly_once {n : Node} (h : n.All fun k => k.slots.Distinct) : n.once.All Orderly := by
  refine All.once (fun k hk => ?_) (fun k hk => ?_) h
  · refine ⟨?_, ?_⟩
    · rw [slots_once, Members.Distinct, names_onceContents]
      exact hk
    · rw [slots_once]
      exact loop_onceContents k.slots
  · obtain ⟨d, kids, contents⟩ := k
    exact ⟨hk.distinct, hk.once⟩

/-- The names of slots are the same. -/
theorem unslashed_once {n : Node} (h : n.All Unslashed) : n.once.All Unslashed := by
  refine All.once (fun k hk => ?_) (fun k hk => ?_) h
  · unfold Unslashed
    rw [slots_once, names_onceContents]
    exact hk
  · obtain ⟨d, kids, contents⟩ := k
    exact hk

/-- **No ways clash** then, as long as there is no slash in the names. -/
theorem clashFree_once {n : Node} (h : n.All Unslashed) : n.once.ClashFree :=
  ClashFree.of_unslashed (unslashed_once h)

end Node

end Schema

/-! ### Building -/

section Building

variable {N C : Type} (b : Builder N C)

/-- A node in its frame is built the same whether or not it is a loop. -/
theorem Schema.Node.build_unlooped (n : Node) :
    (n.update Directives.unlooped).build b = n.build b := by
  obtain ⟨d, kids, contents⟩ := n
  funext site
  change Node.build b (.mk d.unlooped kids contents) site = _
  rw [Node.build, Node.build]
  rfl

mutual

/-- **A schema** is built the same without loops on the contents of slots. -/
theorem Schema.Node.build_once : ∀ n : Node, n.once.build b = n.build b
  | .mk d kids contents => by
    funext site
    rw [Node.once_mk, Node.build, Node.build, Node.isEmpty_onceContents,
      Node.buildKids_once kids]
    simp only [Node.buildSlots_once contents]

/-- So are children. -/
theorem Schema.Node.buildKids_once : ∀ kids : Option (List Node),
    Node.buildKids b (kids.map Node.onceAll) = Node.buildKids b kids
  | none => rfl
  | some kids => by
    funext site
    rw [Option.map_some, Node.buildKids, Node.buildKids, Node.buildAll_once kids]

theorem Schema.Node.buildAll_once : ∀ kids : List Node,
    Node.buildAll b (Node.onceAll kids) = Node.buildAll b kids
  | [] => by rw [Node.onceAll]
  | n :: rest => by
    funext site i
    rw [Node.onceAll, Node.buildAll, Node.buildAll, Node.self_once, Node.build_once n,
      Node.buildAll_once rest]

/-- So are the contents of slots. -/
theorem Schema.Node.buildSlots_once : ∀ (contents : List (String × Node)) (ns : String)
    (owner : Site),
    Node.buildSlots b ns owner (Node.onceContents contents) = Node.buildSlots b ns owner contents
  | [], _, _ => by rw [Node.onceContents]
  | (name, n) :: rest, ns, owner => by
    -- what is asked before the content is built is not whether it is a loop
    have hself : ∀ build, Site.slotContent (N := N) owner ns name
        (n.once.update Directives.unlooped).self build = Site.slotContent owner ns name n.self build
        := by
      obtain ⟨d, kids, contents⟩ := n
      intro build
      rw [Node.once_mk]
      rfl
    rw [Node.onceContents, Node.buildSlots, Node.buildSlots, Node.build_unlooped,
      Node.build_once n, hself, Node.buildSlots_once rest]

end

theorem Builder.root_once (n : Node) : b.root n.once = b.root n := by
  unfold Builder.root
  rw [Node.self_once, Node.build_once]

end Building

/-- **The view of a schema** builds what it is without loops on the contents of slots. -/
theorem View.mount_once {N C : Type} (n : Node) (b : Builder N C) (k : Nat) :
    (View.mount n b k).Built b n.once :=
  ⟨⟨rfl, (b.root_once n).symm⟩, Session.Built.start rfl rfl⟩

end Trellis
