import Trellis.Proofs.Acts
import Trellis.Proofs.Schema.Ways
import Trellis.Schema.Loader

/-!
# What loading sees to

Whatever every step of loading keeps holds of every node of a loaded schema. Together with the rules
that are checked in the end this gives what building relies on.

* `Node.LoadingKeeps`, `Node.load_all`: properties of nodes that loading keeps.
* `Node.Proper`: the slots of a node have different names and contain no loops, and a node without a
  namespace has none of what would need one.
* `Node.Orderly`: what building in place relies on, whether or not a schema was loaded.
* `Node.proper_of_ofJson`: every node of a loaded schema is proper.
-/

namespace Trellis.Schema

theorem Directives.check_ok {d : Directives} {hasSlots : Bool} (h : d.check hasSlots = .ok ())
    (hns : d.ns = none) : d.loop = none ∧ hasSlots = false ∧ d.data = none := by
  unfold check at h
  rw [hns] at h
  simp only [Option.isSome_none, Bool.false_eq_true, if_false] at h
  split at h
  · cases h
  split at h
  · cases h
  split at h
  · cases h
  · simp_all

namespace Node

variable {P Q : Node → Prop}

theorem all_iff {n : Node} :
    n.All P ↔ P n ∧ AllKids P (n.children.getD []) ∧ AllContents P n.slots := by
  refine ⟨fun h => ⟨h.self, h.kids, h.contents⟩, fun h => ?_⟩
  obtain ⟨d, _ | kids, contents⟩ := n
  · exact ⟨h.1, h.2.2⟩
  · exact h

mutual

theorem All.and : ∀ {n : Node}, n.All P → n.All Q → n.All fun k => P k ∧ Q k
  | mk _ none _, h, h' => ⟨⟨h.1, h'.1⟩, AllContents.and h.2 h'.2⟩
  | mk _ (some _) _, h, h' =>
    ⟨⟨h.1, h'.1⟩, AllKids.and h.2.1 h'.2.1, AllContents.and h.2.2 h'.2.2⟩

theorem AllKids.and : ∀ {ns : List Node}, AllKids P ns → AllKids Q ns →
    AllKids (fun k => P k ∧ Q k) ns
  | [], _, _ => trivial
  | _ :: _, h, h' => ⟨h.1.and h'.1, AllKids.and h.2 h'.2⟩

theorem AllContents.and : ∀ {ns : List (String × Node)}, AllContents P ns → AllContents Q ns →
    AllContents (fun k => P k ∧ Q k) ns
  | [], _, _ => trivial
  | (_, _) :: _, h, h' => ⟨h.1.and h'.1, AllContents.and h.2 h'.2⟩

end

mutual

theorem All.imp (hPQ : ∀ n, P n → Q n) : ∀ {n : Node}, n.All P → n.All Q
  | mk _ none _, h => ⟨hPQ _ h.1, AllContents.imp hPQ h.2⟩
  | mk _ (some _) _, h => ⟨hPQ _ h.1, AllKids.imp hPQ h.2.1, AllContents.imp hPQ h.2.2⟩

theorem AllKids.imp (hPQ : ∀ n, P n → Q n) : ∀ {ns : List Node}, AllKids P ns → AllKids Q ns
  | [], _ => trivial
  | _ :: _, h => ⟨h.1.imp hPQ, AllKids.imp hPQ h.2⟩

theorem AllContents.imp (hPQ : ∀ n, P n → Q n) : ∀ {ns : List (String × Node)},
    AllContents P ns → AllContents Q ns
  | [], _ => trivial
  | (_, _) :: _, h => ⟨h.1.imp hPQ, AllContents.imp hPQ h.2⟩

end

/-! ### Loading -/

/-- What every step of loading a node keeps. -/
structure LoadingKeeps (P : Node → Prop) : Prop where
  component : ∀ members c, loadComponent members = .ok c → P (mk (.plain c) none [])
  directive : ∀ n key value n', P n → loadDirective n key value = .ok n' → P n'
  children : ∀ n kids, P n → P (n.withChildren kids)
  slots : ∀ n contents, P n → P (n.withSlots (Members.ofList contents))

theorem AllContents.ofList {contents : List (String × Node)} (h : AllContents P contents) :
    AllContents P (Members.ofList contents) :=
  allContents_iff.2 (Members.forall_mem_ofList (allContents_iff.1 h))

theorem loadDirective_rest {n n' : Node} {key : String} {value : Json}
    (h : n.loadDirective key value = .ok n') : n'.children = n.children ∧ n'.slots = n.slots := by
  obtain ⟨d, kids, contents⟩ := n
  unfold loadDirective at h
  simp only at h
  split at h
  all_goals
    obtain ⟨d', -, h⟩ := Except.bind_eq_ok.1 h
    cases h
    exact ⟨rfl, rfl⟩

theorem All.withChildren {n : Node} (h : n.All P) {kids : List Node} (hkids : AllKids P kids)
    (hn : P (n.withChildren kids)) : (n.withChildren kids).All P := by
  have hc := h.contents
  obtain ⟨d, _ | _, contents⟩ := n <;> exact ⟨hn, hkids, hc⟩

theorem All.withSlots {n : Node} (h : n.All P) {contents : Members Node}
    (hcontents : AllContents P contents) (hn : P (n.withSlots contents)) :
    (n.withSlots contents).All P := by
  have hk := h.kids
  obtain ⟨d, _ | kids, _⟩ := n
  · exact ⟨hn, hcontents⟩
  · exact ⟨hn, hk, hcontents⟩

theorem All.withDirective {n n' : Node} (h : n.All P) {key : String} {value : Json} (hn : P n')
    (hl : n.loadDirective key value = .ok n') : n'.All P := by
  obtain ⟨hc, hs⟩ := loadDirective_rest hl
  exact all_iff.2 ⟨hn, hc ▸ h.kids, hs ▸ h.contents⟩

mutual

/-- **What loading keeps** holds of every node. -/
theorem load_all (hP : LoadingKeeps P) : ∀ {j : Json} {n : Node}, load j = .ok n → n.All P
  | .object members, n, h => by
    rw [load] at h
    obtain ⟨c, hc, h⟩ := Except.bind_eq_ok.1 h
    have hbare : (mk (.plain c) none []).All P := ⟨hP.component _ c hc, trivial⟩
    exact loadMembers_all hP members hbare h
  | .null, _, h | .bool _, _, h | .number _, _, h | .string _, _, h | .array _, _, h => by
    rw [load] at h
    · cases h
    all_goals simp

theorem loadMembers_all (hP : LoadingKeeps P) : ∀ (members : List (String × Json)) {node n : Node},
    node.All P → loadMembers members node = .ok n → n.All P
  | [], node, n, hn, h => by
    rw [loadMembers] at h
    exact Except.ok.inj h ▸ hn
  | (key, value) :: rest, node, n, hn, h => by
    rw [loadMembers.eq_def] at h
    simp only at h
    obtain ⟨node', hnode, h⟩ := Except.bind_eq_ok.1 h
    refine loadMembers_all hP rest ?_ h
    -- a member lists children or slots, or it is a directive
    split at hnode
    · -- one child may stand for a list of one
      split at hnode
      · obtain ⟨kids, hkids, rfl⟩ := Except.map_eq_ok.1 hnode
        exact hn.withChildren (loadAll_all hP hkids) (hP.children _ _ hn.self)
      · obtain ⟨kid, hkid, rfl⟩ := Except.map_eq_ok.1 hnode
        exact hn.withChildren ⟨load_all hP hkid, trivial⟩ (hP.children _ _ hn.self)
    split at hnode
    · split at hnode
      · obtain ⟨contents, hcontents, rfl⟩ := Except.map_eq_ok.1 hnode
        exact hn.withSlots (loadSlots_all hP hcontents).ofList (hP.slots _ _ hn.self)
      · cases hnode
    · exact hn.withDirective (hP.directive _ _ _ _ hn.self hnode) hnode

theorem loadAll_all (hP : LoadingKeeps P) : ∀ {js : List Json} {ns : List Node},
    loadAll js = .ok ns → AllKids P ns
  | [], ns, h => by
    rw [loadAll] at h
    exact Except.ok.inj h ▸ trivial
  | j :: rest, ns, h => by
    rw [loadAll] at h
    obtain ⟨n, hn, h⟩ := Except.bind_eq_ok.1 h
    obtain ⟨ms, hms, h⟩ := Except.bind_eq_ok.1 h
    exact Except.ok.inj h ▸ ⟨load_all hP hn, loadAll_all hP hms⟩

theorem loadSlots_all (hP : LoadingKeeps P) : ∀ {cs : List (String × Json)}
    {ns : List (String × Node)}, loadSlots cs = .ok ns → AllContents P ns
  | [], ns, h => by
    rw [loadSlots] at h
    exact Except.ok.inj h ▸ trivial
  | (name, j) :: rest, ns, h => by
    rw [loadSlots] at h
    obtain ⟨n, hn, h⟩ := Except.bind_eq_ok.1 h
    obtain ⟨ms, hms, h⟩ := Except.bind_eq_ok.1 h
    exact Except.ok.inj h ▸ ⟨load_all hP hn, loadSlots_all hP hms⟩

end

/-! ### The rules -/

/-- What building relies on at a node. -/
structure Proper (n : Node) : Prop where
  distinct : n.slots.Distinct
  check : n.self.check (!n.slots.isEmpty) = .ok ()
  once : ∀ c ∈ n.slots, c.2.self.loop = none

/-- What building in place relies on at a node. -/
structure Orderly (n : Node) : Prop where
  distinct : n.slots.Distinct
  once : ∀ c ∈ n.slots, c.2.self.loop = none

theorem Proper.orderly {n : Node} (h : n.Proper) : n.Orderly := ⟨h.distinct, h.once⟩

theorem All.orderly {n : Node} (h : n.All Proper) : n.All Orderly := h.imp fun _ => Proper.orderly

mutual

theorem validate_all : ∀ {n : Node}, n.validate = .ok () →
    n.All fun k => k.self.check (!k.slots.isEmpty) = .ok () ∧ ∀ c ∈ k.slots, c.2.self.loop = none
  | mk d none contents, h => by
    rw [validate] at h
    obtain ⟨_, hc, h⟩ := Except.bind_eq_ok.1 h
    obtain ⟨hs, honce⟩ := validateSlots_all h
    exact ⟨⟨hc, honce⟩, hs⟩
  | mk d (some kids) contents, h => by
    rw [validate] at h
    obtain ⟨_, hc, h⟩ := Except.bind_eq_ok.1 h
    obtain ⟨_, hk, h⟩ := Except.bind_eq_ok.1 h
    obtain ⟨hs, honce⟩ := validateSlots_all h
    exact ⟨⟨hc, honce⟩, validateAll_all hk, hs⟩

theorem validateAll_all : ∀ {ns : List Node}, validateAll ns = .ok () →
    AllKids (fun k => k.self.check (!k.slots.isEmpty) = .ok () ∧
      ∀ c ∈ k.slots, c.2.self.loop = none) ns
  | [], _ => trivial
  | n :: rest, h => by
    rw [validateAll] at h
    obtain ⟨_, hn, h⟩ := Except.bind_eq_ok.1 h
    exact ⟨validate_all hn, validateAll_all h⟩

theorem validateSlots_all : ∀ {cs : List (String × Node)}, validateSlots cs = .ok () →
    AllContents (fun k => k.self.check (!k.slots.isEmpty) = .ok () ∧
      ∀ c ∈ k.slots, c.2.self.loop = none) cs ∧ ∀ c ∈ cs, c.2.self.loop = none
  | [], _ => ⟨trivial, nofun⟩
  | (name, n) :: rest, h => by
    rw [validateSlots] at h
    split at h
    · cases h
    · next hloop =>
      obtain ⟨_, hn, h⟩ := Except.bind_eq_ok.1 h
      obtain ⟨hrest, honce⟩ := validateSlots_all h
      refine ⟨⟨validate_all hn, hrest⟩, fun c hc => ?_⟩
      rcases List.mem_cons.1 hc with rfl | hc
      · simpa using hloop
      · exact honce c hc

end

/-- A schema is what loads and passes the rules. -/
theorem ofJson_eq_ok {j : Json} {n : Node} :
    ofJson j = .ok n ↔ load j = .ok n ∧ n.validate = .ok () := by
  unfold ofJson
  rw [Except.bind_eq_ok]
  constructor
  · rintro ⟨m, hload, h⟩
    obtain ⟨_, hvalid, h⟩ := Except.bind_eq_ok.1 h
    cases h
    exact ⟨hload, hvalid⟩
  · rintro ⟨hload, hvalid⟩
    exact ⟨n, hload, Except.bind_eq_ok.2 ⟨(), hvalid, rfl⟩⟩

/-- **Every node of a loaded schema** is proper. -/
theorem proper_of_ofJson {j : Json} {n : Node} (h : ofJson j = .ok n) : n.All Proper := by
  obtain ⟨hload, hvalid⟩ := ofJson_eq_ok.1 h
  -- names of slots are distinct as they are loaded, the rest was checked
  have hkeeps : LoadingKeeps fun k => k.slots.Distinct :=
    { component := fun _ _ _ => List.nodup_nil
      directive := fun k key value k' hk hl => (loadDirective_rest hl).2 ▸ hk
      children := fun k kids hk => by obtain ⟨d, _, contents⟩ := k; exact hk
      slots := fun k contents _ => by obtain ⟨d, _, _⟩ := k; exact Members.distinct_ofList contents }
  exact ((load_all hkeeps hload).and (validate_all hvalid)).imp fun k hk => ⟨hk.1, hk.2.1, hk.2.2⟩

end Node

end Trellis.Schema
