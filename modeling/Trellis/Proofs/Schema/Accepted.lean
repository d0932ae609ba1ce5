import Mathlib.Data.List.Forall2
import Trellis.Proofs.Schema.Grammar

/-!
# Accepted schemas

Loading with its rules accepts the documents of the grammar and no others.

* `Node.loadMember`: one turn of loading. Whether it succeeds does not depend on the node.
* `Node.Loaded`: what a node holds when its members were taken up.
* `Node.isSchema_of_load`, `Node.load_of_isSchema`: the two directions.
* `Node.accepted_iff`: both together.
-/

/-! ### Lists side by side -/

section

variable {α β : Type} {R : α → β → Prop}

theorem List.Forall₂.exists_of_mem {l : List α} {m : List β} (h : List.Forall₂ R l m) {a : α}
    (ha : a ∈ l) : ∃ b ∈ m, R a b := by
  induction h with
  | nil => cases ha
  | @cons a' b l m hab _ ih =>
    rcases List.mem_cons.1 ha with rfl | ha
    · exact ⟨b, List.mem_cons_self, hab⟩
    · obtain ⟨c, hc, hac⟩ := ih ha
      exact ⟨c, List.mem_cons_of_mem _ hc, hac⟩

theorem List.exists_forall₂ : ∀ {l : List α}, (∀ a ∈ l, ∃ b, R a b) → ∃ m, List.Forall₂ R l m
  | [], _ => ⟨[], .nil⟩
  | a :: l, h => by
    obtain ⟨⟨b, hb⟩, h⟩ := List.forall_mem_cons.1 h
    obtain ⟨m, hm⟩ := List.exists_forall₂ h
    exact ⟨b :: m, .cons hb hm⟩

end

namespace Trellis.Schema

open Members (names)

/-! ### Members -/

/-- Which of the directives that the rules ask about there are when members of the given names were
taken up. -/
structure Takes (keys : List String) (d d' : Directives) : Prop where
  ns : d'.ns.isSome ↔ d.ns.isSome ∨ "namespace" ∈ keys
  loop : d'.loop.isSome ↔ d.loop.isSome ∨ "for" ∈ keys ∨ ":for" ∈ keys
  data : d'.data.isSome ↔ d.data.isSome ∨ "data" ∈ keys

theorem Takes.refl (d : Directives) : Takes [] d d := by
  constructor <;> simp

theorem Takes.cons {key : String} {keys : List String} {d d' d'' : Directives}
    (h : Takes [key] d d') (h' : Takes keys d' d'') : Takes (key :: keys) d d'' := by
  obtain ⟨hns, hloop, hdata⟩ := h
  constructor
  · rw [h'.ns, hns, or_assoc, List.mem_singleton, List.mem_cons]
  · rw [h'.loop, hloop, or_assoc, or_or_or_comm]
    simp only [List.mem_cons, List.not_mem_nil, or_false]
  · rw [h'.data, hdata, or_assoc, List.mem_singleton, List.mem_cons]

/-- Members of other names leave these directives as they are. -/
theorem Takes.of_notMem {key : String} (h : key ∉ ["namespace", "for", ":for", "data"])
    {d d' : Directives} (hns : d'.ns = d.ns) (hloop : d'.loop = d.loop) (hdata : d'.data = d.data) :
    Takes [key] d d' := by
  simp only [List.mem_cons, List.not_mem_nil, or_false, not_or] at h
  obtain ⟨hnamespace, hfor, hbound, hdatum⟩ := h
  constructor
  · simp [hns, Ne.symm hnamespace]
  · simp [hloop, Ne.symm hfor, Ne.symm hbound]
  · simp [hdata, Ne.symm hdatum]

/-- What is there when members were taken up from the beginning. -/
theorem Takes.of_plain {keys : List String} {c : Component} {d : Directives}
    (h : Takes keys (.plain c) d) :
    (d.ns = none ↔ "namespace" ∉ keys) ∧ (d.loop = none ↔ "for" ∉ keys ∧ ":for" ∉ keys) ∧
      (d.data = none ↔ "data" ∉ keys) := by
  obtain ⟨hns, hloop, hdata⟩ := h
  have hplain : ¬ false = true := Bool.false_ne_true
  simp only [Directives.plain, Option.isSome_none, or_iff_right hplain] at hns hloop hdata
  rw [← Option.not_isSome_iff_eq_none, ← Option.not_isSome_iff_eq_none,
    ← Option.not_isSome_iff_eq_none, hns, hloop, hdata, not_or]
  exact ⟨Iff.rfl, Iff.rfl, Iff.rfl⟩

theorem Directives.loadStatic_takes {d d' : Directives} {key : String} {value : Json}
    (hkey : ∀ name, key ≠ ":" ++ name) (h : d.loadStatic key value = .ok d') : Takes [key] d d' := by
  unfold loadStatic at h
  split at h
  -- the three that count
  case h_1 =>
    obtain ⟨s, -, h⟩ := Except.bind_eq_ok.1 h
    cases h
    constructor <;> simp
  case h_2 =>
    obtain ⟨members, -, h⟩ := Except.bind_eq_ok.1 h
    cases h
    constructor <;> simp
  case h_12 =>
    cases h
    constructor <;> simp
  -- all others, those that may fail apart
  case h_11 =>
    split at h <;> cases h <;> exact .of_notMem (by decide) rfl rfl rfl
  case h_6 | h_7 | h_8 | h_9 | h_14 | h_15 | h_16 | h_17 =>
    obtain ⟨_, -, h⟩ := Except.bind_eq_ok.1 h
    cases h
    exact .of_notMem (by decide) rfl rfl rfl
  case h_3 | h_4 | h_5 | h_10 | h_13 | h_18 =>
    cases h
    exact .of_notMem (by decide) rfl rfl rfl
  case h_19 =>
    cases h
    have hfor : key ≠ ":for" := hkey "for"
    refine .of_notMem ?_ rfl rfl rfl
    simp_all

theorem Directives.loadBound_takes {d d' : Directives} {name : String} {value : Json}
    (h : d.loadBound name value = .ok d') : Takes [":" ++ name] d d' := by
  have hother : name ≠ "for" → ":" ++ name ∉ ["namespace", "for", ":for", "data"] := by
    intro hname hmem
    have hmarked : ":" ++ name ∉ ["namespace", "for", "data"] := marked_notMem (by decide) name
    have hfor : ":" ++ name ≠ ":for" := fun h => hname ((String.append_right_inj ":").1 h)
    simp_all
  unfold loadBound at h
  split at h
  case h_10 =>
    obtain ⟨b, -, h⟩ := Except.bind_eq_ok.1 h
    cases h
    constructor <;> simp
  case h_12 hfor _ =>
    split at h
    · cases h
    · cases h
      exact .of_notMem (hother hfor) rfl rfl rfl
  all_goals
    obtain ⟨_, -, h⟩ := Except.bind_eq_ok.1 h
    cases h
    exact .of_notMem (hother (by decide)) rfl rfl rfl

namespace Node

/-- Takes up one member. -/
def loadMember (n : Node) (key : String) (value : Json) : Except Fault Node :=
  if key = "children" then (loadAll value.kids).map n.withChildren
  else if key = "scopedSlots" then do
    let contents ← loadObject "scopedSlots" value
    (loadSlots contents).map fun ns => n.withSlots (Members.ofList ns)
  else n.loadDirective key value

theorem loadAll_single (j : Json) : loadAll [j] = (load j).map fun n => [n] := by
  rw [loadAll, loadAll]
  cases load j <;> rfl

theorem loadMembers_cons (key : String) (value : Json) (rest : List (String × Json)) (n : Node) :
    loadMembers ((key, value) :: rest) n = n.loadMember key value >>= loadMembers rest := by
  rw [loadMembers.eq_def]
  simp only
  congr 1
  unfold loadMember
  split
  · -- one child may stand for a list of one
    split
    · rfl
    · next hvalue =>
      have hkids : value.kids = [value] := by
        cases value with
        | array items => exact (hvalue items rfl).elim
        | _ => rfl
      rw [hkids, loadAll_single]
      cases load value <;> rfl
  split
  · cases value <;> rfl
  · rfl

theorem loadAll_eq_ok : ∀ {js : List Json} {ns : List Node},
    loadAll js = .ok ns ↔ List.Forall₂ (fun j n => load j = .ok n) js ns
  | [], ns => by
    rw [loadAll, List.forall₂_nil_left_iff, Except.ok.injEq, eq_comm]
  | j :: rest, ns => by
    rw [loadAll, Except.bind_eq_ok, List.forall₂_cons_left_iff]
    refine exists_congr fun n => ?_
    rw [Except.bind_eq_ok]
    constructor
    · rintro ⟨hn, ms, hms, h⟩
      cases h
      exact ⟨ms, hn, loadAll_eq_ok.1 hms, rfl⟩
    · rintro ⟨ms, hn, hms, rfl⟩
      exact ⟨hn, ms, loadAll_eq_ok.2 hms, rfl⟩

theorem names_eq_of_forall₂ {α β : Type} {R : α → β → Prop} {m : Members α} {n : Members β}
    (h : List.Forall₂ (fun c e => c.1 = e.1 ∧ R c.2 e.2) m n) : names m = names n := by
  induction h with
  | nil => rfl
  | cons hce _ ih => exact congrArg₂ List.cons hce.1 ih

theorem loadSlots_eq_ok : ∀ {cs : List (String × Json)} {ns : List (String × Node)},
    loadSlots cs = .ok ns ↔ List.Forall₂ (fun c e => c.1 = e.1 ∧ load c.2 = .ok e.2) cs ns
  | [], ns => by
    rw [loadSlots, List.forall₂_nil_left_iff, Except.ok.injEq, eq_comm]
  | (name, j) :: rest, ns => by
    rw [loadSlots, Except.bind_eq_ok, List.forall₂_cons_left_iff]
    constructor
    · rintro ⟨n, hn, h⟩
      obtain ⟨ms, hms, h⟩ := Except.bind_eq_ok.1 h
      cases h
      exact ⟨(name, n), ms, ⟨rfl, hn⟩, loadSlots_eq_ok.1 hms, rfl⟩
    · rintro ⟨⟨name', n⟩, ms, ⟨hname, hn⟩, hms, rfl⟩
      cases hname
      exact ⟨n, hn, Except.bind_eq_ok.2 ⟨ms, loadSlots_eq_ok.2 hms, rfl⟩⟩

/-! ### What members are taken up -/

/-- A member that fits, and the nodes it holds load. -/
structure Loads (key : String) (value : Json) : Prop where
  fits : Fits key value
  kids : key = "children" → ∃ ks, loadAll value.kids = .ok ks
  slots : key = "scopedSlots" → ∀ contents, value = .object contents →
    ∃ ns, loadSlots contents = .ok ns

/-- **Whether a member is taken up** depends on the member alone. -/
theorem exists_loadMember_ok {n : Node} {key : String} {value : Json} :
    (∃ n', n.loadMember key value = .ok n') ↔ Loads key value := by
  unfold loadMember
  by_cases hkids : key = "children"
  · subst hkids
    have hfits : Fits "children" value :=
      fits_of_notMem (ne_marked (by decide)) (by decide) (by decide)
    rw [if_pos rfl, Except.exists_map_ok]
    exact ⟨fun h => ⟨hfits, fun _ => h, nofun⟩, fun h => h.kids rfl⟩
  by_cases hslots : key = "scopedSlots"
  · subst hslots
    have hfits : Fits "scopedSlots" value ↔ ∃ contents, value = .object contents :=
      fits_of_mem_objectKeys (ne_marked (by decide)) (by decide) (by decide)
    rw [if_neg hkids, if_pos rfl, Except.exists_bind_ok]
    constructor
    · rintro ⟨contents, hcontents, h⟩
      cases loadObject_eq_ok.1 hcontents
      refine ⟨hfits.2 ⟨contents, rfl⟩, nofun, fun _ _ heq => ?_⟩
      cases heq
      exact Except.exists_map_ok.1 h
    · intro h
      obtain ⟨contents, rfl⟩ := hfits.1 h.fits
      exact ⟨contents, rfl, Except.exists_map_ok.2 (h.slots rfl contents rfl)⟩
  · rw [if_neg hkids, if_neg hslots, exists_loadDirective_ok hslots]
    exact ⟨fun h => ⟨h, fun hk => (hkids hk).elim, fun hs => (hslots hs).elim⟩, Loads.fits⟩

theorem exists_loadMembers_ok : ∀ {members : List (String × Json)} {n : Node},
    (∃ n', loadMembers members n = .ok n') ↔ ∀ m ∈ members, Loads m.1 m.2
  | [], n => ⟨fun _ => List.forall_mem_nil _, fun _ => ⟨n, by rw [loadMembers]⟩⟩
  | (key, value) :: rest, n => by
    rw [loadMembers_cons, Except.exists_bind_ok, List.forall_mem_cons,
      ← exists_loadMember_ok (n := n)]
    constructor
    · rintro ⟨n', hn', h⟩
      exact ⟨⟨n', hn'⟩, exists_loadMembers_ok.1 h⟩
    · rintro ⟨⟨n', hn'⟩, h⟩
      exact ⟨n', hn', exists_loadMembers_ok.2 h⟩

/-- What a node holds once members were taken up. -/
structure Loaded (members : List (String × Json)) (n n' : Node) : Prop where
  takes : Takes (names members) n.self n'.self
  kids : ∀ value, ("children", value) ∈ members →
    ∃ ks, loadAll value.kids = .ok ks ∧ n'.children = some ks
  childless : "children" ∉ names members → n'.children = n.children
  slots : ∀ contents, ("scopedSlots", .object contents) ∈ members →
    ∃ ns, loadSlots contents = .ok ns ∧ n'.slots = Members.ofList ns
  slotless : "scopedSlots" ∉ names members → n'.slots = n.slots

theorem loadDirective_takes {n n' : Node} {key : String} {value : Json}
    (h : n.loadDirective key value = .ok n') : Takes [key] n.self n'.self := by
  obtain ⟨d, kids, contents⟩ := n
  unfold loadDirective at h
  rcases marked_or_not key with ⟨name, rfl⟩ | hkey
  · rw [splitMark_marked] at h
    obtain ⟨d', hd, h⟩ := Except.bind_eq_ok.1 h
    cases h
    exact Directives.loadBound_takes hd
  · rw [splitMark_unmarked hkey] at h
    obtain ⟨d', hd, h⟩ := Except.bind_eq_ok.1 h
    cases h
    exact Directives.loadStatic_takes hkey hd

theorem withChildren_parts (n : Node) (kids : List Node) :
    (n.withChildren kids).self = n.self ∧ (n.withChildren kids).children = some kids ∧
      (n.withChildren kids).slots = n.slots := by
  cases n
  exact ⟨rfl, rfl, rfl⟩

theorem withSlots_parts (n : Node) (contents : Members Node) :
    (n.withSlots contents).self = n.self ∧ (n.withSlots contents).children = n.children ∧
      (n.withSlots contents).slots = contents := by
  cases n
  exact ⟨rfl, rfl, rfl⟩

theorem Loaded.of_loadMember {n n' : Node} {key : String} {value : Json}
    (h : n.loadMember key value = .ok n') : Loaded [(key, value)] n n' := by
  unfold loadMember at h
  split at h
  · next hkey =>
    subst hkey
    obtain ⟨ks, hks, rfl⟩ := Except.map_eq_ok.1 h
    obtain ⟨hself, hkids, hslots⟩ := n.withChildren_parts ks
    have htakes : Takes ["children"] n.self n.self := .of_notMem (by decide) rfl rfl rfl
    refine ⟨hself ▸ htakes, fun v hv => ?_, fun h => ?_, fun cs hcs => ?_, fun _ => hslots⟩
    · cases List.mem_singleton.1 hv
      exact ⟨ks, hks, hkids⟩
    · exact (h List.mem_cons_self).elim
    · simp at hcs
  split at h
  · next hkey =>
    subst hkey
    obtain ⟨contents, hcontents, h⟩ := Except.bind_eq_ok.1 h
    cases loadObject_eq_ok.1 hcontents
    obtain ⟨ns, hns, rfl⟩ := Except.map_eq_ok.1 h
    obtain ⟨hself, hkids, hslots⟩ := n.withSlots_parts (Members.ofList ns)
    have htakes : Takes ["scopedSlots"] n.self n.self := .of_notMem (by decide) rfl rfl rfl
    refine ⟨hself ▸ htakes, fun v hv => ?_, fun _ => hkids, fun cs hcs => ?_, fun h => ?_⟩
    · simp at hv
    · cases List.mem_singleton.1 hcs
      exact ⟨ns, hns, hslots⟩
    · exact (h List.mem_cons_self).elim
  · next hkids hslots =>
    obtain ⟨hc, hs⟩ := loadDirective_rest h
    refine ⟨loadDirective_takes h, fun v hv => ?_, fun _ => hc, fun cs hcs => ?_, fun _ => hs⟩
    · cases List.mem_singleton.1 hv
      exact (hkids rfl).elim
    · cases List.mem_singleton.1 hcs
      exact (hslots rfl).elim

/-- What one member gives stays when members of other names follow. -/
theorem Loaded.cons {key : String} {value : Json} {rest : List (String × Json)} {n n' n'' : Node}
    (hkey : key ∉ names rest) (h : Loaded [(key, value)] n n') (h' : Loaded rest n' n'') :
    Loaded ((key, value) :: rest) n n'' := by
  have hnames : names ((key, value) :: rest) = key :: names rest := rfl
  refine ⟨h.takes.cons h'.takes, fun v hv => ?_, fun hno => ?_, fun cs hcs => ?_, fun hno => ?_⟩
  · rcases List.mem_cons.1 hv with heq | hv
    · cases heq
      obtain ⟨ks, hks, hn⟩ := h.kids value List.mem_cons_self
      exact ⟨ks, hks, (h'.childless hkey).trans hn⟩
    · exact h'.kids v hv
  · rw [hnames, List.mem_cons, not_or] at hno
    rw [h'.childless hno.2, h.childless]
    exact mt List.mem_singleton.1 hno.1
  · rcases List.mem_cons.1 hcs with heq | hcs
    · cases heq
      obtain ⟨ns, hns, hn⟩ := h.slots cs List.mem_cons_self
      exact ⟨ns, hns, (h'.slotless hkey).trans hn⟩
    · exact h'.slots cs hcs
  · rw [hnames, List.mem_cons, not_or] at hno
    rw [h'.slotless hno.2, h.slotless]
    exact mt List.mem_singleton.1 hno.1

theorem loaded_of_loadMembers : ∀ {members : List (String × Json)} {n n' : Node},
    Members.Distinct members → loadMembers members n = .ok n' → Loaded members n n'
  | [], n, n', _, h => by
    rw [loadMembers] at h
    cases h
    exact ⟨.refl _, nofun, fun _ => rfl, nofun, fun _ => rfl⟩
  | (key, value) :: rest, n, n', hd, h => by
    obtain ⟨hkey, hd⟩ := List.nodup_cons.1 hd
    rw [loadMembers_cons] at h
    obtain ⟨n₁, hn₁, h⟩ := Except.bind_eq_ok.1 h
    exact (Loaded.of_loadMember hn₁).cons hkey (loaded_of_loadMembers hd h)

/-- The children of a node are those its members list. -/
theorem Loaded.children_cases {members : List (String × Json)} {c : Component} {n : Node}
    (h : Loaded members (Node.mk (.plain c) none []) n) : n.children = none ∨
      ∃ value ks, ("children", value) ∈ members ∧ loadAll value.kids = .ok ks ∧
        n.children = some ks := by
  by_cases hno : "children" ∈ names members
  · obtain ⟨⟨key, value⟩, hm, hkey⟩ := List.mem_map.1 hno
    cases hkey
    obtain ⟨ks, hks, heq⟩ := h.kids value hm
    exact .inr ⟨value, ks, hm, hks, heq⟩
  · exact .inl (h.childless hno)

/-- The slots of a node are those its members list. -/
theorem Loaded.slots_cases {members : List (String × Json)} {c : Component} {n : Node}
    (h : Loaded members (Node.mk (.plain c) none []) n) (hfits : ∀ m ∈ members, Fits m.1 m.2) :
    n.slots = [] ∨ ∃ contents ns, ("scopedSlots", Json.object contents) ∈ members ∧
      loadSlots contents = .ok ns ∧ n.slots = Members.ofList ns := by
  by_cases hno : "scopedSlots" ∈ names members
  · obtain ⟨⟨key, value⟩, hm, hkey⟩ := List.mem_map.1 hno
    cases hkey
    have hobject : "scopedSlots" ∈ objectKeys := by decide
    obtain ⟨contents, rfl⟩ := (hfits _ hm).object hobject
    obtain ⟨ns, hns, heq⟩ := h.slots contents hm
    exact .inr ⟨contents, ns, hm, hns, heq⟩
  · exact .inl (h.slotless hno)

/-! ### The rules -/

theorem check_eq_ok {d : Directives} {hasSlots : Bool} : d.check hasSlots = .ok () ↔
    (d.ns = none → d.loop = none ∧ hasSlots = false ∧ d.data = none) := by
  refine ⟨Directives.check_ok, fun h => ?_⟩
  unfold Directives.check
  split
  · rfl
  · next hns =>
    obtain ⟨hloop, hslots, hdata⟩ := h (Option.not_isSome_iff_eq_none.1 hns)
    rw [hloop, hslots, hdata]
    rfl

theorem validateAll_eq_ok : ∀ {ns : List Node},
    validateAll ns = .ok () ↔ ∀ n ∈ ns, n.validate = .ok ()
  | [] => ⟨fun _ => List.forall_mem_nil _, fun _ => rfl⟩
  | n :: rest => by
    rw [validateAll, Except.bind_eq_ok, List.forall_mem_cons, ← validateAll_eq_ok]
    exact ⟨fun ⟨_, hn, h⟩ => ⟨hn, h⟩, fun ⟨hn, h⟩ => ⟨(), hn, h⟩⟩

theorem validateSlots_eq_ok : ∀ {contents : List (String × Node)},
    validateSlots contents = .ok () ↔
      ∀ c ∈ contents, c.2.self.loop = none ∧ c.2.validate = .ok ()
  | [] => ⟨fun _ => List.forall_mem_nil _, fun _ => rfl⟩
  | (name, n) :: rest => by
    rw [validateSlots, List.forall_mem_cons, ← validateSlots_eq_ok]
    simp only
    split
    · next hloop =>
      refine ⟨nofun, fun ⟨⟨hnone, _⟩, _⟩ => ?_⟩
      rw [hnone] at hloop
      cases hloop
    · next hloop =>
      rw [Except.bind_eq_ok]
      have hnone : n.self.loop = none := Option.not_isSome_iff_eq_none.1 hloop
      exact ⟨fun ⟨_, hn, h⟩ => ⟨⟨hnone, hn⟩, h⟩, fun ⟨⟨_, hn⟩, h⟩ => ⟨(), hn, h⟩⟩

/-- **A node passes its rules** if its own hold and its children and slot contents pass theirs. -/
theorem validate_eq_ok {n : Node} : n.validate = .ok () ↔
    (n.self.ns = none → n.self.loop = none ∧ n.slots = [] ∧ n.self.data = none) ∧
      (∀ kid ∈ n.children.getD [], kid.validate = .ok ()) ∧
      ∀ c ∈ n.slots, c.2.self.loop = none ∧ c.2.validate = .ok () := by
  obtain ⟨d, kids, contents⟩ := n
  have hempty : (!contents.isEmpty) = false ↔ contents = [] := by simp
  have hrules : validate (mk d kids contents) = .ok () ↔ d.check (!contents.isEmpty) = .ok () ∧
      validateAll (kids.getD []) = .ok () ∧ validateSlots contents = .ok () := by
    cases kids with
    | none =>
      rw [validate, Except.bind_eq_ok]
      exact ⟨fun ⟨_, hc, h⟩ => ⟨hc, rfl, h⟩, fun ⟨hc, _, h⟩ => ⟨(), hc, h⟩⟩
    | some kids =>
      rw [validate, Except.bind_eq_ok]
      constructor
      · rintro ⟨_, hc, h⟩
        obtain ⟨_, hk, h⟩ := Except.bind_eq_ok.1 h
        exact ⟨hc, hk, h⟩
      · rintro ⟨hc, hk, h⟩
        exact ⟨(), hc, Except.bind_eq_ok.2 ⟨(), hk, h⟩⟩
  rw [hrules, check_eq_ok, validateAll_eq_ok, validateSlots_eq_ok, hempty]
  rfl

/-! ### Documents -/

theorem loadComponent_isOk {members : List (String × Json)} (hd : Members.Distinct members) :
    (∃ c, loadComponent members = .ok c) ↔ ∃ c, ("component", c) ∈ members ∧
      ((∃ name, c = .string name) ∨ ∃ definition, c = .object definition) := by
  unfold loadComponent
  constructor
  · rintro ⟨c, h⟩
    split at h
    · next name hget => exact ⟨_, Members.mem_of_get? hget, .inl ⟨name, rfl⟩⟩
    · next definition hget => exact ⟨_, Members.mem_of_get? hget, .inr ⟨definition, rfl⟩⟩
    · cases h
    · cases h
  · rintro ⟨c, hc, ⟨name, rfl⟩ | ⟨definition, rfl⟩⟩
    · rw [Members.get?_of_mem hd hc]
      exact ⟨_, rfl⟩
    · rw [Members.get?_of_mem hd hc]
      exact ⟨_, rfl⟩

/-- A document that loads is an object, and its members were taken up. -/
theorem loaded_of_load {j : Json} {n : Node} (hd : j.Distinct) (h : load j = .ok n) :
    ∃ members c, j = .object members ∧ loadComponent members = .ok c ∧
      loadMembers members (mk (.plain c) none []) = .ok n ∧
      Loaded members (mk (.plain c) none []) n := by
  cases j with
  | object members =>
    rw [load] at h
    obtain ⟨c, hc, h⟩ := Except.bind_eq_ok.1 h
    exact ⟨members, c, rfl, hc, h, loaded_of_loadMembers hd.1 h⟩
  | null | bool _ | number _ | integer _ | string _ | array _ =>
    rw [load] at h
    · cases h
    all_goals simp

/-- A loaded node is a loop if its document carries `for`, in either form. -/
theorem loop_of_load {j : Json} {n : Node} (hd : j.Distinct) (h : load j = .ok n) :
    n.self.loop = none ↔ j.member? "for" = none ∧ j.member? ":for" = none := by
  obtain ⟨members, c, rfl, -, -, hn⟩ := loaded_of_load hd h
  have hmember : ∀ name, (Json.object members).member? name = none ↔ name ∉ names members := by
    intro name
    rw [← Members.isSome_get?, Option.not_isSome_iff_eq_none]
    rfl
  rw [hmember, hmember]
  exact hn.takes.of_plain.2.1

theorem sizeOf_kid_lt {members : List (String × Json)} {value kid : Json}
    (h : ("children", value) ∈ members) (hkid : kid ∈ value.kids) :
    sizeOf kid < sizeOf (Json.object members) := by
  have hvalue : sizeOf value < sizeOf (Json.object members) := by
    have hlt := List.sizeOf_lt_of_mem h
    simp only [Prod.mk.sizeOf_spec, Json.object.sizeOf_spec] at hlt ⊢
    omega
  suffices sizeOf kid ≤ sizeOf value by omega
  cases value with
  | array items =>
    have hlt : sizeOf kid < sizeOf items := List.sizeOf_lt_of_mem hkid
    simp only [Json.array.sizeOf_spec]
    omega
  | _ => exact Nat.le_of_eq (congrArg sizeOf (List.mem_singleton.1 hkid))

theorem sizeOf_content_lt {members contents : List (String × Json)} {c : String × Json}
    (h : ("scopedSlots", .object contents) ∈ members) (hc : c ∈ contents) :
    sizeOf c.2 < sizeOf (Json.object members) := by
  have hlt := List.sizeOf_lt_of_mem h
  have hltc := List.sizeOf_lt_of_mem hc
  obtain ⟨name, j⟩ := c
  simp only [Prod.mk.sizeOf_spec, Json.object.sizeOf_spec] at hlt hltc ⊢
  omega

/-- **What loads and passes the rules** is of the grammar. -/
theorem isSchema_of_load : ∀ {j : Json} {n : Node}, j.Distinct → load j = .ok n →
    n.validate = .ok () → j.IsSchema
  | .object members, n, hd, h, hvalid => by
    obtain ⟨_, c, heq, hc, hmembers, hn⟩ := loaded_of_load hd h
    cases heq
    obtain ⟨hrules, hkids, hslots⟩ := validate_eq_ok.1 hvalid
    obtain ⟨hns, hloop, hdata⟩ := hn.takes.of_plain
    have hfits := exists_loadMembers_ok.1 ⟨n, hmembers⟩
    have hdistinct := Json.distinctMembers_iff.1 hd.2
    -- the contents of the slots are those of the document, for no name is given twice
    have hcontents : ∀ contents, ("scopedSlots", Json.object contents) ∈ members →
        List.Forall₂ (fun c e => c.1 = e.1 ∧ load c.2 = .ok e.2) contents n.slots := by
      intro contents hin
      obtain ⟨ns, hns, heq⟩ := hn.slots contents hin
      have hall := loadSlots_eq_ok.1 hns
      have hnames : names contents = names ns :=
        names_eq_of_forall₂ (R := fun j k => load j = .ok k) hall
      have hone : Members.Distinct contents := (hdistinct _ hin).1
      rw [Members.Distinct, hnames] at hone
      rw [heq, Members.ofList_of_distinct hone]
      exact hall
    have hkept : ∀ contents, ("scopedSlots", Json.object contents) ∈ members → ∀ c ∈ contents,
        ∃ k, load c.2 = .ok k ∧ k.self.loop = none ∧ k.validate = .ok () := by
      intro contents hin c hc
      obtain ⟨e, he, -, hload⟩ := (hcontents contents hin).exists_of_mem hc
      exact ⟨e.2, hload, hslots e he⟩
    refine .node ((loadComponent_isOk hd.1).1 ⟨c, hc⟩) (fun m hm => (hfits m hm).fits) ?_ ?_ ?_ ?_
    · intro hno
      obtain ⟨hl, hs, hdt⟩ := hrules (hns.2 hno)
      refine ⟨(hloop.1 hl).1, (hloop.1 hl).2, hdata.1 hdt, fun contents hin => ?_⟩
      have hall := hcontents contents hin
      rw [hs] at hall
      cases hall
      rfl
    · intro value hvalue kid hkid
      obtain ⟨ks, hks, hchildren⟩ := hn.kids value hvalue
      obtain ⟨k, hk, hload⟩ := (loadAll_eq_ok.1 hks).exists_of_mem hkid
      rw [hchildren] at hkids
      exact isSchema_of_load ((hdistinct _ hvalue).kid hkid) hload (hkids k hk)
    · intro contents hin c hc
      obtain ⟨k, hk, -, hvalid⟩ := hkept contents hin c hc
      exact isSchema_of_load (Json.distinctMembers_iff.1 (hdistinct _ hin).2 c hc) hk hvalid
    · intro contents hin c hc
      obtain ⟨k, hk, hloop, -⟩ := hkept contents hin c hc
      exact (loop_of_load (Json.distinctMembers_iff.1 (hdistinct _ hin).2 c hc) hk).1 hloop
  | .null, _, hd, h, _ | .bool _, _, hd, h, _ | .number _, _, hd, h, _ | .string _, _, hd, h, _
  | .array _, _, hd, h, _ => by
    obtain ⟨_, _, heq, _⟩ := loaded_of_load hd h
    cases heq
termination_by j => sizeOf j
decreasing_by
  · exact sizeOf_kid_lt hvalue hkid
  · exact sizeOf_content_lt hin hc

/-- **What is of the grammar** loads and passes the rules. -/
theorem load_of_isSchema {j : Json} (h : j.IsSchema) (hd : j.Distinct) :
    ∃ n, load j = .ok n ∧ n.validate = .ok () := by
  induction h with
  | @node members component fits homeless children slots once ihkids ihslots =>
    have hdistinct := Json.distinctMembers_iff.1 hd.2
    have hkid : ∀ value, ("children", value) ∈ members → ∀ kid ∈ value.kids,
        ∃ k, load kid = .ok k ∧ k.validate = .ok () := fun value hvalue kid hk =>
      ihkids value hvalue kid hk ((hdistinct _ hvalue).kid hk)
    have hcontent : ∀ contents, ("scopedSlots", Json.object contents) ∈ members → ∀ c ∈ contents,
        ∃ k, load c.2 = .ok k ∧ k.self.loop = none ∧ k.validate = .ok () := by
      intro contents hin c hc
      have hdc : c.2.Distinct := Json.distinctMembers_iff.1 (hdistinct _ hin).2 c hc
      obtain ⟨k, hk, hvalid⟩ := ihslots contents hin c hc hdc
      exact ⟨k, hk, (loop_of_load hdc hk).2 (once contents hin c hc), hvalid⟩
    -- members load one by one, and then together
    have hloads : ∀ m ∈ members, Loads m.1 m.2 := by
      rintro ⟨key, value⟩ hm
      refine ⟨fits _ hm, fun hkey => ?_, fun hkey cs hcs => ?_⟩
      · cases hkey
        obtain ⟨ks, hks⟩ := List.exists_forall₂ fun kid hk =>
          (hkid value hm kid hk).imp fun _ => And.left
        exact ⟨ks, loadAll_eq_ok.2 hks⟩
      · cases hkey
        cases hcs
        have hpaired : ∀ c ∈ cs, ∃ e : String × Node, c.1 = e.1 ∧ load c.2 = .ok e.2 := by
          intro c hc
          obtain ⟨k, hk, -⟩ := hcontent cs hm c hc
          exact ⟨(c.1, k), rfl, hk⟩
        obtain ⟨ns, hns⟩ := List.exists_forall₂ hpaired
        exact ⟨ns, loadSlots_eq_ok.2 hns⟩
    obtain ⟨c, hc⟩ := (loadComponent_isOk hd.1).2 component
    obtain ⟨n, hn⟩ := (exists_loadMembers_ok (n := mk (.plain c) none [])).2 hloads
    have hloaded := loaded_of_loadMembers hd.1 hn
    obtain ⟨hns, hloop, hdata⟩ := hloaded.takes.of_plain
    have hslots := hloaded.slots_cases fits
    refine ⟨n, by rw [load, hc]; exact hn, validate_eq_ok.2 ⟨fun hnone => ?_, ?_, ?_⟩⟩
    · obtain ⟨hfor, hbound, hno, hempty⟩ := homeless (hns.1 hnone)
      refine ⟨hloop.2 ⟨hfor, hbound⟩, ?_, hdata.2 hno⟩
      rcases hslots with heq | ⟨contents, ns, hm, hloadSlots, heq⟩
      · exact heq
      · cases hempty contents hm
        cases hloadSlots
        exact heq
    · rcases hloaded.children_cases with heq | ⟨value, ks, hm, hks, heq⟩
      · rw [heq]
        exact List.forall_mem_nil _
      · rw [heq]
        intro k hk
        obtain ⟨kid, hin, hload⟩ := (loadAll_eq_ok.1 hks).flip.exists_of_mem hk
        obtain ⟨k', hk', hvalid⟩ := hkid value hm kid hin
        cases hload.symm.trans hk'
        exact hvalid
    · rcases hslots with heq | ⟨contents, ns, hm, hloadSlots, heq⟩
      · rw [heq]
        exact List.forall_mem_nil _
      · rw [heq]
        refine Members.forall_mem_ofList
          (P := fun k : Node => k.self.loop = none ∧ k.validate = .ok ()) fun e he => ?_
        obtain ⟨c, hin, -, hload⟩ := (loadSlots_eq_ok.1 hloadSlots).flip.exists_of_mem he
        obtain ⟨k, hk, hkept⟩ := hcontent contents hm c hin
        cases hload.symm.trans hk
        exact hkept

theorem isSchema_iff {j : Json} (hd : j.Distinct) :
    j.IsSchema ↔ ∃ n, load j = .ok n ∧ n.validate = .ok () :=
  ⟨fun h => load_of_isSchema h hd, fun ⟨_, hload, hvalid⟩ => isSchema_of_load hd hload hvalid⟩

/-- **The accepted documents** are those of the grammar. -/
theorem accepted_iff {j : Json} (hd : j.Distinct) : (∃ n, ofJson j = .ok n) ↔ j.IsSchema := by
  rw [isSchema_iff hd]
  exact exists_congr fun _ => ofJson_eq_ok

/-- A shelf with a title, a line and a slot, and a member of a name nobody knows. -/
def shelf : Json :=
  .object [("component", .string "section"), ("namespace", .string "shelf"),
    ("data", .object [("title", .string "Notes")]),
    ("attrs", .object [("id", .string "notes"), (":title", .string " |> shelf.title")]),
    ("children", .array [.object [("component", .string "p"), (":text", .string "shelf.title")]]),
    ("scopedSlots", .object [("row", .object [("component", .string "li")])]),
    ("layout", .null)]

/-- The schema it loads to. -/
def shelfNode : Node :=
  .mk { Directives.plain (.named "section") with
      ns := some "shelf"
      data := some [("title", .string "Notes")]
      attrs := ⟨[("id", .literal (.string "notes")), ("title", .expression " |> shelf.title")],
        none⟩ }
    (some [.mk { Directives.plain (.named "p") with
      boundText := some (.path ⟨"shelf", none, ["title"]⟩) } none []])
    [("row", .mk (.plain (.named "li")) none [])]

/-- A line for each of some items, without a namespace. -/
def strayLine : Json :=
  .object [("component", .string "li"), ("for", .array [.bool true])]

/-- The shelf is of the grammar, the line is not. -/
theorem accepted_iff_shelf : shelf.Distinct ∧ strayLine.Distinct ∧
    ofJson shelf = .ok shelfNode ∧ shelf.IsSchema ∧ ¬ strayLine.IsSchema := by
  have hshelf : shelf.Distinct := by
    simp [shelf, Json.Distinct, Json.DistinctMembers, Json.DistinctItems, Members.Distinct,
      Members.names]
  have hline : strayLine.Distinct := by
    simp [strayLine, Json.Distinct, Json.DistinctMembers, Json.DistinctItems, Members.Distinct,
      Members.names]
  have hload : ofJson shelf = .ok shelfNode := ofJson_eq_ok.2 ⟨rfl, rfl⟩
  refine ⟨hshelf, hline, hload, (accepted_iff hshelf).1 ⟨shelfNode, hload⟩, fun h => ?_⟩
  obtain ⟨n, hn⟩ := (accepted_iff hline).2 h
  cases hn

/-- **The accepted texts** are those that hold a document of the grammar. -/
theorem parsed_iff {text : String} :
    (∃ n, parse text = .ok n) ↔ ∃ j, Json.parse? text = some j ∧ j.IsSchema := by
  unfold parse
  cases h : Json.parse? text with
  | none => exact ⟨nofun, nofun⟩
  | some j =>
    simp only [ofJson_eq_ok, Option.some.injEq, exists_eq_left']
    exact (isSchema_iff (Json.distinct_of_parse? h)).symm

end Node

end Trellis.Schema
