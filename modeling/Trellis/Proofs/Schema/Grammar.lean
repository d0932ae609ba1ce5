import Trellis.Proofs.Members
import Trellis.Proofs.Schema.Loading

/-!
# The grammar of schema documents

What a schema document has to look like, said of the document alone, and what of it loading sees
to at one member of a node.

* `Json.Distinct`: no object names a member twice. Documents that were read from texts are of this
  kind.
* `Schema.Fits`: one member of a node is what its key asks for.
* `Json.IsSchema`: the members of a node fit, what needs a namespace has one, and the children and
  slot contents are schemas themselves.
* `Schema.Node.exists_loadDirective_ok`: a node takes up the members that fit and no others, whatever
  it has taken up before.
-/

namespace Trellis

/-! ### Documents -/

namespace Json

mutual

/-- No object in the document names a member twice. -/
def Distinct : Json → Prop
  | array items => DistinctItems items
  | object members => Members.Distinct members ∧ DistinctMembers members
  | _ => True

/-- No object in the items names a member twice. -/
def DistinctItems : List Json → Prop
  | [] => True
  | j :: rest => Distinct j ∧ DistinctItems rest

/-- No object in the values of the members names a member twice. -/
def DistinctMembers : List (String × Json) → Prop
  | [] => True
  | (_, j) :: rest => Distinct j ∧ DistinctMembers rest

end

theorem distinctItems_iff : ∀ {items : List Json},
    DistinctItems items ↔ ∀ j ∈ items, j.Distinct
  | [] => ⟨fun _ => List.forall_mem_nil _, fun _ => trivial⟩
  | j :: rest => by rw [List.forall_mem_cons, DistinctItems, distinctItems_iff]

theorem distinctMembers_iff : ∀ {members : List (String × Json)},
    DistinctMembers members ↔ ∀ m ∈ members, m.2.Distinct
  | [] => ⟨fun _ => List.forall_mem_nil _, fun _ => trivial⟩
  | (_, j) :: rest => by rw [List.forall_mem_cons, DistinctMembers, distinctMembers_iff]

mutual

theorem distinct_settled : ∀ j : Json, j.settled.Distinct
  | array items => distinctItems_settled items
  | object members =>
    ⟨Members.distinct_ofList _, distinctMembers_iff.2
      (Members.forall_mem_ofList (distinctMembers_iff.1 (distinctMembers_settled members)))⟩
  | null | bool _ | number _ | integer _ | string _ => trivial

theorem distinctItems_settled : ∀ items : List Json, DistinctItems (settledItems items)
  | [] => trivial
  | j :: rest => ⟨distinct_settled j, distinctItems_settled rest⟩

theorem distinctMembers_settled : ∀ members : List (String × Json),
    DistinctMembers (settledMembers members)
  | [] => trivial
  | (_, j) :: rest => ⟨distinct_settled j, distinctMembers_settled rest⟩

end

/-- **Documents read from texts** name no member of an object twice. -/
theorem distinct_of_parse? {text : String} {j : Json} (h : parse? text = some j) : j.Distinct := by
  obtain ⟨i, -, h⟩ := Option.bind_eq_some_iff.1 h
  split at h
  · cases h
    exact distinct_settled i
  · cases h

/-- A value that may stand under a marked key: its text, if it is one, marks an expression or is a
path. -/
def IsBinding (value : Json) : Prop :=
  ∀ s, value = string s →
    (∃ body, Text.trimStart s.toList = '|' :: '>' :: body) ∨ ∃ p, Path.parse s = .ok p

/-- The nodes under `children`: one that stands alone is a list of one. -/
def kids : Json → List Json
  | array items => items
  | single => [single]

theorem Distinct.kid {value j : Json} (h : value.Distinct) (hj : j ∈ value.kids) : j.Distinct := by
  cases value with
  | array items => exact distinctItems_iff.1 h j hj
  | _ => exact List.mem_singleton.1 hj ▸ h

end Json

namespace Schema

/-- Members that are texts. -/
def textKeys : List String := ["namespace", "slot", "ref"]

/-- Members whose entries may be marked. -/
def entryKeys : List String := ["style", "attrs", "props", "domProps", "on", "nativeOn"]

/-- Members that are objects. -/
def objectKeys : List String := "data" :: "scopedSlots" :: entryKeys

/-- Members with a bound form. -/
def boundKeys : List String :=
  ["if", "show", "class", "style", "attrs", "props", "domProps", "text", "html", "for", "key"]

/-- Members without a bound form. -/
def unboundKeys : List String :=
  ["component", "namespace", "data", "children", "on", "nativeOn", "scopedSlots", "slot", "ref",
    "refInFor"]

/-- The value of one member is what its key asks for. -/
structure Fits (key : String) (value : Json) : Prop where
  text : key ∈ textKeys → ∃ s, value = .string s
  object : key ∈ objectKeys → ∃ members, value = .object members
  entries : key ∈ entryKeys → ∀ entries, value = .object entries →
    ∀ name v, (":" ++ name, v) ∈ entries → v.IsBinding
  unmarked : ∀ name ∈ unboundKeys, key ≠ ":" ++ name
  bound : ∀ name ∈ boundKeys, key = ":" ++ name → value.IsBinding

end Schema

/-- A document of the grammar of schemas. -/
inductive Json.IsSchema : Json → Prop
  | node {members : List (String × Json)}
      (component : ∃ c, ("component", c) ∈ members ∧
        ((∃ name, c = string name) ∨ ∃ definition, c = object definition))
      (fits : ∀ m ∈ members, Schema.Fits m.1 m.2)
      (homeless : "namespace" ∉ Members.names members →
        "for" ∉ Members.names members ∧ ":for" ∉ Members.names members ∧
        "data" ∉ Members.names members ∧
        ∀ contents, ("scopedSlots", object contents) ∈ members → contents = [])
      (children : ∀ value, ("children", value) ∈ members → ∀ kid ∈ value.kids, IsSchema kid)
      (slots : ∀ contents, ("scopedSlots", object contents) ∈ members →
        ∀ c ∈ contents, IsSchema c.2)
      (once : ∀ contents, ("scopedSlots", object contents) ∈ members →
        ∀ c ∈ contents, c.2.member? "for" = none ∧ c.2.member? ":for" = none) :
      IsSchema (object members)

/-! ### Marks and bindings -/

theorem splitMark_marked (name : String) : splitMark (":" ++ name) = (name, true) := by
  unfold splitMark
  rw [String.toList_append]
  simp [bindingMark]

theorem splitMark_unmarked {key : String} (h : ∀ name, key ≠ ":" ++ name) :
    splitMark key = (key, false) := by
  unfold splitMark
  split
  · next c cs hcs =>
    rw [if_neg]
    rintro rfl
    refine h (String.ofList cs) (String.toList_injective ?_)
    rw [hcs]
    simp only [String.toList_append, String.toList_ofList]
    rfl
  · rfl

theorem marked_or_not (key : String) : (∃ name, key = ":" ++ name) ∨ ∀ name, key ≠ ":" ++ name := by
  by_cases hkey : ∃ name, key = ":" ++ name
  · exact .inl hkey
  · exact .inr fun name h => hkey ⟨name, h⟩

theorem ne_marked {key : String} (h : key.toList.head? ≠ some ':') (name : String) :
    key ≠ ":" ++ name := by
  rintro rfl
  apply h
  rw [String.toList_append]
  rfl

theorem marked_notMem {keys : List String} (hkeys : ∀ key ∈ keys, key.toList.head? ≠ some ':')
    (name : String) : ":" ++ name ∉ keys :=
  fun h => ne_marked (hkeys _ h) name rfl

theorem isSome_expressionBody? {s : String} :
    (expressionBody? s).isSome ↔ ∃ body, Text.trimStart s.toList = '|' :: '>' :: body := by
  unfold expressionBody?
  split
  · next body h => exact ⟨fun _ => ⟨body, h⟩, fun _ => rfl⟩
  · next h => exact ⟨nofun, fun ⟨body, hbody⟩ => (h body hbody).elim⟩

/-- What stands under a marked key is taken up if it is a binding. -/
theorem Binding.exists_ofJson_ok {value : Json} :
    (∃ b, Binding.ofJson value = .ok b) ↔ value.IsBinding := by
  unfold Binding.ofJson
  split
  · next s =>
    have hs : (Json.string s).IsBinding ↔ (∃ body, Text.trimStart s.toList = '|' :: '>' :: body) ∨
        ∃ p, Path.parse s = .ok p := ⟨fun h => h s rfl, fun h t ht => Json.string.inj ht ▸ h⟩
    rw [hs, ← isSome_expressionBody?]
    split
    · next h => exact ⟨fun _ => .inl h, fun _ => ⟨_, rfl⟩⟩
    · next h => rw [Except.exists_map_ok, or_iff_right h]
  · next h => exact ⟨fun _ s hs => (h s hs).elim, fun _ => ⟨_, rfl⟩⟩

namespace Schema

variable {key : String} {value : Json}

theorem exists_loadText_ok : (∃ s, loadText key value = .ok s) ↔ ∃ s, value = .string s := by
  cases value <;> simp [loadText]

theorem loadObject_eq_ok {members : List (String × Json)} :
    loadObject key value = .ok members ↔ value = .object members := by
  cases value <;> simp [loadObject]

theorem exists_loadEntry_ok :
    (∃ e, loadEntry key value = .ok e) ↔ ∀ name, key = ":" ++ name → value.IsBinding := by
  unfold loadEntry
  rcases marked_or_not key with ⟨name, rfl⟩ | hkey
  · rw [splitMark_marked]
    simp only
    rw [Except.exists_map_ok, Binding.exists_ofJson_ok]
    exact ⟨fun h _ _ => h, fun h => h name rfl⟩
  · rw [splitMark_unmarked hkey]
    exact ⟨fun _ name h => (hkey name h).elim, fun _ => ⟨_, rfl⟩⟩

/-- **Entries** are taken up if they are an object and those that are marked are bindings. -/
theorem exists_loadEntries_ok :
    (∃ e, loadEntries key value = .ok e) ↔ ∃ entries, value = .object entries ∧
      ∀ name v, (":" ++ name, v) ∈ entries → v.IsBinding := by
  unfold loadEntries
  rw [Except.exists_bind_ok]
  refine exists_congr fun entries => ?_
  rw [loadObject_eq_ok]
  refine and_congr_right fun _ => ?_
  rw [Except.exists_bind_pure_ok, Except.exists_mapM_ok]
  simp only [exists_loadEntry_ok]
  exact ⟨fun h name v hv => h _ hv name rfl, fun h m hm name hname => h name m.2 (hname ▸ hm)⟩

theorem exists_loadHandlers_ok :
    (∃ e, loadHandlers key value = .ok e) ↔ ∃ e, loadEntries key value = .ok e := by
  unfold loadHandlers
  exact Except.exists_bind_pure_ok

/-! ### One member -/

/-- A known key has a bound form or has none. -/
theorem mem_knownKeys : key ∈ knownKeys ↔ key ∈ boundKeys ∨ key ∈ unboundKeys := by
  have hperm : knownKeys.Perm (boundKeys ++ unboundKeys) := by decide
  rw [hperm.mem_iff, List.mem_append]

theorem Fits.of_unmarked (hkey : ∀ name, key ≠ ":" ++ name)
    (text : key ∈ textKeys → ∃ s, value = .string s)
    (object : key ∈ objectKeys → ∃ members, value = .object members)
    (entries : key ∈ entryKeys → ∀ entries, value = .object entries →
      ∀ name v, (":" ++ name, v) ∈ entries → v.IsBinding) : Fits key value :=
  ⟨text, object, entries, fun name _ => hkey name, fun name _ h => (hkey name h).elim⟩

theorem fits_marked {name : String} :
    Fits (":" ++ name) value ↔ name ∉ unboundKeys ∧ (name ∈ boundKeys → value.IsBinding) := by
  constructor
  · exact fun h => ⟨fun hn => h.unmarked name hn rfl, fun hn => h.bound name hn rfl⟩
  · rintro ⟨hunbound, hbound⟩
    refine ⟨fun h => ?_, fun h => ?_, fun h => ?_, ?_, ?_⟩
    · exact (marked_notMem (by decide) name h).elim
    · exact (marked_notMem (by decide) name h).elim
    · exact (marked_notMem (by decide) name h).elim
    · intro other hother h
      exact hunbound ((String.append_right_inj ":").1 h ▸ hother)
    · intro other hother h
      exact hbound ((String.append_right_inj ":").1 h ▸ hother)

section Unmarked

variable (hkey : ∀ name, key ≠ ":" ++ name)
include hkey

theorem fits_of_mem_textKeys (h : key ∈ textKeys) : Fits key value ↔ ∃ s, value = .string s := by
  have hobject : key ∉ objectKeys := by clear hkey; revert key; decide
  have hentries : key ∉ entryKeys := by clear hkey; revert key; decide
  exact ⟨fun hv => hv.text h, fun hv => .of_unmarked hkey (fun _ => hv)
    (fun ho => (hobject ho).elim) (fun he => (hentries he).elim)⟩

theorem fits_of_mem_entryKeys (h : key ∈ entryKeys) : Fits key value ↔
    ∃ entries, value = .object entries ∧ ∀ name v, (":" ++ name, v) ∈ entries → v.IsBinding := by
  have htext : key ∉ textKeys := by clear hkey; revert key; decide
  have hobject : key ∈ objectKeys := by clear hkey; revert key; decide
  constructor
  · intro hv
    obtain ⟨entries, rfl⟩ := hv.object hobject
    exact ⟨entries, rfl, hv.entries h entries rfl⟩
  · rintro ⟨entries, rfl, hv⟩
    refine .of_unmarked hkey (fun ht => (htext ht).elim) (fun _ => ⟨entries, rfl⟩) fun _ es hes => ?_
    cases hes
    exact hv

theorem fits_of_mem_objectKeys (h : key ∈ objectKeys) (hentries : key ∉ entryKeys) :
    Fits key value ↔ ∃ members, value = .object members := by
  have htext : key ∉ textKeys := by clear hkey hentries; revert key; decide
  exact ⟨fun hv => hv.object h, fun hv => .of_unmarked hkey (fun ht => (htext ht).elim)
    (fun _ => hv) (fun he => (hentries he).elim)⟩

theorem fits_of_notMem (htext : key ∉ textKeys) (hobject : key ∉ objectKeys) : Fits key value := by
  have hentries : key ∉ entryKeys := fun h =>
    hobject (List.mem_cons_of_mem _ (List.mem_cons_of_mem _ h))
  exact .of_unmarked hkey (fun ht => (htext ht).elim) (fun ho => (hobject ho).elim)
    (fun he => (hentries he).elim)

/-- **A member in its static form** is taken up if it fits. -/
theorem Directives.exists_loadStatic_ok {d : Directives} (hslots : key ≠ "scopedSlots") :
    (∃ d', d.loadStatic key value = .ok d') ↔ Fits key value := by
  unfold loadStatic
  split
  -- texts
  case h_1 | h_16 | h_17 =>
    rw [fits_of_mem_textKeys hkey (by decide), Except.exists_bind_pure_ok, exists_loadText_ok]
  -- data
  case h_2 =>
    rw [fits_of_mem_objectKeys hkey (by decide) (by decide), Except.exists_bind_pure_ok]
    exact exists_congr fun _ => loadObject_eq_ok
  -- entries, of listeners as well
  case h_6 | h_7 | h_8 | h_9 =>
    rw [fits_of_mem_entryKeys hkey (by decide), Except.exists_bind_pure_ok, exists_loadEntries_ok]
  case h_14 | h_15 =>
    rw [fits_of_mem_entryKeys hkey (by decide), Except.exists_bind_pure_ok, exists_loadHandlers_ok,
      exists_loadEntries_ok]
  -- raw markup, which gives way to a bound form
  case h_11 =>
    refine iff_of_true ?_ (fits_of_notMem hkey (by decide) (by decide))
    split
    · exact ⟨_, rfl⟩
    · exact ⟨_, rfl⟩
  -- members of any value
  case h_3 | h_4 | h_5 | h_10 | h_12 | h_13 | h_18 =>
    exact iff_of_true ⟨_, rfl⟩ (fits_of_notMem hkey (by decide) (by decide))
  case h_19 =>
    refine iff_of_true ⟨_, rfl⟩ (fits_of_notMem hkey ?_ ?_)
    · simp_all [textKeys]
    · simp_all [objectKeys, entryKeys]

end Unmarked

/-- **A member in its bound form** is taken up if it has one and is a binding. -/
theorem Directives.exists_loadBound_ok {d : Directives} :
    (∃ d', d.loadBound key value = .ok d') ↔
      key ∉ unboundKeys ∧ (key ∈ boundKeys → value.IsBinding) := by
  by_cases hkey : key ∈ boundKeys
  · have hunbound : key ∉ unboundKeys := by revert key; decide
    simp only [hunbound, hkey, not_false_eq_true, true_and, forall_const]
    rw [← Binding.exists_ofJson_ok]
    unfold loadBound
    split
    case h_12 => simp_all [boundKeys]
    all_goals exact Except.exists_bind_pure_ok
  · simp only [hkey, false_imp_iff, and_true]
    unfold loadBound
    split
    case h_12 =>
      have hknown : key ∈ knownKeys ↔ key ∈ unboundKeys := by rw [mem_knownKeys, or_iff_right hkey]
      rw [← hknown, ← List.contains_iff_mem]
      split
      · next h => exact iff_of_false (fun ⟨_, h⟩ => nomatch h) (not_not_intro h)
      · next h => exact iff_of_true ⟨_, rfl⟩ h
    all_goals exact (hkey (by decide)).elim

/-- **A member that holds no nodes** is taken up if it fits, whatever the node has taken up before. -/
theorem Node.exists_loadDirective_ok {n : Node} (hslots : key ≠ "scopedSlots") :
    (∃ n', n.loadDirective key value = .ok n') ↔ Fits key value := by
  unfold loadDirective
  rcases marked_or_not key with ⟨name, rfl⟩ | hkey
  · rw [splitMark_marked, fits_marked]
    simp only [if_true]
    rw [Except.exists_bind_pure_ok, Directives.exists_loadBound_ok]
  · rw [splitMark_unmarked hkey]
    simp only [Bool.false_eq_true, if_false]
    rw [Except.exists_bind_pure_ok, Directives.exists_loadStatic_ok hkey hslots]

end Schema

end Trellis
