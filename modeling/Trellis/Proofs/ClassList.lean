import Trellis.Proofs.Acts
import Trellis.Proofs.Members
import Trellis.Resolved

/-!
# Classes by their mentions

A class value mentions names, from left to right and through arrays of any depth. Whatever values are
merged one after the other, every name they mention stands in the class list once, where it was
mentioned first, on or off as the last mention says. So it does not matter how mentions are spread
over values.

* `ClassList.mentions`: what a class value mentions.
* `ClassList.merge_eq`: merging assigns the mentions in order.
* `ClassList.LastWins`: class lists by mentions.
* `ClassList.merge_lastWins`: all merging comes to.
-/

namespace Trellis

/-- The words read so far and the rest of a text. -/
theorem Text.wordsFrom_eq (word cs : List Char) : wordsFrom word cs =
    ((cs.splitOnP isBlank).modifyHead (word.reverse ++ ·)).filter fun w => !w.isEmpty := by
  induction cs generalizing word with
  | nil => cases word <;> simp [wordsFrom]
  | cons c cs ih =>
    rw [wordsFrom, List.splitOnP_cons_eq_if_modifyHead]
    split
    · -- a blank ends the word, if there is one
      have hnext : wordsFrom [] cs = (cs.splitOnP isBlank).filter fun w => !w.isEmpty :=
        (ih []).trans (congrArg _ (congrFun List.modifyHead_id _))
      rw [hnext]
      cases word <;> simp
    · rw [ih, List.modifyHead_modifyHead]
      congr 2
      funext rest
      simp

/-- **The words** of a text are what lies between its blanks, as far as anything does. -/
theorem Text.words_eq (s : String) :
    words s = ((s.toList.splitOnP isBlank).filter fun w => !w.isEmpty).map String.ofList :=
  congrArg _ ((wordsFrom_eq [] s.toList).trans (congrArg _ (congrFun List.modifyHead_id _)))

namespace ClassList

mutual

/-- The names a class value mentions, on or off, from left to right: what lies between the blanks of
a text is on, and a member of an object is on if its value counts as true. -/
def mentions : Value → List (String × Bool)
  | .string s =>
    ((s.toList.splitOnP Text.isBlank).filter fun w => !w.isEmpty).map fun w =>
      (String.ofList w, true)
  | .array items => mentionsAll items
  | .object members => members.map fun m => (m.1, m.2.truthy)
  | _ => []

/-- What the items of an array mention. -/
def mentionsAll : List Value → List (String × Bool)
  | [] => []
  | v :: rest => mentions v ++ mentionsAll rest

end

theorem mentionsAll_eq (items : List Value) : mentionsAll items = items.flatMap mentions := by
  induction items with
  | nil => rfl
  | cons v rest ih => rw [mentionsAll, ih, List.flatMap_cons]

mutual

/-- **Merging** a class value assigns what it mentions, in order. -/
theorem merge_eq (classes : ClassList) : ∀ v : Value, merge classes v = classes.extend (mentions v)
  | .string s => by
    rw [merge, mentions, Text.words_eq, Members.extend, List.foldl_map, List.foldl_map]
  | .array items => by rw [merge, mentions, mergeItems_eq]
  | .object members => by rw [merge, mentions, Members.extend, List.foldl_map]
  | .null | .bool _ | .number _ | .function _ => by simp only [merge, mentions]; rfl

theorem mergeItems_eq (classes : ClassList) : ∀ items : List Value,
    mergeItems classes items = classes.extend (mentionsAll items)
  | [] => rfl
  | v :: rest => by
    rw [mergeItems, mentionsAll, Members.extend_append, merge_eq classes v, mergeItems_eq _ rest]

end

/-- Merging values in turn assigns what they mention. -/
theorem foldl_merge (vs : List Value) (classes : ClassList) :
    vs.foldl merge classes = classes.extend (vs.flatMap mentions) := by
  induction vs generalizing classes with
  | nil => rfl
  | cons v vs ih => rw [List.foldl_cons, ih, merge_eq, List.flatMap_cons, Members.extend_append]

/-- **A class list by mentions**: each name that is mentioned once, in the order of the first
mentions, on or off as its last mention says; those that are on are the active ones. -/
structure LastWins (mentions : List (String × Bool)) (classes : ClassList) : Prop where
  once : classes.names.Nodup
  mentioned : ∀ name, name ∈ classes.names ↔ name ∈ mentions.map Prod.fst
  order : classes.names.Pairwise (FirstUse (mentions.map Prod.fst))
  state : ∀ name on, (name, on) ∈ classes ↔
    ∃ before behind, mentions = before ++ (name, on) :: behind ∧ name ∉ behind.map Prod.fst
  active : classes.active = classes.names.filter fun name => (name, true) ∈ classes

/-- What is found from the end of a list is what no other entry of the name follows. -/
theorem get?_reverse_eq_some {mentions : List (String × Bool)} {name : String} {on : Bool} :
    Members.get? mentions.reverse name = some on ↔
      ∃ before behind, mentions = before ++ (name, on) :: behind ∧
        name ∉ behind.map Prod.fst := by
  unfold Members.get?
  rw [List.lookup_eq_some_iff]
  constructor
  · rintro ⟨l₁, l₂, heq, hne⟩
    refine ⟨l₂.reverse, l₁.reverse, ?_, ?_⟩
    · rw [← List.reverse_reverse mentions, heq]
      simp
    · rw [List.map_reverse, List.mem_reverse]
      intro hmem
      obtain ⟨m, hm, rfl⟩ := List.mem_map.1 hmem
      simpa using hne m hm
  · rintro ⟨before, behind, rfl, hne⟩
    refine ⟨behind.reverse, before.reverse, by simp, fun m hm => ?_⟩
    rw [bne_iff_ne]
    rintro rfl
    exact hne (List.mem_map_of_mem (List.mem_reverse.1 hm))

/-- The active names of a class list in which no name occurs twice. -/
theorem active_eq {classes : ClassList} (h : Members.Distinct classes) :
    classes.active = classes.names.filter fun name => (name, true) ∈ classes := by
  unfold active Members.names
  rw [List.filter_map]
  refine congrArg _ (List.filter_congr fun m hm => ?_)
  -- a name that is on is not off as well
  have hstate : (m.1, true) ∈ classes ↔ m.2 = true := by
    constructor
    · intro hon
      have hget := Members.get?_of_mem h hon
      rw [Members.get?_of_mem h (show (m.1, m.2) ∈ classes from hm)] at hget
      exact Option.some.inj hget
    · intro hon
      rw [← hon]
      exact hm
  rw [Function.comp_apply, Bool.eq_iff_iff, decide_eq_true_iff]
  exact hstate.symm

/-- Assigning mentions to an empty list. -/
theorem lastWins_ofList (mentions : List (String × Bool)) :
    LastWins mentions (Members.ofList mentions) := by
  have hdistinct : Members.Distinct (Members.ofList mentions) := Members.distinct_ofList mentions
  have hnames : (Members.ofList mentions).names = (mentions.map Prod.fst).eraseDups :=
    Members.names_extend mentions List.nodup_nil
  refine ⟨hdistinct, fun name => ?_, ?_, fun name on => ?_, active_eq hdistinct⟩
  · rw [hnames, List.mem_eraseDups]
  · rw [hnames]
    have horder := eraseDups_firstUse (mentions.map Prod.fst) fun _ => true
    rwa [List.filter_true] at horder
  · rw [← get?_reverse_eq_some]
    have hget : (Members.ofList mentions).get? name = Members.get? mentions.reverse name := by
      rw [Members.ofList, Members.get?_extend, Members.get?_nil, Option.or_none]
    rw [← hget]
    exact ⟨Members.get?_of_mem hdistinct, Members.mem_of_get?⟩

/-- What the parts of a list mention, each part as an array. -/
theorem mentions_parts (parts : List (List Value)) :
    (parts.map Value.array).flatMap mentions = parts.flatten.flatMap mentions := by
  induction parts with
  | nil => rfl
  | cons part parts ih =>
    rw [List.map_cons, List.flatMap_cons, ih, List.flatten_cons, List.flatMap_append, mentions,
      mentionsAll_eq]

/-- The classes of a node are what its static value and then its bound one come to. -/
theorem of_traits {d : Schema.Directives} {value : Binding → Act Value} {scope : ScopeId}
    {s t : Session} {traits : Traits} (h : (d.traits value scope).runOn s = (.ok traits, t)) :
    ∃ bound u, (d.boundClasses.mapM value).runOn s = (.ok bound, u) ∧
      traits.classes = (d.classes.toList ++ bound.toList).foldl merge [] := by
  obtain ⟨classes, u, hclasses, h⟩ := Act.runOn_bind_eq_ok.1 h
  -- nothing after the classes changes them
  have hsame : traits.classes = classes := by
    obtain ⟨style, _, -, h⟩ := Act.runOn_bind_eq_ok.1 h
    obtain ⟨attrs, _, -, h⟩ := Act.runOn_bind_eq_ok.1 h
    obtain ⟨props, _, -, h⟩ := Act.runOn_bind_eq_ok.1 h
    obtain ⟨domProps, _, -, h⟩ := Act.runOn_bind_eq_ok.1 h
    obtain ⟨shown, _, -, h⟩ := Act.runOn_bind_eq_ok.1 h
    obtain ⟨key, _, -, h⟩ := Act.runOn_bind_eq_ok.1 h
    cases h
    rfl
  rw [hsame]
  unfold Schema.Directives.classList at hclasses
  have hstatic : (d.classes.map (merge [])).getD [] = d.classes.toList.foldl merge [] := by
    cases d.classes <;> rfl
  rw [hstatic] at hclasses
  cases hb : d.boundClasses with
  | none =>
    rw [hb] at hclasses
    cases hclasses
    exact ⟨none, s, rfl, by rw [Option.toList_none, List.append_nil]⟩
  | some binding =>
    rw [hb] at hclasses
    obtain ⟨v, u, hv, hclasses⟩ := Act.runOn_bind_eq_ok.1 hclasses
    cases hclasses
    refine ⟨some v, u, ?_, by rw [Option.toList_some, List.foldl_append]; rfl⟩
    exact Act.runOn_bind_eq_ok.2 ⟨v, u, hv, rfl⟩

/-- **Merging.** Whatever values are merged one after the other, the last mention of a name says
whether it is on, and the first one where it stands. An array is merged as its items in turn would
be, and as the parts would be that it is split into, be it that they are merged one after the other
or nested in an array. The classes of a node are what merging its static value and then the bound one
comes to. -/
theorem merge_lastWins (vs : List Value) :
    LastWins (vs.flatMap mentions) (vs.foldl merge []) ∧
    (∀ classes, merge classes (.array vs) = vs.foldl merge classes) ∧
    (∀ classes (parts : List (List Value)),
      (parts.map Value.array).foldl merge classes = merge classes (.array parts.flatten) ∧
        merge classes (.array (parts.map .array)) = merge classes (.array parts.flatten)) ∧
    ∀ (d : Schema.Directives) (value : Binding → Act Value) (scope : ScopeId) (s t : Session)
      (traits : Traits), (d.traits value scope).runOn s = (.ok traits, t) →
        ∃ bound u, (d.boundClasses.mapM value).runOn s = (.ok bound, u) ∧
          traits.classes = (d.classes.toList ++ bound.toList).foldl merge [] := by
  have harray : ∀ (ws : List Value) (classes : ClassList),
      merge classes (.array ws) = ws.foldl merge classes := by
    intro ws classes
    rw [merge_eq, mentions, mentionsAll_eq, foldl_merge]
  refine ⟨?_, harray vs, ?_, ?_⟩
  · rw [foldl_merge]
    exact lastWins_ofList _
  · intro classes parts
    rw [harray, harray, foldl_merge, foldl_merge, mentions_parts]
    exact ⟨rfl, rfl⟩
  · intro d value scope s t traits htraits
    exact of_traits htraits

/-- A class value that switches one class off and on again, in an array inside another one. -/
def toggling : Value :=
  .array [.object [("a", .null), ("b", .string "")], .array [.string "c a", .bool true]]

/-- A node that has the class already. -/
def toggled : Schema.Directives :=
  { Schema.Directives.plain (.named "b") with
    classes := some (.string "a  b ")
    boundClasses := some (.literal toggling) }

/-- It stands where it stood. -/
theorem merge_lastWins_toggled : ∃ traits t,
    (toggled.traits (Binding.resolve ⟨false⟩ 0) 0).runOn .new = (.ok traits, t) ∧
      LastWins [("a", true), ("b", true), ("a", false), ("b", false), ("c", true), ("a", true)]
        traits.classes ∧ traits.classes = [("a", true), ("b", false), ("c", true)] := by
  obtain ⟨traits, t, htraits⟩ : ∃ traits t,
      (toggled.traits (Binding.resolve ⟨false⟩ 0) 0).runOn .new = (.ok traits, t) := ⟨_, _, rfl⟩
  refine ⟨traits, t, htraits, ?_⟩
  obtain ⟨-, -, -, hnode⟩ := merge_lastWins []
  obtain ⟨bound, u, hbound, hclasses⟩ := hnode toggled _ 0 _ t traits htraits
  cases hbound
  have hmentions : [.string "a  b ", toggling].flatMap mentions =
      [("a", true), ("b", true), ("a", false), ("b", false), ("c", true), ("a", true)] := by
    decide +kernel
  rw [hclasses, ← hmentions]
  exact ⟨(merge_lastWins _).1, by decide +kernel⟩

end ClassList

end Trellis
