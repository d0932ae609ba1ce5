import Trellis.Proofs.Schema.Accepted
import Mathlib.Tactic.SplitIfs

/-!
# What the members of a node set

A member sets one thing at the node, and what it sets is settled by the member alone. Settings made
under different keys do not see each other; the static and the bound form of a directive are two
keys, but for `for` and `key`, whose forms set one thing.

* `Setting`, `Setting.apply`: what a member may set, and a node with it.
* `Setting.part`: the key under which a member sets what it sets.
* `Node.loadMember_eq`: taking up a member is making its setting.
* `Setting.apply_comm`: settings of different parts commute.
-/

namespace Trellis.Schema

/-- What one member sets at a node. -/
inductive Setting where
  | nothing
  | ns (name : String)
  | data (members : Members Value)
  | condition (holds : Bool)
  | boundCondition (b : Binding)
  | visible (holds : Bool)
  | boundVisible (b : Binding)
  | classes (v : Value)
  | boundClasses (b : Binding)
  | style (entries : Members Binding)
  | styleSpread (b : Binding)
  | attrs (entries : Members Binding)
  | attrsSpread (b : Binding)
  | props (entries : Members Binding)
  | propsSpread (b : Binding)
  | domProps (entries : Members Binding)
  | domPropsSpread (b : Binding)
  | text (s : String)
  | boundText (b : Binding)
  | rawHtml (s : String)
  | html (b : Binding)
  | loop (b : Binding)
  | identity (b : Binding)
  | on (handlers : Members Handler)
  | nativeOn (handlers : Members Handler)
  | slot (name : String)
  | reference (name : String)
  | refInFor (collects : Bool)
  | children (kids : List Node)
  | slots (contents : Members Node)

namespace Setting

/-- The directives once a setting was made. -/
def direct : Setting → Directives → Directives
  | ns name, d => { d with ns := some name }
  | data members, d => { d with data := some members }
  | condition holds, d => { d with condition := { d.condition with literal := some holds } }
  | boundCondition b, d => { d with condition := { d.condition with bound := some b } }
  | visible holds, d => { d with visible := { d.visible with literal := some holds } }
  | boundVisible b, d => { d with visible := { d.visible with bound := some b } }
  | classes v, d => { d with classes := some v }
  | boundClasses b, d => { d with boundClasses := some b }
  | style entries, d => { d with style := { d.style with named := entries } }
  | styleSpread b, d => { d with style := { d.style with spread := some b } }
  | attrs entries, d => { d with attrs := { d.attrs with named := entries } }
  | attrsSpread b, d => { d with attrs := { d.attrs with spread := some b } }
  | props entries, d => { d with props := { d.props with named := entries } }
  | propsSpread b, d => { d with props := { d.props with spread := some b } }
  | domProps entries, d => { d with domProps := { d.domProps with named := entries } }
  | domPropsSpread b, d => { d with domProps := { d.domProps with spread := some b } }
  | text s, d => { d with text := some s }
  | boundText b, d => { d with boundText := some b }
  -- raw markup gives way to what is there
  | rawHtml s, d => { d with html := d.html.or (some (.literal (.string s))) }
  | html b, d => { d with html := some b }
  | loop b, d => { d with loop := some b }
  | identity b, d => { d with key := some b }
  | on handlers, d => { d with on := handlers }
  | nativeOn handlers, d => { d with nativeOn := handlers }
  | slot name, d => { d with slot := some name }
  | reference name, d => { d with reference := some name }
  | refInFor collects, d => { d with refInFor := collects }
  | nothing, d | children _, d | slots _, d => d

/-- The node once a setting was made. -/
def apply : Setting → Node → Node
  | children kids, n => n.withChildren kids
  | slots contents, n => n.withSlots contents
  | s, n => n.update s.direct

/-- The part of a node that a setting is about, by the key that names it. -/
def part : Setting → String
  | nothing => ""
  | ns _ => "namespace"
  | data _ => "data"
  | condition _ => "if"
  | boundCondition _ => ":if"
  | visible _ => "show"
  | boundVisible _ => ":show"
  | classes _ => "class"
  | boundClasses _ => ":class"
  | style _ => "style"
  | styleSpread _ => ":style"
  | attrs _ => "attrs"
  | attrsSpread _ => ":attrs"
  | props _ => "props"
  | propsSpread _ => ":props"
  | domProps _ => "domProps"
  | domPropsSpread _ => ":domProps"
  | text _ => "text"
  | boundText _ => ":text"
  | rawHtml _ => "html"
  | html _ => ":html"
  | loop _ => "for"
  | identity _ => "key"
  | on _ => "on"
  | nativeOn _ => "nativeOn"
  | slot _ => "slot"
  | reference _ => "ref"
  | refInFor _ => "refInFor"
  | children _ => "children"
  | slots _ => "scopedSlots"

/-- What a member sets in its static form. -/
def ofStatic (key : String) (value : Json) : Except Fault Setting :=
  match key with
  | "namespace" => (loadText key value).map ns
  | "data" => (loadObject key value).map fun members => data (Value.ofJsonMembers members)
  | "if" => .ok (condition (Value.ofJson value).truthy)
  | "show" => .ok (visible (Value.ofJson value).truthy)
  | "class" => .ok (classes (.ofJson value))
  | "style" => (loadEntries key value).map style
  | "attrs" => (loadEntries key value).map attrs
  | "props" => (loadEntries key value).map props
  | "domProps" => (loadEntries key value).map domProps
  | "text" => .ok (text (Value.ofJson value).text)
  | "html" => .ok (rawHtml (Value.ofJson value).text)
  | "for" => .ok (loop (.literal (.ofJson value)))
  | "key" => .ok (identity (.literal (.ofJson value)))
  | "on" => (loadHandlers key value).map on
  | "nativeOn" => (loadHandlers key value).map nativeOn
  | "slot" => (loadText key value).map slot
  | "ref" => (loadText key value).map reference
  | "refInFor" => .ok (refInFor (Value.ofJson value).truthy)
  | _ => .ok nothing

/-- What a member sets in its bound form. -/
def ofBound (name : String) (value : Json) : Except Fault Setting :=
  match name with
  | "if" => (Binding.ofJson value).map boundCondition
  | "show" => (Binding.ofJson value).map boundVisible
  | "class" => (Binding.ofJson value).map boundClasses
  | "style" => (Binding.ofJson value).map styleSpread
  | "attrs" => (Binding.ofJson value).map attrsSpread
  | "props" => (Binding.ofJson value).map propsSpread
  | "domProps" => (Binding.ofJson value).map domPropsSpread
  | "text" => (Binding.ofJson value).map boundText
  | "html" => (Binding.ofJson value).map html
  | "for" => (Binding.ofJson value).map loop
  | "key" => (Binding.ofJson value).map identity
  | _ =>
    if knownKeys.contains name then
      .error (.invalidSchema ("`" ++ name ++ "` has no bound form"))
    else .ok nothing

/-- What a member sets. -/
def ofMember (key : String) (value : Json) : Except Fault Setting :=
  if key = "children" then (Node.loadAll value.kids).map children
  else if key = "scopedSlots" then do
    let contents ← loadObject "scopedSlots" value
    (Node.loadSlots contents).map fun ns => slots (Members.ofList ns)
  else
    match splitMark key with
    | (name, true) => ofBound name value
    | (name, false) => ofStatic name value

end Setting

variable {key name : String} {value : Json} {d : Directives} {n : Node} {s t : Setting}

/-! ### Parts -/

/-- The part of a node that the members of a key are about. -/
def partOf (key : String) : String :=
  if key = ":for" then "for" else if key = ":key" then "key" else key

theorem partOf_of_unmarked (h : ∀ name, key ≠ ":" ++ name) : partOf key = key := by
  unfold partOf
  have hfor : key ≠ ":for" := h "for"
  have hkey : key ≠ ":key" := h "key"
  rw [if_neg hfor, if_neg hkey]

theorem partOf_cases (key : String) :
    partOf key = "for" ∨ partOf key = "key" ∨ partOf key = key := by
  unfold partOf
  split
  · exact .inl rfl
  split
  · exact .inr (.inl rfl)
  · exact .inr (.inr rfl)

/-- Both forms of `for`, and both of `key`, are about one part. -/
theorem partOf_eq_iff (hname : name = "for" ∨ name = "key") :
    partOf key = name ↔ key = name ∨ key = ":" ++ name := by
  have hfor : ":" ++ "for" = ":for" := rfl
  have hkey : ":" ++ "key" = ":key" := rfl
  unfold partOf
  rcases hname with rfl | rfl
  · rw [hfor]
    split_ifs <;> simp_all
  · rw [hkey]
    split_ifs <;> simp_all

theorem eq_of_partOf {part : String} (h : partOf key = part) (hfor : part ≠ "for")
    (hkey : part ≠ "key") : key = part := by
  rcases partOf_cases key with h' | h' | h'
  · exact absurd (h.symm.trans h') hfor
  · exact absurd (h.symm.trans h') hkey
  · exact h'.symm.trans h

namespace Setting

/-- A member that sets anything sets something of its part. -/
theorem part_of_static (hkey : ∀ name, key ≠ ":" ++ name) (h : ofStatic key value = .ok s) :
    s = nothing ∨ s.part = partOf key := by
  rw [partOf_of_unmarked hkey]
  unfold ofStatic at h
  split at h
  case h_19 =>
    cases h
    exact .inl rfl
  case h_3 | h_4 | h_5 | h_10 | h_11 | h_12 | h_13 | h_18 =>
    cases h
    exact .inr rfl
  all_goals
    obtain ⟨_, -, rfl⟩ := Except.map_eq_ok.1 h
    exact .inr rfl

theorem part_of_bound (h : ofBound name value = .ok s) :
    s = nothing ∨ s.part = partOf (":" ++ name) := by
  unfold ofBound at h
  split at h
  case h_12 =>
    split at h
    · cases h
    · cases h
      exact .inl rfl
  all_goals
    obtain ⟨_, -, rfl⟩ := Except.map_eq_ok.1 h
    exact .inr rfl

theorem part_of_member (h : ofMember key value = .ok s) : s = nothing ∨ s.part = partOf key := by
  unfold ofMember at h
  split at h
  · next hkey =>
    obtain ⟨kids, -, rfl⟩ := Except.map_eq_ok.1 h
    rw [hkey]
    exact .inr rfl
  split at h
  · next hkey =>
    obtain ⟨contents, -, h⟩ := Except.bind_eq_ok.1 h
    obtain ⟨ns, -, rfl⟩ := Except.map_eq_ok.1 h
    rw [hkey]
    exact .inr rfl
  rcases marked_or_not key with ⟨name, rfl⟩ | hkey
  · rw [splitMark_marked] at h
    exact part_of_bound h
  · rw [splitMark_unmarked hkey] at h
    exact part_of_static hkey h

/-- Only the members that hold nodes set anything but directives. -/
theorem apply_of_part (h : s = nothing ∨ s.part = partOf key) (hkids : key ≠ "children")
    (hslots : key ≠ "scopedSlots") : s.apply n = n.update fun _ => s.direct n.self := by
  have hpart : s.part ∉ ["children", "scopedSlots"] := by
    rcases h with rfl | h
    · decide
    · rw [h]
      unfold partOf
      split
      · decide
      split
      · decide
      · rw [List.mem_cons, List.mem_singleton, not_or]
        exact ⟨hkids, hslots⟩
  obtain ⟨d, _, _⟩ := n
  cases s with
  | children _ => exact absurd List.mem_cons_self hpart
  | slots _ => exact absurd (List.mem_cons_of_mem _ List.mem_cons_self) hpart
  | _ => rfl

/-- **Settings of different parts** commute. -/
theorem apply_comm (h : s.part ≠ t.part) (n : Node) :
    s.apply (t.apply n) = t.apply (s.apply n) := by
  obtain ⟨d, kids, contents⟩ := n
  -- settings of two forms write to two fields, or the raw markup gives way to the bound one
  cases s <;> cases t <;> first | rfl | exact absurd rfl h

end Setting

/-! ### Taking up a member -/

theorem Directives.loadStatic_eq :
    d.loadStatic key value = (Setting.ofStatic key value).map fun s => s.direct d := by
  unfold loadStatic
  split
  case h_1 | h_16 | h_17 =>
    rw [Setting.ofStatic]
    cases loadText _ value <;> rfl
  case h_2 =>
    rw [Setting.ofStatic]
    cases loadObject _ value <;> rfl
  case h_6 | h_7 | h_8 | h_9 =>
    rw [Setting.ofStatic]
    cases loadEntries _ value <;> rfl
  case h_14 | h_15 =>
    rw [Setting.ofStatic]
    cases loadHandlers _ value <;> rfl
  case h_11 =>
    rw [Setting.ofStatic, Except.map, Setting.direct]
    cases hhtml : d.html with
    | none => rfl
    | some b =>
      rw [Option.some_or, ← hhtml]
      exact if_pos (by rw [hhtml]; rfl)
  case h_19 =>
    rw [Setting.ofStatic] <;> first | rfl | assumption
  all_goals rfl

theorem Directives.loadBound_eq :
    d.loadBound name value = (Setting.ofBound name value).map fun s => s.direct d := by
  unfold loadBound
  simp only
  split
  case h_12 =>
    rw [Setting.ofBound]
    · split <;> rfl
    all_goals assumption
  all_goals
    rw [Setting.ofBound]
    cases Binding.ofJson value <;> rfl

/-- **Taking up a member** is making its setting. -/
theorem Node.loadMember_eq :
    n.loadMember key value = (Setting.ofMember key value).map fun s => s.apply n := by
  unfold loadMember Setting.ofMember
  split
  · cases loadAll value.kids <;> rfl
  next hkids =>
  split
  · cases loadObject "scopedSlots" value with
    | error f => rfl
    | ok contents =>
      change (loadSlots contents).map _ = ((loadSlots contents).map _).map _
      cases loadSlots contents <;> rfl
  next hslots =>
  unfold loadDirective
  rcases marked_or_not key with ⟨name, rfl⟩ | hkey
  · rw [splitMark_marked]
    simp only [if_true, Directives.loadBound_eq]
    cases h : Setting.ofBound name value with
    | error f => rfl
    | ok s =>
      have hpart := Setting.part_of_bound h
      exact congrArg Except.ok (Setting.apply_of_part hpart hkids hslots).symm
  · rw [splitMark_unmarked hkey]
    simp only [Bool.false_eq_true, if_false, Directives.loadStatic_eq]
    cases h : Setting.ofStatic key value with
    | error f => rfl
    | ok s =>
      have hpart := Setting.part_of_static hkey h
      exact congrArg Except.ok (Setting.apply_of_part hpart hkids hslots).symm

end Trellis.Schema
