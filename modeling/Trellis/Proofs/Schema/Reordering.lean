import Trellis.Proofs.Schema.Settings
import Mathlib.Data.List.Basic

/-!
# The order of members

In whatever order the members of a node stand, what they set is the same, but for the loop and the
key: of the two forms of `for` and of the two forms of `key` the one that stands last counts. Of the
two forms of `html` it is the bound one, wherever it stands.

* `bothForms`: the members of one name, marked or not.
* `Node.loadMembers_eq_ok`: taking up members is making their settings one after the other.
* `Node.Settled`: which form of a directive counts.
* `Node.unkeyed_run`: loops and keys apart, settings may be made in any order.
* `Node.load_reordered`: nodes of the same members in another order.
-/

/-- The last of the elements with a property: it is there, and none behind it has the property. -/
theorem List.exists_of_getLast?_filter {α : Type} {p : α → Bool} {l : List α} {a : α}
    (h : (l.filter p).getLast? = some a) :
    ∃ before behind, l = before ++ a :: behind ∧ p a = true ∧ ∀ b ∈ behind, ¬ p b = true := by
  obtain ⟨ys, hys⟩ := List.getLast?_eq_some_iff.1 h
  obtain ⟨l₁, l₂, rfl, -, hl₂⟩ := List.filter_eq_append_iff.1 hys
  obtain ⟨l₃, l₄, rfl, -, ha, hl₄⟩ := List.filter_eq_cons_iff.1 hl₂
  refine ⟨l₁ ++ l₃, l₄, by rw [List.append_assoc], ha, ?_⟩
  exact List.filter_eq_nil_iff.1 hl₄

namespace Trellis.Schema

/-- The members of a name, marked or not, in the order in which they stand. -/
def bothForms (name : String) (members : List (String × Json)) : List (String × Json) :=
  members.filter fun m => m.1 = name ∨ m.1 = ":" ++ name

/-- What the form of a directive that stands last gives. -/
def lastForm (name : String) (members : List (String × Json)) : Option Binding := do
  let m ← (bothForms name members).getLast?
  let entry ← (loadEntry m.1 m.2).toOption
  return entry.2

variable {members members' : List (String × Json)} {m : String × Json} {n n' : Node}

/-! ### Settings one after the other -/

namespace Setting

/-- What a member sets if it can be taken up. -/
def taken (m : String × Json) : Setting :=
  match ofMember m.1 m.2 with
  | .ok s => s
  | .error _ => nothing

/-- The node once the settings of members were made in order. -/
def run (members : List (String × Json)) (n : Node) : Node :=
  members.foldl (fun n m => (taken m).apply n) n

theorem taken_eq {s : Setting} (h : ofMember m.1 m.2 = .ok s) : taken m = s := by
  unfold taken
  rw [h]

theorem part_taken (m : String × Json) : taken m = nothing ∨ (taken m).part = partOf m.1 := by
  unfold taken
  cases h : ofMember m.1 m.2 with
  | error f => exact .inl rfl
  | ok s => exact part_of_member h

theorem apply_nothing (n : Node) : nothing.apply n = n := by
  cases n
  rfl

/-- Settings that members of different parts make commute. -/
theorem taken_comm {m k : String × Json} (h : partOf m.1 ≠ partOf k.1) (n : Node) :
    (taken m).apply ((taken k).apply n) = (taken k).apply ((taken m).apply n) := by
  rcases part_taken m with hm | hm
  · rw [hm, apply_nothing, apply_nothing]
  rcases part_taken k with hk | hk
  · rw [hk, apply_nothing, apply_nothing]
  rw [← hm, ← hk] at h
  exact apply_comm h n

/-- **What one member settles** stays as it is if no member behind it is about the same part. -/
theorem run_keeps {P : Node → Prop} {p : String} (hp : p ≠ "")
    (hkeep : ∀ (s : Setting) n, s.part ≠ p → P n → P (s.apply n))
    (hmembers : ∀ m ∈ members, partOf m.1 ≠ p) (hn : P n) : P (run members n) := by
  refine List.foldlRecOn members _ hn fun n hn m hm => hkeep _ _ ?_ hn
  rcases part_taken m with h | h
  · rw [h]
    exact hp.symm
  · rw [h]
    exact hmembers m hm

theorem run_append (before behind : List (String × Json)) (n : Node) :
    run (before ++ behind) n = run behind (run before n) :=
  List.foldl_append

end Setting

namespace Node

open Members (names)
open Setting (taken run)

theorem loadMembers_eq_ok : ∀ {members : List (String × Json)} {n n' : Node},
    loadMembers members n = .ok n' ↔
      (∀ m ∈ members, ∃ s, Setting.ofMember m.1 m.2 = .ok s) ∧ run members n = n'
  | [], n, n' => by
    rw [loadMembers, Except.ok.injEq]
    exact ⟨fun h => ⟨nofun, h⟩, And.right⟩
  | m :: rest, n, n' => by
    have hrun : run (m :: rest) n = run rest ((taken m).apply n) := rfl
    rw [loadMembers_cons, loadMember_eq, Except.bind_eq_ok, List.forall_mem_cons, hrun]
    constructor
    · rintro ⟨n₁, hn₁, h⟩
      obtain ⟨s, hs, rfl⟩ := Except.map_eq_ok.1 hn₁
      obtain ⟨hrest, hn'⟩ := loadMembers_eq_ok.1 h
      rw [Setting.taken_eq hs]
      exact ⟨⟨⟨s, hs⟩, hrest⟩, hn'⟩
    · rintro ⟨⟨⟨s, hs⟩, hrest⟩, hn'⟩
      rw [Setting.taken_eq hs] at hn'
      exact ⟨s.apply n, Except.map_eq_ok.2 ⟨s, hs, rfl⟩, loadMembers_eq_ok.2 ⟨hrest, hn'⟩⟩

theorem load_eq_ok : load (.object members) = .ok n ↔ ∃ c, loadComponent members = .ok c ∧
    (∀ m ∈ members, ∃ s, Setting.ofMember m.1 m.2 = .ok s) ∧
      run members (mk (.plain c) none []) = n := by
  rw [load, Except.bind_eq_ok]
  exact exists_congr fun c => and_congr_right fun _ => loadMembers_eq_ok

/-! ### Which form counts -/

/-- The bound form of `html` counts, and of `for` and `key` the form that stands last. -/
structure Settled (members : List (String × Json)) (n : Node) : Prop where
  html : ∀ value, (":html", value) ∈ members →
    ∃ b, Binding.ofJson value = .ok b ∧ n.self.html = some b
  loop : n.self.loop = lastForm "for" members
  key : n.self.key = lastForm "key" members

/-- A directive whose static and whose bound form set one thing, which nothing else sets. -/
structure LastCounts (name : String) (make : Binding → Setting) (read : Node → Option Binding) :
    Prop where
  named : name ≠ ""
  unmarked : ∀ other, name ≠ ":" ++ other
  part : ∀ key, partOf key = name ↔ key = name ∨ key = ":" ++ name
  static : ∀ value, Setting.ofMember name value = .ok (make (.literal (.ofJson value)))
  bound : ∀ value, Setting.ofMember (":" ++ name) value = (Binding.ofJson value).map make
  made : ∀ b n, read ((make b).apply n) = some b
  kept : ∀ (s : Setting) n, s.part ≠ name → read (s.apply n) = read n

namespace LastCounts

variable {name : String} {make : Binding → Setting} {read : Node → Option Binding}

theorem loop : LastCounts "for" .loop fun n => n.self.loop where
  named := by decide
  unmarked := ne_marked (by decide)
  part := fun _ => partOf_eq_iff (.inl rfl)
  static := fun _ => rfl
  bound := fun _ => rfl
  made := fun _ ⟨_, _, _⟩ => rfl
  kept := by
    rintro s ⟨d, kids, contents⟩ hs
    cases s <;> first | rfl | exact absurd rfl hs

theorem key : LastCounts "key" .identity fun n => n.self.key where
  named := by decide
  unmarked := ne_marked (by decide)
  part := fun _ => partOf_eq_iff (.inr rfl)
  static := fun _ => rfl
  bound := fun _ => rfl
  made := fun _ ⟨_, _, _⟩ => rfl
  kept := by
    rintro s ⟨d, kids, contents⟩ hs
    cases s <;> first | rfl | exact absurd rfl hs

/-- A form of the directive sets its entry. -/
theorem exists_entry (h : LastCounts name make read) (hform : m.1 = name ∨ m.1 = ":" ++ name)
    (hm : ∃ s, Setting.ofMember m.1 m.2 = .ok s) :
    ∃ b, loadEntry m.1 m.2 = .ok (name, b) ∧ taken m = make b := by
  obtain ⟨key, value⟩ := m
  obtain ⟨s, hs⟩ := hm
  rcases hform with rfl | rfl
  · refine ⟨.literal (.ofJson value), ?_, Setting.taken_eq (h.static value)⟩
    unfold loadEntry
    rw [splitMark_unmarked h.unmarked]
  · obtain ⟨b, hb, rfl⟩ := Except.map_eq_ok.1 ((h.bound value).symm.trans hs)
    refine ⟨b, ?_, Setting.taken_eq hs⟩
    unfold loadEntry
    rw [splitMark_marked, hb]
    rfl

/-- Members that are no forms of the directive leave it as it is. -/
theorem run_keeps (h : LastCounts name make read)
    (hmembers : ∀ m ∈ members, ¬ (m.1 = name ∨ m.1 = ":" ++ name)) (n : Node) :
    read (run members n) = read n :=
  Setting.run_keeps (P := fun k => read k = read n) h.named
    (fun s k hs hk => (h.kept s k hs).trans hk) (fun m hm => mt (h.part m.1).1 (hmembers m hm)) rfl

/-- **The form that stands last** counts. -/
theorem read_eq (h : LastCounts name make read)
    (hmembers : ∀ m ∈ members, ∃ s, Setting.ofMember m.1 m.2 = .ok s) (hn : read n = none) :
    read (run members n) = lastForm name members := by
  unfold lastForm
  cases hlast : (bothForms name members).getLast? with
  | none =>
    have hempty : bothForms name members = [] := List.getLast?_eq_none_iff.1 hlast
    refine (h.run_keeps (fun m hm => ?_) n).trans hn
    simpa using List.filter_eq_nil_iff.1 hempty m hm
  | some m =>
    obtain ⟨before, behind, rfl, hm, hbehind⟩ := List.exists_of_getLast?_filter hlast
    have hform : m.1 = name ∨ m.1 = ":" ++ name := by simpa using hm
    have hload := hmembers m (List.mem_append_right _ List.mem_cons_self)
    obtain ⟨b, hb, htaken⟩ := h.exists_entry hform hload
    have hread : read (run (before ++ m :: behind) n) = some b := by
      calc read (run (before ++ m :: behind) n)
          = read (run behind ((taken m).apply (run before n))) := by rw [Setting.run_append]; rfl
        _ = read ((taken m).apply (run before n)) :=
          h.run_keeps (fun k hk => by simpa using hbehind k hk) _
        _ = some b := by rw [htaken, h.made]
    rw [hread]
    simp only [Option.bind_eq_bind, Option.bind_some, hb]
    rfl

end LastCounts

/-- **The bound form of `html`** counts: raw markup behind it gives way. -/
theorem html_eq_bound (hd : Members.Distinct members) {value : Json}
    (hvalue : (":html", value) ∈ members) {s : Setting}
    (hs : Setting.ofMember ":html" value = .ok s) (n : Node) :
    ∃ b, Binding.ofJson value = .ok b ∧ (run members n).self.html = some b := by
  have hbound : Setting.ofMember ":html" value = (Binding.ofJson value).map .html := rfl
  obtain ⟨b, hb, rfl⟩ := Except.map_eq_ok.1 (hbound.symm.trans hs)
  refine ⟨b, hb, ?_⟩
  obtain ⟨before, behind, rfl⟩ := List.append_of_mem hvalue
  have hbehind : ∀ k ∈ behind, partOf k.1 ≠ ":html" := by
    intro k hk hpart
    have hnames : (names before ++ ":html" :: names behind).Nodup := by
      simpa [Members.Distinct, names] using hd
    have hother : ":html" ∉ names behind := (List.nodup_cons.1 (List.nodup_append.1 hnames).2.1).1
    have hkey : k.1 = ":html" := eq_of_partOf hpart (by decide) (by decide)
    exact hother (hkey ▸ List.mem_map_of_mem hk)
  have hmade : ((taken (":html", value)).apply (run before n)).self.html = some b := by
    rw [Setting.taken_eq hs]
    cases run before n
    rfl
  have hkeep : ∀ (s : Setting) (n : Node), s.part ≠ ":html" → n.self.html = some b →
      (s.apply n).self.html = some b := by
    rintro s ⟨d, kids, contents⟩ hs hn
    cases s with
    | html b' => exact absurd rfl hs
    | rawHtml raw =>
      have hheld : d.html = some b := hn
      exact congrArg (Option.or · _) hheld
    | _ => exact hn
  have hrun : run (before ++ (":html", value) :: behind) n =
      run behind ((taken (":html", value)).apply (run before n)) := Setting.run_append _ _ _
  rw [hrun]
  exact Setting.run_keeps (P := fun n => n.self.html = some b) (by decide) hkeep hbehind hmade

theorem settled_of_load (hd : Members.Distinct members) (h : load (.object members) = .ok n) :
    Settled members n := by
  obtain ⟨c, -, hmembers, rfl⟩ := load_eq_ok.1 h
  refine ⟨fun value hvalue => ?_, LastCounts.loop.read_eq hmembers rfl,
    LastCounts.key.read_eq hmembers rfl⟩
  obtain ⟨s, hs⟩ := hmembers _ hvalue
  exact html_eq_bound hd hvalue hs _

/-! ### Any order -/

/-- The node without its loop and its key. -/
def unkeyed : Node → Node :=
  update fun d => { d with loop := none, key := none }

theorem unkeyed_apply (s : Setting) (n : Node) :
    unkeyed (s.apply (unkeyed n)) = unkeyed (s.apply n) := by
  obtain ⟨d, kids, contents⟩ := n
  cases s <;> rfl

theorem unkeyed_apply_of_part {s : Setting} (h : s.part = "for" ∨ s.part = "key") (n : Node) :
    unkeyed (s.apply n) = unkeyed n := by
  obtain ⟨d, kids, contents⟩ := n
  cases s <;> first | rfl | simp [Setting.part] at h

theorem unkeyed_taken (h : partOf m.1 = "for" ∨ partOf m.1 = "key") (n : Node) :
    unkeyed ((taken m).apply n) = unkeyed n := by
  rcases Setting.part_taken m with hm | hm
  · rw [hm, Setting.apply_nothing]
  · rw [← hm] at h
    exact unkeyed_apply_of_part h n

theorem eq_of_unkeyed (h : unkeyed n = unkeyed n') :
    n' = n.update fun d => { d with loop := n'.self.loop, key := n'.self.key } := by
  have hput : ∀ (k : Node) (l key : Option Binding),
      (unkeyed k).update (fun d => { d with loop := l, key := key }) =
        k.update fun d => { d with loop := l, key := key } := by
    rintro ⟨d, kids, contents⟩ l key
    rfl
  calc n' = n'.update fun d => { d with loop := n'.self.loop, key := n'.self.key } := by
        cases n'
        rfl
    _ = _ := by rw [← hput, ← h, hput]

/-- **Loops and keys apart**, members of different names may be taken up in any order. -/
theorem unkeyed_run (hd : Members.Distinct members) (hperm : members.Perm members') (n : Node) :
    unkeyed (run members n) = unkeyed (run members' n) := by
  -- one turn without looking at loop and key
  have hturns : ∀ l : List (String × Json),
      l.foldl (fun n m => unkeyed ((taken m).apply n)) (unkeyed n) = unkeyed (run l n) :=
    fun l => List.foldl_hom unkeyed fun k m => unkeyed_apply (taken m) k
  rw [← hturns, ← hturns]
  refine hperm.foldl_eq' (fun m hm k hk n => ?_) _
  by_cases hname : m.1 = k.1
  · have hget : some m.2 = some k.2 := by
      rw [← Members.get?_of_mem hd hm, ← Members.get?_of_mem hd hk, hname]
    have hsame : m = k := Prod.ext hname (Option.some.inj hget)
    rw [hsame]
  rw [unkeyed_apply, unkeyed_apply]
  by_cases hpart : partOf m.1 = partOf k.1
  · -- members of one part and of two names set a loop or a key
    have hkeyed : partOf m.1 = "for" ∨ partOf m.1 = "key" := by
      rcases partOf_cases m.1 with h | h | h
      · exact .inl h
      · exact .inr h
      rcases partOf_cases k.1 with h' | h' | h'
      · exact .inl (hpart.trans h')
      · exact .inr (hpart.trans h')
      · exact absurd (h.symm.trans (hpart.trans h')) hname
    have hkeyed' : partOf k.1 = "for" ∨ partOf k.1 = "key" := hpart ▸ hkeyed
    rw [unkeyed_taken hkeyed', unkeyed_taken hkeyed, unkeyed_taken hkeyed, unkeyed_taken hkeyed']
  · rw [Setting.taken_comm hpart]

/-- What a node is made of does not depend on the order either. -/
theorem loadComponent_perm (hd : Members.Distinct members) (hperm : members.Perm members') :
    loadComponent members = loadComponent members' := by
  have hd' : Members.Distinct members' := (hperm.map Prod.fst).nodup_iff.1 hd
  have hget : Members.get? members "component" = Members.get? members' "component" := by
    refine Option.ext fun value => ⟨fun h => ?_, fun h => ?_⟩
    · exact Members.get?_of_mem hd' (hperm.mem_iff.1 (Members.mem_of_get? h))
    · exact Members.get?_of_mem hd (hperm.mem_iff.2 (Members.mem_of_get? h))
  unfold loadComponent
  rw [hget]

/-- **A node object with its members in another order** loads to the same node, but for the loop and
the key; to the very same one if the forms of `for` and of `key` that stand last are the same ones.
The bound form of `html` counts in every order, of `for` and of `key` the form that stands last. -/
theorem load_reordered (hd : Members.Distinct members) (hperm : members.Perm members')
    (h : load (.object members) = .ok n) :
    (∃ n', load (.object members') = .ok n' ∧
      n' = n.update fun d => { d with loop := n'.self.loop, key := n'.self.key }) ∧
    (lastForm "for" members = lastForm "for" members' →
      lastForm "key" members = lastForm "key" members' →
        load (.object members') = .ok n ∧
          (ofJson (.object members) = .ok n → ofJson (.object members') = .ok n)) ∧
    Settled members n := by
  have hd' : Members.Distinct members' := (hperm.map Prod.fst).nodup_iff.1 hd
  obtain ⟨c, hc, hmembers, hrun⟩ := load_eq_ok.1 h
  have hc' : loadComponent members' = .ok c := loadComponent_perm hd hperm ▸ hc
  obtain ⟨n', hrun'⟩ : ∃ n', run members' (mk (.plain c) none []) = n' := ⟨_, rfl⟩
  have hload : load (.object members') = .ok n' :=
    load_eq_ok.2 ⟨c, hc', fun m hm => hmembers m (hperm.mem_iff.2 hm), hrun'⟩
  have hsame : n' = n.update fun d => { d with loop := n'.self.loop, key := n'.self.key } := by
    refine eq_of_unkeyed ?_
    rw [← hrun, ← hrun']
    exact unkeyed_run hd hperm _
  have hsettled := settled_of_load hd h
  have hsettled' := settled_of_load hd' hload
  refine ⟨⟨n', hload, hsame⟩, fun hloop hkey => ?_, hsettled⟩
  have heq : n' = n := by
    rw [hsettled'.loop, hsettled'.key, ← hloop, ← hkey, ← hsettled.loop, ← hsettled.key] at hsame
    rw [hsame]
    cases n
    rfl
  rw [heq] at hload
  refine ⟨hload, fun haccepted => ?_⟩
  exact ofJson_eq_ok.2 ⟨hload, (ofJson_eq_ok.1 haccepted).2⟩

/-- A line whose directives are given in both forms, the bound ones behind. -/
def boundLast : List (String × Json) :=
  [("component", .string "li"), ("namespace", .string "row"),
    ("html", .string "<hr>"), (":html", .string "row.markup"),
    ("for", .array [.bool true]), (":for", .string "row.items"),
    ("key", .string "line"), (":key", .string "row.id")]

/-- The line with the static forms behind. -/
def staticLast : List (String × Json) :=
  [("component", .string "li"), ("namespace", .string "row"),
    (":html", .string "row.markup"), ("html", .string "<hr>"),
    (":for", .string "row.items"), ("for", .array [.bool true]),
    (":key", .string "row.id"), ("key", .string "line")]

/-- What the line loads to, its loop and its key apart. -/
def lineNode (loop key : Binding) : Node :=
  .mk { Directives.plain (.named "li") with
      ns := some "row"
      html := some (.path ⟨"row", none, ["markup"]⟩)
      loop := some loop
      key := some key }
    none []

theorem boundLast_perm : boundLast.Perm staticLast := by
  refine .cons _ (.cons _ (.trans (.swap _ _ _) (.cons _ (.cons _ ?_))))
  exact .trans (.swap _ _ _) (.cons _ (.cons _ (.swap _ _ _)))

theorem boundLast_distinct : Members.Distinct boundLast := by
  unfold Members.Distinct
  decide

theorem load_boundLast : load (.object boundLast) =
    .ok (lineNode (.path ⟨"row", none, ["items"]⟩) (.path ⟨"row", none, ["id"]⟩)) :=
  rfl

theorem load_staticLast : load (.object staticLast) =
    .ok (lineNode (.literal (.array [.bool true])) (.literal (.string "line"))) :=
  rfl

/-- The two lines have the same markup. -/
theorem load_reordered_line : Members.Distinct boundLast ∧ boundLast.Perm staticLast ∧
    ∃ n n', load (.object boundLast) = .ok n ∧ load (.object staticLast) = .ok n' ∧
      n'.self.html = n.self.html := by
  refine ⟨boundLast_distinct, boundLast_perm, _, _, load_boundLast, load_staticLast, ?_⟩
  obtain ⟨⟨n', hload, hsame⟩, -⟩ :=
    load_reordered boundLast_distinct boundLast_perm load_boundLast
  cases load_staticLast.symm.trans hload
  rw [hsame]
  rfl

/-- **The order of the two forms** of `for` and of `key` matters. -/
theorem load_order_matters : ¬ ∀ (members members' : List (String × Json)) (n : Node),
    Members.Distinct members → members.Perm members' → load (.object members) = .ok n →
      load (.object members') = .ok n := by
  intro h
  have hsame := h _ _ _ boundLast_distinct boundLast_perm load_boundLast
  rw [load_staticLast] at hsame
  have hkeys : some (Binding.literal (.string "line")) = some (.path ⟨"row", none, ["id"]⟩) :=
    congrArg (fun n => n.self.key) (Except.ok.inj hsame)
  cases hkeys

end Node

end Trellis.Schema
