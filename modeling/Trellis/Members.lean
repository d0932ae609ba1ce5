/-!
# Ordered members

Named members in the order in which their names were first given. Objects, class lists, styles,
attributes and frame addresses are all of this kind.

* `Members.assign`: a known name keeps its place and takes the new value, a new one goes last.
* `Members.extend`: assigns the members of another list in turn.
* `Members.Distinct`: no name occurs twice. `assign` keeps it.
* `Members.extend_induct`: what every single assignment keeps.
-/

namespace Trellis

universe u v

/-- Named values in the order of first mention. -/
abbrev Members (α : Type u) : Type u := List (String × α)

namespace Members

variable {α : Type u} {β : Type v}

/-- The value of the first member called `name`. -/
def get? (m : Members α) (name : String) : Option α :=
  List.lookup name m

/-- Whether some member is called `name`. -/
def has (m : Members α) (name : String) : Bool :=
  (m.get? name).isSome

/-- The names, in order. -/
def names (m : Members α) : List String :=
  m.map Prod.fst

/-- Gives `name` the value `a`: in its place if it is known, at the end otherwise. -/
def assign : Members α → String → α → Members α
  | [], name, a => [(name, a)]
  | (n, b) :: rest, name, a =>
    if n = name then (n, a) :: rest else (n, b) :: assign rest name a

/-- Assigns every member of `n` to `m`, in order. -/
def extend (m n : Members α) : Members α :=
  n.foldl (fun acc e => acc.assign e.1 e.2) m

/-- The members a list of assignments leaves. -/
def ofList (entries : List (String × α)) : Members α :=
  extend [] entries

/-- Leaves out every member called `name`. -/
def erase (m : Members α) (name : String) : Members α :=
  m.filter (fun e => e.1 ≠ name)

/-- The same names with other values. -/
def mapValues (f : α → β) (m : Members α) : Members β :=
  m.map (fun e => (e.1, f e.2))

/-- No name occurs twice. -/
def Distinct (m : Members α) : Prop :=
  m.names.Nodup

@[simp] theorem get?_nil (name : String) : Members.get? ([] : Members α) name = none := rfl

theorem get?_cons (n : String) (a : α) (m : Members α) (name : String) :
    Members.get? ((n, a) :: m) name = if name = n then some a else Members.get? m name := by
  by_cases h : name = n
  · rw [if_pos h, get?, h, List.lookup_cons_self]
  · rw [if_neg h, get?, List.lookup_cons, beq_eq_false_iff_ne.mpr h]
    rfl

theorem mem_of_get? {m : Members α} {name : String} {a : α} (h : m.get? name = some a) :
    (name, a) ∈ m := by
  obtain ⟨m₁, m₂, rfl, -⟩ := List.lookup_eq_some_iff.1 h
  exact List.mem_append_right _ List.mem_cons_self

theorem mem_names_of_get? {m : Members α} {name : String} {a : α} (h : m.get? name = some a) :
    name ∈ m.names :=
  List.mem_map_of_mem (mem_of_get? h)

theorem assign_cons (n : String) (b : α) (m : Members α) (name : String) (a : α) :
    Members.assign ((n, b) :: m) name a =
      if n = name then (n, a) :: m else (n, b) :: Members.assign m name a := rfl

/-- What holds of members, and stays when any of the others is assigned to them, holds when all of
those are. -/
theorem extend_induct {P : Members α → Prop} {m n : Members α} (hm : P m)
    (h : ∀ acc, P acc → ∀ e ∈ n, P (acc.assign e.1 e.2)) : P (m.extend n) :=
  List.foldlRecOn n _ hm h

theorem forall_mem_assign {P : α → Prop} {m : Members α} (hm : ∀ e ∈ m, P e.2) (name : String)
    {a : α} (ha : P a) : ∀ e ∈ m.assign name a, P e.2 := by
  induction m with
  | nil => exact List.forall_mem_singleton.2 ha
  | cons e m ih =>
    rw [List.forall_mem_cons] at hm
    rw [assign_cons]
    split
    · exact List.forall_mem_cons.2 ⟨ha, hm.2⟩
    · exact List.forall_mem_cons.2 ⟨hm.1, ih hm.2⟩

theorem forall_mem_ofList {P : α → Prop} {entries : List (String × α)}
    (h : ∀ e ∈ entries, P e.2) : ∀ e ∈ ofList entries, P e.2 :=
  extend_induct (P := fun m => ∀ e ∈ m, P e.2) (List.forall_mem_nil _)
    fun _ hacc e he => forall_mem_assign hacc e.1 (h e he)

/-- An assigned member reads back. -/
@[simp] theorem get?_assign_self (m : Members α) (name : String) (a : α) :
    (m.assign name a).get? name = some a := by
  induction m with
  | nil => simp [assign, get?_cons]
  | cons e m ih =>
    obtain ⟨n, b⟩ := e
    by_cases h : n = name <;> simp_all [assign, get?_cons, eq_comm]

/-- The other members are as they were. -/
theorem get?_assign_of_ne {m : Members α} {name other : String} (a : α) (h : other ≠ name) :
    (m.assign name a).get? other = m.get? other := by
  induction m with
  | nil => simp [assign, get?_cons, h]
  | cons e m ih =>
    obtain ⟨n, b⟩ := e
    by_cases hn : n = name
    · subst hn; simp [assign, get?_cons, h]
    · simp [assign, get?_cons, hn, ih]

/-- A known name keeps its place, a new one goes last. -/
theorem names_assign (m : Members α) (name : String) (a : α) :
    (m.assign name a).names = if name ∈ m.names then m.names else m.names ++ [name] := by
  induction m with
  | nil => simp [assign, names]
  | cons e m ih =>
    obtain ⟨n, b⟩ := e
    by_cases hn : n = name
    · subst hn; simp [assign, names]
    · have hn' : ¬ name = n := fun h => hn h.symm
      by_cases hm : name ∈ Members.names m
      · rw [if_pos hm] at ih
        simp only [names] at ih hm ⊢
        simp [assign, hn, hn', hm, ih]
      · rw [if_neg hm] at ih
        simp only [names] at ih hm ⊢
        simp [assign, hn, hn', hm, ih]

/-- Assignment keeps names distinct. -/
theorem Distinct.assign {m : Members α} (h : m.Distinct) (name : String) (a : α) :
    (m.assign name a).Distinct := by
  unfold Distinct at *
  rw [names_assign]
  split
  · exact h
  · next hn => simp [List.nodup_append, h]; exact fun b hb hbn => hn (hbn ▸ hb)

theorem distinct_ofList (entries : List (String × α)) : (ofList entries).Distinct :=
  extend_induct List.nodup_nil fun _ hacc e _ => hacc.assign e.1 e.2

end Members

end Trellis
