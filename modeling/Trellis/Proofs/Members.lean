import Trellis.Members
import Mathlib.Data.List.Nodup

/-!
# Laws of ordered members

What assignments come to, one after the other: every name stands where it was given first, with the
value that it was given last.

* `Members.assign_comm`, `Members.assign_extend`: in which order members are assigned.
* `Members.get?_extend`, `Members.names_extend`: the value and the place of a name.
* `Members.extend_extend`, `Members.extend_of_known`: extending twice.
* `FirstUse`: which of two items of a list occurs first; `eraseDups_firstUse`.
-/

namespace Trellis

/-! ### First use -/

/-- The one item occurs in the list before the other first does. -/
def FirstUse (l : List String) (a b : String) : Prop :=
  l.idxOf a < l.idxOf b

theorem FirstUse.cons {c a b : String} {l : List String} (ha : c ≠ a) (hb : c ≠ b)
    (h : FirstUse l a b) : FirstUse (c :: l) a b := by
  unfold FirstUse
  rw [List.idxOf_cons_ne l ha, List.idxOf_cons_ne l hb]
  exact Nat.succ_lt_succ h

theorem FirstUse.head {c b : String} (l : List String) (hb : c ≠ b) : FirstUse (c :: l) c b := by
  unfold FirstUse
  rw [List.idxOf_cons_self, List.idxOf_cons_ne l hb]
  exact Nat.succ_pos _

/-- What is kept of a list, without what is repeated, is in the order of the list. -/
theorem eraseDups_firstUse : ∀ (l : List String) (p : String → Bool),
    (l.filter p).eraseDups.Pairwise (FirstUse l)
  | [], _ => .nil
  | c :: l, p => by
    -- if the first item is kept, no other one is kept that equals it, and else none was to be kept
    have hrest : ∀ q : String → Bool, q c = false → (l.filter q).eraseDups.Pairwise
        (FirstUse (c :: l)) ∧ ∀ b ∈ (l.filter q).eraseDups, c ≠ b := by
      intro q hq
      have hne : ∀ b ∈ (l.filter q).eraseDups, c ≠ b := by
        rintro b hb rfl
        rw [List.mem_eraseDups, List.mem_filter, hq] at hb
        exact Bool.false_ne_true hb.2
      exact ⟨(eraseDups_firstUse l q).imp_of_mem fun ha hb h => h.cons (hne _ ha) (hne _ hb), hne⟩
    by_cases hc : p c
    · rw [List.filter_cons_of_pos hc, List.eraseDups_cons, List.filter_filter]
      obtain ⟨hlater, hne⟩ := hrest (fun b => (!b == c) && p b) (by simp)
      exact .cons (fun b hb => .head l (hne b hb)) hlater
    · rw [List.filter_cons_of_neg hc]
      exact (hrest p (Bool.eq_false_iff.2 hc)).1

/-- A list in which nothing is repeated stays as it is. -/
theorem eraseDups_of_nodup : ∀ {l : List String}, l.Nodup → l.eraseDups = l
  | [], _ => rfl
  | c :: l, h => by
    obtain ⟨hc, hl⟩ := List.nodup_cons.1 h
    have hfilter : l.filter (fun b => !b == c) = l :=
      List.filter_eq_self.2 fun b hb => by
        rw [Bool.not_eq_true', beq_eq_false_iff_ne]
        exact fun heq => hc (heq ▸ hb)
    rw [List.eraseDups_cons, hfilter, eraseDups_of_nodup hl]

namespace Members

variable {α : Type} {m n : Members α} {name other : String} {a b : α}

/-! ### Names and values -/

theorem get?_of_mem : ∀ {m : Members α}, m.Distinct → (name, a) ∈ m → m.get? name = some a
  | (n, b) :: m, hd, h => by
    obtain ⟨hn, hd⟩ := List.nodup_cons.1 hd
    rw [get?_cons]
    rcases List.mem_cons.1 h with heq | h
    · cases heq
      rw [if_pos rfl]
    · have hname : name ∈ Members.names m := List.mem_map_of_mem h
      have hne : name ≠ n := fun heq => hn (heq ▸ hname)
      rw [if_neg hne, get?_of_mem hd h]

theorem isSome_get? {m : Members α} : (m.get? name).isSome ↔ name ∈ m.names := by
  induction m with
  | nil => exact ⟨nofun, nofun⟩
  | cons e m ih =>
    obtain ⟨n, b⟩ := e
    have hnames : Members.names ((n, b) :: m) = n :: Members.names m := rfl
    rw [get?_cons, hnames, List.mem_cons, ← ih]
    by_cases h : name = n
    · rw [if_pos h]
      exact iff_of_true rfl (.inl h)
    · rw [if_neg h, or_iff_right h]

theorem get?_eq_none : m.get? name = none ↔ name ∉ m.names := by
  rw [← isSome_get?, Option.not_isSome_iff_eq_none]

/-- A name is looked up in the one list first and then in the other. -/
theorem get?_append (m n : Members α) (name : String) :
    Members.get? (m ++ n) name = (m.get? name).or (n.get? name) :=
  List.lookup_append

/-- If no name occurs twice it makes no difference from which end one is looked up. -/
theorem Distinct.get?_reverse (h : m.Distinct) (name : String) :
    Members.get? m.reverse name = m.get? name := by
  have hreverse : Members.Distinct m.reverse := by
    unfold Distinct names at h ⊢
    rw [List.map_reverse]
    exact List.nodup_reverse.2 h
  cases hm : m.get? name with
  | none =>
    rw [get?_eq_none] at hm ⊢
    unfold names
    rwa [List.map_reverse, List.mem_reverse]
  | some a => exact get?_of_mem hreverse (List.mem_reverse.2 (mem_of_get? hm))

/-! ### One assignment after another -/

/-- A member that is assigned twice is what it was assigned last. -/
theorem assign_assign (m : Members α) (name : String) (a b : α) :
    (m.assign name a).assign name b = m.assign name b := by
  induction m with
  | nil => simp [assign]
  | cons e m ih =>
    obtain ⟨k, c⟩ := e
    by_cases hk : k = name
    · simp [assign_cons, hk]
    · simp [assign_cons, hk, ih]

/-- Members of different names are assigned in any order, if the one has a place already. -/
theorem assign_comm (h : name ∈ m.names) (hne : other ≠ name) :
    (m.assign other b).assign name a = (m.assign name a).assign other b := by
  induction m with
  | nil => cases h
  | cons e m ih =>
    obtain ⟨k, c⟩ := e
    by_cases hk : k = name
    · subst hk
      rw [assign_cons k c m k a, if_pos rfl, assign_cons, assign_cons, if_neg (Ne.symm hne),
        if_neg (Ne.symm hne), assign_cons, if_pos rfl]
    · have hm : name ∈ Members.names m := by
        rcases List.mem_cons.1 h with rfl | h
        · exact absurd rfl hk
        · exact h
      rw [assign_cons k c m name a, if_neg hk]
      by_cases hko : k = other
      · subst hko
        rw [assign_cons, if_pos rfl, assign_cons, if_neg hk, assign_cons, if_pos rfl]
      · rw [assign_cons, if_neg hko, assign_cons, if_neg hk, assign_cons, if_neg hko, ih hm]

/-- Assigning to a member what it is changes nothing. -/
theorem assign_of_get? (h : m.get? name = some a) : m.assign name a = m := by
  induction m with
  | nil => cases h
  | cons e m ih =>
    obtain ⟨k, c⟩ := e
    rw [get?_cons] at h
    rw [assign_cons]
    by_cases hk : name = k
    · rw [if_pos hk] at h
      rw [if_pos hk.symm, Option.some.inj h]
    · rw [if_neg hk] at h
      rw [if_neg (Ne.symm hk), ih h]

theorem mem_names_assign (h : name ∈ m.names) (other : String) (a : α) :
    name ∈ (m.assign other a).names := by
  rw [names_assign]
  split
  · exact h
  · exact List.mem_append_left _ h

theorem assign_of_notMem : ∀ {m : Members α}, name ∉ m.names → m.assign name a = m ++ [(name, a)]
  | [], _ => rfl
  | (n, b) :: m, h => by
    obtain ⟨hn, h⟩ := not_or.1 (mt List.mem_cons.2 h)
    rw [assign_cons, if_neg (Ne.symm hn), assign_of_notMem h, List.cons_append]

/-- A name stays known when more is assigned. -/
theorem isSome_get?_assign (key : String) (a : α) (h : name = key ∨ (m.get? name).isSome) :
    ((m.assign key a).get? name).isSome := by
  by_cases hname : name = key
  · subst hname
    rw [get?_assign_self]
    rfl
  · rw [get?_assign_of_ne a hname]
    exact h.resolve_left hname

/-! ### Lists of assignments -/

theorem extend_cons (m : Members α) (key : String) (a : α) (n : Members α) :
    m.extend ((key, a) :: n) = (m.assign key a).extend n := rfl

theorem extend_append (m n k : Members α) : m.extend (n ++ k) = (m.extend n).extend k :=
  List.foldl_append

theorem mem_names_extend (h : name ∈ m.names) (n : Members α) : name ∈ (m.extend n).names :=
  extend_induct (P := fun m => name ∈ Members.names m) h fun _ hacc e _ =>
    mem_names_assign hacc e.1 e.2

/-- **The value** of a name is what it was assigned last, if anything. -/
theorem get?_extend (m : Members α) (name : String) : ∀ n : Members α,
    (m.extend n).get? name = (Members.get? n.reverse name).or (m.get? name) := by
  intro n
  induction n generalizing m with
  | nil => rfl
  | cons e n ih =>
    obtain ⟨key, a⟩ := e
    rw [extend_cons, ih, List.reverse_cons, get?_append, Option.or_assoc, get?_cons]
    by_cases hname : name = key
    · rw [hname, if_pos rfl, get?_assign_self, Option.some_or]
    · rw [if_neg hname, get?_nil, Option.none_or, get?_assign_of_ne a hname]

/-- The value of a name after a list of assignments in which no name occurs twice. -/
theorem get?_extend_of_distinct (h : n.Distinct) (m : Members α) (name : String) :
    (m.extend n).get? name = (n.get? name).or (m.get? name) := by
  rw [get?_extend, h.get?_reverse]

/-- Every name in a list of assignments is known in the end. -/
theorem isSome_get?_extend (h : (∃ a, (name, a) ∈ n) ∨ (m.get? name).isSome) :
    ((m.extend n).get? name).isSome := by
  rw [get?_extend, Option.isSome_or, Bool.or_eq_true, isSome_get?]
  refine h.imp_left fun ⟨a, ha⟩ => ?_
  unfold names
  rw [List.map_reverse, List.mem_reverse]
  exact List.mem_map_of_mem ha

theorem extend_of_distinct : ∀ {n m : Members α}, Members.Distinct (m ++ n) → m.extend n = m ++ n
  | [], m, _ => (List.append_nil m).symm
  | (key, b) :: n, m, h => by
    have hkey : key ∉ m.names := by
      intro hm
      have h : (Members.names m ++ key :: Members.names n).Nodup := by
        simpa [Members.Distinct, Members.names] using h
      exact (List.nodup_append.1 h).2.2 key hm key List.mem_cons_self rfl
    rw [extend_cons, assign_of_notMem hkey, extend_of_distinct, List.append_assoc,
      List.singleton_append]
    rwa [List.append_assoc, List.singleton_append]

/-- Members of different names are what assigning them one after the other leaves. -/
theorem ofList_of_distinct {m : Members α} (h : m.Distinct) : ofList m = m :=
  extend_of_distinct h

/-- **The names** after assignments: each where it was given first. -/
theorem names_extend (n : Members α) : ∀ {m : Members α}, m.Distinct →
    (m.extend n).names = (m.names ++ n.names).eraseDups := by
  induction n with
  | nil =>
    intro m hm
    change m.names = (m.names ++ []).eraseDups
    rw [List.append_nil, eraseDups_of_nodup hm]
  | cons e n ih =>
    intro m hm
    obtain ⟨key, a⟩ := e
    have hnames : Members.names ((key, a) :: n) = key :: Members.names n := rfl
    rw [extend_cons, ih (hm.assign key a), names_assign, hnames]
    split
    · next hkey =>
      -- a name that is known does not count again
      rw [List.eraseDups_append, List.eraseDups_append, List.cons_removeAll, if_neg]
      simpa using hkey
    · rw [List.append_assoc, List.singleton_append]

/-- Assigning a member that has a place already, before others or after them. -/
theorem assign_extend (n : Members α) : ∀ {m : Members α}, name ∈ m.names →
    (m.extend n).assign name a = ((m.assign name a).extend n).assign name a := by
  induction n with
  | nil => exact fun _ => (assign_assign _ name a a).symm
  | cons e n ih =>
    intro m h
    obtain ⟨k, c⟩ := e
    rw [extend_cons, extend_cons, ih (mem_names_assign h k c)]
    by_cases hk : k = name
    · subst hk
      rw [assign_assign,
        ih (m := (m.assign k a).assign k c) (mem_names_assign (mem_names_assign h k a) k c),
        assign_assign, assign_assign]
    · rw [ih (m := (m.assign name a).assign k c) (mem_names_assign (mem_names_assign h name a) k c),
        assign_comm h hk, assign_comm (mem_names_assign h name a) hk, assign_assign]

/-! ### Extending twice -/

/-- Assignments that tell what is known already change nothing. -/
theorem extend_of_known (h : ∀ e ∈ n, m.get? e.1 = some e.2) : m.extend n = m :=
  extend_induct (P := fun acc => acc = m) rfl fun acc hacc e he => by
    rw [hacc, assign_of_get? (h e he)]

/-- Extending by members to which one more was assigned. -/
theorem extend_assign : ∀ {n m : Members α}, n.Distinct →
    m.extend (n.assign name a) = (m.extend n).assign name a
  | [], _, _ => rfl
  | (key, c) :: n, m, h => by
    obtain ⟨hkey, hn⟩ := List.nodup_cons.1 h
    rw [assign_cons]
    split
    · next heq =>
      subst heq
      -- the member has its place before the others are assigned, none of which changes it
      have hplace : key ∈ (m.assign key c).names := isSome_get?.1 (by rw [get?_assign_self]; rfl)
      have hvalue : ((m.assign key a).extend n).get? key = some a := by
        rw [get?_extend_of_distinct hn, get?_eq_none.2 hkey, Option.none_or, get?_assign_self]
      rw [extend_cons, extend_cons, assign_extend n hplace, assign_assign, assign_of_get? hvalue]
    · rw [extend_cons, extend_cons, extend_assign hn]

/-- **Extending** by members and then by others is extending by the members extended by the
others. -/
theorem extend_extend (k : Members α) : ∀ {n : Members α}, n.Distinct → ∀ m : Members α,
    (m.extend n).extend k = m.extend (n.extend k) := by
  induction k with
  | nil => exact fun _ _ => rfl
  | cons e k ih =>
    intro n hn m
    obtain ⟨key, a⟩ := e
    rw [extend_cons, extend_cons, ← extend_assign hn, ih (hn.assign key a)]

end Members

end Trellis
