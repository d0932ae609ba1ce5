import Trellis.Scope.Way
import Mathlib.Data.List.Basic

/-!
# Addresses

An address is a way written out, and what a step adds to it can be told from what follows, up to
the text of names. Positions end at a colon and hold digits and points, the number of a turn stands
in brackets; only where the name of a slot ends cannot be told, since a name may hold anything.

* `Way.chars`: an address as characters, step by step.
* `Step.head_space`, `append_tail_inj`, `positionChars_inj`: what a segment gives away from its
  beginning on.
-/

namespace Trellis

/-- What follows in an address: nothing, or further steps. -/
def Tail (cs : List Char) : Prop :=
  cs = [] ∨ ∃ rest, cs = '/' :: rest

/-- Texts before delimiters that are in neither of them. -/
theorem append_ends_inj {α : Type} {c d : α} : ∀ {a b r s : List α}, c ∉ a → c ∉ b → d ∉ a → d ∉ b →
    a ++ c :: r = b ++ d :: s → a = b ∧ c :: r = d :: s
  | [], [], _, _, _, _, _, _, h => ⟨rfl, h⟩
  | [], x :: b, _, _, _, hc, _, _, h => by
    rw [List.nil_append, List.cons_append, List.cons.injEq] at h
    exact absurd (h.1 ▸ List.mem_cons_self) hc
  | x :: a, [], _, _, _, _, hd, _, h => by
    rw [List.nil_append, List.cons_append, List.cons.injEq] at h
    exact absurd (h.1 ▸ List.mem_cons_self) hd
  | x :: a, y :: b, r, s, hc, hc', hd, hd', h => by
    rw [List.cons_append, List.cons_append, List.cons.injEq] at h
    rw [List.mem_cons, not_or] at hc hc' hd hd'
    obtain ⟨hab, hrest⟩ := append_ends_inj hc.2 hc'.2 hd.2 hd'.2 h.2
    exact ⟨by rw [h.1, hab], hrest⟩

/-- Texts before the same delimiter. -/
theorem append_delimiter_inj {α : Type} {c : α} {a a' b b' : List α} (ha : c ∉ a) (ha' : c ∉ a')
    (h : a ++ c :: b = a' ++ c :: b') : a = a' ∧ b = b' := by
  obtain ⟨heq, hrest⟩ := append_ends_inj ha ha' ha ha' h
  exact ⟨heq, (List.cons.inj hrest).2⟩

/-- Texts without a slash end where the next step begins. -/
theorem append_tail_inj {a a' b b' : List Char} (ha : '/' ∉ a) (ha' : '/' ∉ a') (hb : Tail b)
    (hb' : Tail b') (h : a ++ b = a' ++ b') : a = a' := by
  rcases hb with rfl | ⟨b, rfl⟩ <;> rcases hb' with rfl | ⟨b', rfl⟩
  · simpa using h
  · rw [List.append_nil] at h
    rw [h] at ha
    simp at ha
  · rw [List.append_nil] at h
    rw [← h] at ha'
    simp at ha'
  · exact (append_delimiter_inj ha ha' h).1

/-! ### Numbers and positions -/

theorem toDigits_inj {i j : Nat} (h : Nat.toDigits 10 i = Nat.toDigits 10 j) : i = j := by
  rw [← Nat.ofDigitChars_ten_toDigits (n := i), h, Nat.ofDigitChars_ten_toDigits]

theorem notMem_toDigits {c : Char} (hc : c.isDigit = false) (i : Nat) : c ∉ Nat.toDigits 10 i := by
  intro hm
  rw [Nat.isDigit_of_mem_toDigits (by decide) (by decide) hm] at hc
  cases hc

/-- Positions as characters. -/
def positionChars (ps : List Nat) : List Char :=
  ['.'].intercalate (ps.map (Nat.toDigits 10))

theorem toList_positions (ps : List Nat) :
    (".".intercalate (ps.map toString)).toList = positionChars ps := by
  rw [String.toList_intercalate, List.map_map]
  unfold positionChars
  congr 1
  refine List.map_congr_left fun i _ => ?_
  exact Nat.toList_repr

theorem positionChars_inj {ps qs : List Nat} (hp : ps ≠ []) (hq : qs ≠ [])
    (h : positionChars ps = positionChars qs) : ps = qs := by
  -- no number holds a point, so the points tell where the numbers end
  have hsplit : ∀ {l : List Nat}, l ≠ [] →
      (positionChars l).splitOn '.' = l.map (Nat.toDigits 10) := by
    intro l hl
    refine List.splitOn_intercalate '.' (fun cs hcs => ?_) (by simpa using hl)
    obtain ⟨i, -, rfl⟩ := List.mem_map.1 hcs
    exact notMem_toDigits rfl i
  have hmap := hsplit hp
  rw [h, hsplit hq] at hmap
  exact (List.map_injective_iff.2 fun _ _ => toDigits_inj) hmap.symm

/-- Positions hold digits and points. -/
theorem mem_positionChars {c : Char} {ps : List Nat} (h : c ∈ positionChars ps) :
    c.isDigit = true ∨ c = '.' := by
  induction ps with
  | nil => cases h
  | cons i ps ih =>
    cases ps with
    | nil =>
      simp only [positionChars, List.map_cons, List.map_nil, List.intercalate_singleton] at h
      exact .inl (Nat.isDigit_of_mem_toDigits (by decide) (by decide) h)
    | cons j ps =>
      unfold positionChars at h ih
      rw [List.map_cons, List.map_cons, List.intercalate_cons_cons, List.mem_append,
        List.mem_append] at h
      rcases h with (h | h) | h
      · exact .inl (Nat.isDigit_of_mem_toDigits (by decide) (by decide) h)
      · exact .inr (List.mem_singleton.1 h)
      · exact ih h

/-! ### Segments -/

namespace Step

theorem toList_space (ps : List Nat) (ns : String) :
    (space ps ns).segment.toList = positionChars ps ++ ':' :: ns.toList := by
  simp only [segment, String.toList_append, toList_positions]
  simp

theorem toList_turn (i : Nat) (ns : String) :
    (turn i ns).segment.toList = '[' :: (Nat.toDigits 10 i ++ [']']) := by
  simp only [segment, String.toList_append]
  simp

theorem toList_slot (ns name : String) :
    (slot ns name).segment.toList = '#' :: (ns.toList ++ '/' :: name.toList) := by
  simp only [segment, String.toList_append]
  simp

/-- The first character of a segment tells the kinds of steps apart. -/
theorem head_space {ps : List Nat} {ns : String} {c : Char} {rest a : List Char}
    (h : (space ps ns).segment.toList ++ a = c :: rest) : c ≠ '[' ∧ c ≠ '#' := by
  rw [toList_space] at h
  cases hp : positionChars ps with
  | nil =>
    rw [hp] at h
    cases h
    decide
  | cons d ds =>
    rw [hp] at h
    cases h
    have hmem : c ∈ positionChars ps := by
      rw [hp]
      exact List.mem_cons_self
    have hd := mem_positionChars hmem
    constructor <;> rintro rfl <;> revert hd <;> decide

end Step

/-! ### Ways -/

namespace Way

/-- An address as characters. -/
def chars (w : Way) : List Char :=
  w.flatMap fun step => '/' :: step.segment.toList

theorem toList_address (w : Way) : w.address.toList = w.chars := by
  have hfold : ∀ (w : Way) (path : String),
      (w.foldl (fun path step => path ++ "/" ++ step.segment) path).toList =
        path.toList ++ chars w := by
    intro w
    induction w with
    | nil => intro path; simp [chars]
    | cons step w ih =>
      intro path
      rw [List.foldl_cons, ih]
      simp [chars]
  rw [address, hfold]
  rfl

theorem address_append (w : Way) (step : Step) :
    address (w ++ [step]) = w.address ++ "/" ++ step.segment := by
  unfold address
  rw [List.foldl_append]
  rfl

theorem address_inj_iff {p q : Way} : p.address = q.address ↔ p.chars = q.chars := by
  rw [← String.toList_inj, toList_address, toList_address]

@[simp] theorem chars_cons (step : Step) (w : Way) :
    chars (step :: w) = '/' :: (step.segment.toList ++ chars w) := rfl

theorem chars_append (v w : Way) : chars (v ++ w) = chars v ++ chars w :=
  List.flatMap_append

theorem tail_chars (w : Way) : Tail w.chars := by
  cases w with
  | nil => exact .inl rfl
  | cons step w => exact .inr ⟨_, rfl⟩

end Way

end Trellis
