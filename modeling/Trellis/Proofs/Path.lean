import Trellis.Path
import Mathlib.Data.List.Basic
import Mathlib.Data.List.TakeWhile

/-!
# The grammar of paths

A path is a namespace, perhaps a slot behind `#`, and keys, each behind a point. Reading accepts the
texts that are spelled so and no others, blanks around them apart, and since no text is spelled in
two ways it gives the parts that were joined.

* `Path.IsName`, `Path.IsKey`, `Path.Grammatical`, `Path.joined`: the grammar.
* `Path.takeName?_eq_some`, `Path.takeKeys?_eq_some`: what is read from the front of a text.
* `Path.ofChars?_eq_some`: a text without blanks around it; `Path.joined_inj`: the parts are unique.
* `Path.parse_grammar`: any text.
-/

namespace Trellis

/-! ### Trimming -/

namespace Text

theorem trimStart_eq_self {cs : List Char} (h : ∀ c ∈ cs.head?, isBlank c = false) :
    trimStart cs = cs := by
  cases cs with
  | nil => rfl
  | cons c cs =>
    have hc : isBlank c = false := h c rfl
    unfold trimStart
    rw [List.dropWhile_cons, hc]
    rfl

/-- A text that neither begins nor ends with a blank is as it was trimmed. -/
theorem trim_eq_self {cs : List Char} (hfirst : ∀ c ∈ cs.head?, isBlank c = false)
    (hlast : ∀ c ∈ cs.getLast?, isBlank c = false) : trim cs = cs := by
  have hreverse : trimStart cs.reverse = cs.reverse := by
    refine trimStart_eq_self fun c hc => hlast c ?_
    rwa [List.head?_reverse] at hc
  unfold trim trimEnd
  rw [trimStart_eq_self hfirst]
  exact (congrArg List.reverse hreverse).trans (List.reverse_reverse cs)

/-- A trimmed text does not end with a blank. -/
theorem getLast?_trim {cs : List Char} : ∀ c ∈ (trim cs).getLast?, isBlank c = false := by
  intro c hc
  unfold trim trimEnd at hc
  rw [List.getLast?_reverse] at hc
  have hnot := List.head?_dropWhile_not isBlank (trimStart cs).reverse
  rw [Option.mem_def.1 hc] at hnot
  exact hnot

/-- The characters that are blank. -/
def blanks : List Nat :=
  [9, 10, 11, 12, 13, 0x20, 0x85, 0xA0, 0x1680, 0x2000, 0x2001, 0x2002, 0x2003, 0x2004, 0x2005,
    0x2006, 0x2007, 0x2008, 0x2009, 0x200A, 0x2028, 0x2029, 0x202F, 0x205F, 0x3000]

theorem mem_blanks {c : Char} (h : isBlank c = true) : c.toNat ∈ blanks := by
  simp only [isBlank, Bool.or_eq_true, Bool.and_eq_true, decide_eq_true_eq, beq_iff_eq] at h
  simp only [blanks, List.mem_cons, List.not_mem_nil, or_false]
  omega

end Text

namespace Path

/-! ### The grammar -/

/-- A name begins with a letter of ASCII, `_` or `$`, and goes on with characters of words, `$` and
`-`. -/
def IsName (cs : List Char) : Prop :=
  ∃ c rest, cs = c :: rest ∧ isNameStart c = true ∧ ∀ d ∈ rest, isNamePart d = true

/-- A key is not empty and holds no point. -/
def IsKey (cs : List Char) : Prop :=
  cs ≠ [] ∧ '.' ∉ cs

/-- The parts of a path are names and keys. -/
structure Grammatical (p : Path) : Prop where
  ns : IsName p.ns.toList
  slot : ∀ slot ∈ p.slot, IsName slot.toList
  keys : ∀ key ∈ p.keys, IsKey key.toList

/-- A slot behind its mark, if there is one. -/
def joinedSlot : Option (List Char) → List Char
  | none => []
  | some slot => '#' :: slot

/-- Keys, each behind a point. -/
def joinedKeys (keys : List (List Char)) : List Char :=
  keys.flatMap fun key => '.' :: key

/-- The parts of a path one after the other. -/
def joined (p : Path) : List Char :=
  p.ns.toList ++ joinedSlot (p.slot.map String.toList) ++ joinedKeys (p.keys.map String.toList)

/-- The part that stands last. -/
def lastPart (p : Path) : String :=
  (p.keys.getLast?).getD (p.slot.getD p.ns)

/-! ### Names -/

theorem isNamePart_of_isNameStart {c : Char} (h : isNameStart c = true) : isNamePart c = true := by
  simp only [isNameStart, Text.isAsciiLetter, Bool.or_eq_true, Bool.and_eq_true,
    decide_eq_true_eq] at h
  simp only [isNamePart, Text.isWordChar, Text.isAsciiAlnum, Bool.or_eq_true, decide_eq_true_eq]
  rcases h with (h | h) | h
  · have hlt : c.toNat < 128 := by omega
    rw [if_pos hlt]
    simp only [Bool.or_eq_true, Bool.and_eq_true, decide_eq_true_eq]
    omega
  · subst h
    exact .inl (.inl rfl)
  · exact .inl (.inr h)

theorem not_isBlank_of_isNamePart {c : Char} (h : isNamePart c = true) :
    Text.isBlank c = false := by
  -- no blank character may stand in a name
  have hnone : ∀ n ∈ Text.blanks, isNamePart (Char.ofNat n) = false := by decide +kernel
  cases hblank : Text.isBlank c with
  | false => rfl
  | true =>
    have hno := hnone c.toNat (Text.mem_blanks hblank)
    rw [Char.ofNat_toNat, h] at hno
    cases hno

theorem IsName.ne_nil {cs : List Char} (h : IsName cs) : cs ≠ [] := by
  obtain ⟨c, rest, rfl, -⟩ := h
  exact List.cons_ne_nil c rest

/-- The text goes on with no character of a name. -/
def Ends (cs : List Char) : Prop :=
  ∀ c ∈ cs.head?, isNamePart c = false

theorem ends_joinedKeys (keys : List (List Char)) : Ends (joinedKeys keys) := by
  cases keys with
  | nil => exact nofun
  | cons key keys =>
    intro c hc
    cases hc
    decide

theorem ends_joinedSlot (slot : Option (List Char)) (keys : List (List Char)) :
    Ends (joinedSlot slot ++ joinedKeys keys) := by
  cases slot with
  | none => exact ends_joinedKeys keys
  | some slot =>
    intro c hc
    cases hc
    decide

/-- **The name in front of a text** is all of it up to the first character that is of no name. -/
theorem takeName?_eq_some {cs name rest : List Char} :
    takeName? cs = some (name, rest) ↔ IsName name ∧ cs = name ++ rest ∧ Ends rest := by
  constructor
  · intro h
    cases cs with
    | nil => cases h
    | cons c cs =>
      rw [takeName?] at h
      by_cases hc : isNameStart c = true
      · rw [if_pos hc] at h
        cases h
        have hends : Ends (cs.dropWhile isNamePart) := by
          intro d hd
          have hnot := List.head?_dropWhile_not isNamePart cs
          rw [Option.mem_def.1 hd] at hnot
          exact hnot
        refine ⟨⟨c, _, rfl, hc, fun d hd => List.mem_takeWhile_imp hd⟩, ?_, hends⟩
        rw [List.cons_append, List.takeWhile_append_dropWhile]
      · rw [if_neg hc] at h
        cases h
  · rintro ⟨⟨c, word, rfl, hc, hword⟩, rfl, hends⟩
    have htake : rest.takeWhile isNamePart = [] ∧ rest.dropWhile isNamePart = rest := by
      cases rest with
      | nil => exact ⟨rfl, rfl⟩
      | cons d rest =>
        have hd : isNamePart d = false := hends d rfl
        rw [List.takeWhile_cons, List.dropWhile_cons, hd]
        exact ⟨rfl, rfl⟩
    rw [List.cons_append, takeName?, if_pos hc, List.takeWhile_append_of_pos hword,
      List.dropWhile_append_of_pos hword, htake.1, htake.2, List.append_nil]

theorem takeSlot?_eq_some {cs rest : List Char} {slot : Option (List Char)} :
    takeSlot? cs = some (slot, rest) ↔
      (∀ name ∈ slot, IsName name ∧ Ends rest) ∧ (slot = none → rest.head? ≠ some '#') ∧
        cs = joinedSlot slot ++ rest := by
  constructor
  · intro h
    unfold takeSlot? at h
    split at h
    · obtain ⟨⟨name, rest'⟩, hname, heq⟩ := Option.map_eq_some_iff.1 h
      cases heq
      obtain ⟨hisName, hcs, hends⟩ := takeName?_eq_some.1 hname
      refine ⟨fun name' h' => ?_, nofun, ?_⟩
      · cases h'
        exact ⟨hisName, hends⟩
      · rw [hcs]
        rfl
    · next hmark =>
      cases h
      refine ⟨nofun, fun _ hhead => ?_, rfl⟩
      obtain ⟨rest', hcs⟩ := List.head?_eq_some_iff.1 hhead
      exact hmark rest' hcs
  · rintro ⟨hslot, hnone, rfl⟩
    cases slot with
    | none =>
      have hhead := hnone rfl
      unfold takeSlot?
      split
      · next h =>
        have hrest : rest = _ := h
        rw [hrest] at hhead
        exact absurd rfl hhead
      · rfl
    | some name =>
      obtain ⟨hname, hends⟩ := hslot name rfl
      have htake : takeName? (name ++ rest) = some (name, rest) :=
        takeName?_eq_some.2 ⟨hname, rfl, hends⟩
      change (takeName? (name ++ rest)).map _ = _
      rw [htake]
      rfl

/-! ### Keys -/

/-- A text split at its points is joined by them again. -/
theorem joinedKeys_splitPoints (cs : List Char) :
    ∀ key, joinedKeys (splitPoints key cs) = '.' :: (key.reverse ++ cs) := by
  induction cs with
  | nil =>
    intro key
    simp [splitPoints, joinedKeys]
  | cons c cs ih =>
    intro key
    rw [splitPoints]
    split
    · next hc =>
      subst hc
      have hrest := ih []
      unfold joinedKeys at hrest ⊢
      rw [List.flatMap_cons, hrest]
      simp
    · rw [ih]
      simp

theorem notMem_splitPoints (cs : List Char) :
    ∀ key, '.' ∉ key → ∀ k ∈ splitPoints key cs, '.' ∉ k := by
  induction cs with
  | nil =>
    intro key hkey k hk
    cases List.mem_singleton.1 hk
    exact fun h => hkey (List.mem_reverse.1 h)
  | cons c cs ih =>
    intro key hkey k hk
    rw [splitPoints] at hk
    split at hk
    · rcases List.mem_cons.1 hk with rfl | hk
      · exact fun h => hkey (List.mem_reverse.1 h)
      · exact ih [] List.not_mem_nil k hk
    · next hc =>
      refine ih (c :: key) (fun h => ?_) k hk
      rcases List.mem_cons.1 h with h | h
      · exact hc h.symm
      · exact hkey h

/-- The characters of a key go with it up to the next point. -/
theorem splitPoints_append {word : List Char} (h : '.' ∉ word) (rest : List Char) :
    ∀ key, splitPoints key (word ++ rest) = splitPoints (word.reverse ++ key) rest := by
  induction word with
  | nil => exact fun key => rfl
  | cons c word ih =>
    intro key
    have hc : c ≠ '.' := fun hc => h (hc ▸ List.mem_cons_self)
    have hword : '.' ∉ word := fun hm => h (List.mem_cons_of_mem c hm)
    rw [List.cons_append, splitPoints, if_neg hc, ih hword]
    simp

/-- **Keys without points** are what their join is split into. -/
theorem splitPoints_joinedKeys : ∀ {keys : List (List Char)} {key : List Char}, '.' ∉ key →
    (∀ k ∈ keys, '.' ∉ k) → splitPoints [] (key ++ joinedKeys keys) = key :: keys
  | [], key, hkey, _ => by
    rw [splitPoints_append hkey]
    simp [joinedKeys, splitPoints]
  | k :: keys, key, hkey, hkeys => by
    obtain ⟨hk, hrest⟩ := List.forall_mem_cons.1 hkeys
    have hcons : joinedKeys (k :: keys) = '.' :: (k ++ joinedKeys keys) := rfl
    rw [splitPoints_append hkey, hcons, splitPoints, if_pos rfl, splitPoints_joinedKeys hk hrest]
    simp

/-- **The keys a text holds**: it is those keys, each behind a point. -/
theorem takeKeys?_eq_some {cs : List Char} {keys : List (List Char)} :
    takeKeys? cs = some keys ↔ (∀ key ∈ keys, IsKey key) ∧ cs = joinedKeys keys := by
  constructor
  · intro h
    unfold takeKeys? at h
    split at h
    · cases h
      exact ⟨List.forall_mem_nil _, rfl⟩
    · next cs =>
      simp only at h
      split at h
      · cases h
      · next hany =>
        cases h
        refine ⟨fun key hkey => ⟨fun hnil => hany ?_, ?_⟩, ?_⟩
        · subst hnil
          exact List.any_eq_true.2 ⟨[], hkey, rfl⟩
        · exact notMem_splitPoints cs [] List.not_mem_nil key hkey
        · rw [joinedKeys_splitPoints]
          rfl
    · cases h
  · rintro ⟨hkeys, rfl⟩
    cases keys with
    | nil => rfl
    | cons key keys =>
      have hcons : joinedKeys (key :: keys) = '.' :: (key ++ joinedKeys keys) := rfl
      obtain ⟨hkey, hrest⟩ := List.forall_mem_cons.1 hkeys
      have hsplit : splitPoints [] (key ++ joinedKeys keys) = key :: keys :=
        splitPoints_joinedKeys hkey.2 fun k hk => (hrest k hk).2
      have hany : (key :: keys).any List.isEmpty = false := by
        rw [List.any_eq_false]
        intro k hk hempty
        exact (hkeys k hk).1 (List.isEmpty_iff.1 hempty)
      rw [hcons]
      unfold takeKeys?
      simp only [hsplit, hany, Bool.false_eq_true, if_false]

/-! ### Paths -/

/-- **A text without blanks around it** spells a path if it is the path's parts joined. -/
theorem ofChars?_eq_some {cs : List Char} {p : Path} :
    ofChars? cs = some p ↔ p.Grammatical ∧ p.joined = cs := by
  constructor
  · intro h
    obtain ⟨⟨ns, rest⟩, hns, h⟩ := Option.bind_eq_some_iff.1 h
    obtain ⟨⟨slot, rest'⟩, hslot, h⟩ := Option.bind_eq_some_iff.1 h
    obtain ⟨keys, hkeys, h⟩ := Option.bind_eq_some_iff.1 h
    cases h
    obtain ⟨hisName, hcs, -⟩ := takeName?_eq_some.1 hns
    obtain ⟨hslots, -, hrest⟩ := takeSlot?_eq_some.1 hslot
    obtain ⟨hisKey, hrest'⟩ := takeKeys?_eq_some.1 hkeys
    have hunpack : ∀ l : List (List Char), (l.map String.ofList).map String.toList = l := by
      intro l
      rw [List.map_map]
      exact (List.map_congr_left fun _ _ => String.toList_ofList).trans (List.map_id l)
    refine ⟨⟨?_, fun s hs => ?_, fun k hk => ?_⟩, ?_⟩
    · rw [String.toList_ofList]
      exact hisName
    · obtain ⟨name, hname, rfl⟩ := Option.map_eq_some_iff.1 hs
      rw [String.toList_ofList]
      exact (hslots name hname).1
    · obtain ⟨key, hkey, rfl⟩ := List.mem_map.1 hk
      rw [String.toList_ofList]
      exact hisKey key hkey
    · have hname : (slot.map String.ofList).map String.toList = slot := by
        cases slot with
        | none => rfl
        | some name => exact congrArg some String.toList_ofList
      unfold joined
      rw [String.toList_ofList, hname, hunpack, hcs, hrest, hrest', List.append_assoc]
  · rintro ⟨⟨hns, hslot, hkeys⟩, rfl⟩
    obtain ⟨ns, slot, keys⟩ := p
    have hname : takeName? (joined ⟨ns, slot, keys⟩) = some (ns.toList,
        joinedSlot (slot.map String.toList) ++ joinedKeys (keys.map String.toList)) := by
      refine takeName?_eq_some.2 ⟨hns, ?_, ends_joinedSlot _ _⟩
      unfold joined
      rw [List.append_assoc]
    have hbehind : takeSlot? (joinedSlot (slot.map String.toList) ++
        joinedKeys (keys.map String.toList)) =
          some (slot.map String.toList, joinedKeys (keys.map String.toList)) := by
      refine takeSlot?_eq_some.2 ⟨fun name hname => ?_, fun _ hhead => ?_, rfl⟩
      · obtain ⟨s, hs, rfl⟩ := Option.map_eq_some_iff.1 hname
        exact ⟨hslot s hs, ends_joinedKeys _⟩
      · cases keys <;> cases hhead
    have hread : takeKeys? (joinedKeys (keys.map String.toList)) =
        some (keys.map String.toList) := by
      refine takeKeys?_eq_some.2 ⟨fun key hkey => ?_, rfl⟩
      obtain ⟨k, hk, rfl⟩ := List.mem_map.1 hkey
      exact hkeys k hk
    unfold ofChars?
    rw [hname]
    simp only [Option.bind_eq_bind, Option.bind_some, hbehind, hread, Option.map_map, List.map_map]
    have hpack : String.ofList ∘ String.toList = id := funext fun s => String.ofList_toList
    rw [hpack, Option.map_id, List.map_id, String.ofList_toList]
    rfl

/-- **The parts of a text** are unique. -/
theorem joined_inj {p q : Path} (hp : p.Grammatical) (hq : q.Grammatical)
    (h : p.joined = q.joined) : p = q := by
  have hread : ofChars? q.joined = some p := ofChars?_eq_some.2 ⟨hp, h⟩
  rw [ofChars?_eq_some.2 ⟨hq, rfl⟩] at hread
  exact (Option.some.inj hread).symm

theorem parse_eq_ok {raw : String} {p : Path} :
    parse raw = .ok p ↔ p.Grammatical ∧ p.joined = Text.trim raw.toList := by
  rw [← ofChars?_eq_some]
  unfold parse
  cases ofChars? (Text.trim raw.toList) with
  | none => exact ⟨nofun, nofun⟩
  | some q =>
    rw [Except.ok.injEq, Option.some.injEq]

/-- The text of a path is its parts joined. -/
theorem toList_text (p : Path) : p.text.toList = p.joined := by
  have hfold : ∀ (keys : List String) (acc : String),
      (keys.foldl (fun acc key => acc ++ "." ++ key) acc).toList =
        acc.toList ++ joinedKeys (keys.map String.toList) := by
    intro keys
    induction keys with
    | nil =>
      intro acc
      exact (List.append_nil _).symm
    | cons key keys ih =>
      intro acc
      rw [List.foldl_cons, ih]
      simp [joinedKeys]
  unfold text
  rw [hfold]
  unfold joined root
  cases p.slot with
  | none => simp [joinedSlot]
  | some slot => simp [joinedSlot]

/-- The join of the parts ends as the last of them does. -/
theorem getLast?_joined {p : Path} (h : p.Grammatical) :
    p.joined.getLast? = p.lastPart.toList.getLast? := by
  obtain ⟨ns, slot, keys⟩ := p
  obtain ⟨hns, hslot, hkeys⟩ := h
  -- what stands behind a mark is no empty text
  have hmark : ∀ (before : List Char) (mark : Char) (part : List Char), part ≠ [] →
      (before ++ mark :: part).getLast? = part.getLast? := by
    intro before mark part hpart
    have hsplit : before ++ mark :: part = (before ++ [mark]) ++ part := by simp
    rw [hsplit, List.getLast?_append_of_ne_nil _ hpart]
  unfold joined lastPart
  rcases List.eq_nil_or_concat keys with rfl | ⟨before, key, rfl⟩
  · cases slot with
    | none => simp [joinedSlot, joinedKeys]
    | some slot =>
      have hname : slot.toList ≠ [] := (hslot slot rfl).ne_nil
      simpa [joinedSlot, joinedKeys] using hmark ns.toList '#' slot.toList hname
  · have hkey : key.toList ≠ [] := (hkeys key (by simp)).1
    have hjoined : joinedKeys ((before.concat key).map String.toList) =
        joinedKeys (before.map String.toList) ++ '.' :: key.toList := by
      simp [joinedKeys]
    rw [hjoined, ← List.append_assoc, hmark _ '.' key.toList hkey]
    simp

/-- Nothing is trimmed from parts that are joined, unless the last of them ends with a blank. -/
theorem trim_joined {p : Path} (h : p.Grammatical)
    (hlast : ∀ c ∈ p.lastPart.toList.getLast?, Text.isBlank c = false) :
    Text.trim p.joined = p.joined := by
  refine Text.trim_eq_self (fun c hc => ?_) (getLast?_joined h ▸ hlast)
  obtain ⟨first, rest, hns, hfirst, -⟩ := h.ns
  unfold joined at hc
  rw [hns] at hc
  cases hc
  exact not_isBlank_of_isNamePart (isNamePart_of_isNameStart hfirst)

/-- **Reading a path** accepts exactly the texts of the grammar, blanks around them apart, and gives
the parts that are joined there. No other parts are spelled so, the path's own text is that join and
reads back, and whatever parts are joined are read, unless the last ends with a blank. -/
theorem parse_grammar (raw : String) :
    (∀ p, parse raw = .ok p ↔ p.Grammatical ∧ p.joined = Text.trim raw.toList) ∧
    ((¬ ∃ p : Path, p.Grammatical ∧ p.joined = Text.trim raw.toList) →
      parse raw = .error (.invalidPath raw)) ∧
    (∀ p q : Path, p.Grammatical → q.Grammatical → p.joined = q.joined → p = q) ∧
    (∀ p, parse raw = .ok p → p.text.toList = Text.trim raw.toList ∧ parse p.text = .ok p) ∧
    ∀ p : Path, p.Grammatical → (∀ c ∈ p.lastPart.toList.getLast?, Text.isBlank c = false) →
      parse (String.ofList p.joined) = .ok p := by
  refine ⟨fun p => parse_eq_ok, fun hno => ?_, fun p q => joined_inj, fun p hp => ?_,
    fun p hp hlast => ?_⟩
  · unfold parse
    cases h : ofChars? (Text.trim raw.toList) with
    | none => rfl
    | some p => exact absurd ⟨p, ofChars?_eq_some.1 h⟩ hno
  · obtain ⟨hgrammar, hjoined⟩ := parse_eq_ok.1 hp
    have hlast : ∀ c ∈ p.lastPart.toList.getLast?, Text.isBlank c = false := by
      rw [← getLast?_joined hgrammar, hjoined]
      exact Text.getLast?_trim
    have htext : p.text.toList = p.joined := toList_text p
    refine ⟨htext.trans hjoined, parse_eq_ok.2 ⟨hgrammar, ?_⟩⟩
    rw [htext, trim_joined hgrammar hlast]
  · refine parse_eq_ok.2 ⟨hp, ?_⟩
    rw [String.toList_ofList, trim_joined hp hlast]

/-- What a slot named `row` is given under the namespace `shop`, by a key with a blank in it. -/
def rowPrice : Path :=
  ⟨"shop", some "row", ["unit price", "$for"]⟩

/-- The blanks around a path are trimmed, those in its keys are not. -/
theorem parse_grammar_row : rowPrice.Grammatical ∧
    (∀ c ∈ rowPrice.lastPart.toList.getLast?, Text.isBlank c = false) ∧
    parse "\tshop#row.unit price.$for \n" = .ok rowPrice ∧ parse rowPrice.text = .ok rowPrice ∧
    parse (String.ofList rowPrice.joined) = .ok rowPrice := by
  have hgrammar : rowPrice.Grammatical := by
    refine ⟨⟨'s', ['h', 'o', 'p'], rfl, rfl, List.all_eq_true.1 (by decide)⟩,
      fun slot hslot => ?_, fun key hkey => ?_⟩
    · cases hslot
      exact ⟨'r', ['o', 'w'], rfl, rfl, List.all_eq_true.1 (by decide)⟩
    · simp only [rowPrice, List.mem_cons, List.not_mem_nil, or_false] at hkey
      rcases hkey with rfl | rfl
      · exact ⟨by decide, by decide⟩
      · exact ⟨by decide, by decide⟩
  have hlast : ∀ c ∈ rowPrice.lastPart.toList.getLast?, Text.isBlank c = false := by
    have hend : rowPrice.lastPart.toList.getLast? = some 'r' := by decide
    intro c hc
    rw [hend] at hc
    cases hc
    decide
  obtain ⟨haccepts, -, -, hreads, hjoins⟩ := parse_grammar "\tshop#row.unit price.$for \n"
  have hparse : parse "\tshop#row.unit price.$for \n" = .ok rowPrice :=
    (haccepts rowPrice).2 ⟨hgrammar, by decide⟩
  exact ⟨hgrammar, hlast, hparse, (hreads rowPrice hparse).2, hjoins rowPrice hgrammar hlast⟩

end Path

end Trellis
