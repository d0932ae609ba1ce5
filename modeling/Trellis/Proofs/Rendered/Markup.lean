import Trellis.Rendered.Markup
import Mathlib.Tactic.SplitIfs
import Trellis.Proofs.Scope.Address
import Trellis.Text.Category

/-!
# Markup says what the tree says

Where tags and names of attributes are words and no element carries raw markup, the markup of a tree
can be read back: no text and no value of an attribute ends where it should not, so none opens or
closes an element or adds an attribute. What comes back is the reading of the tree.

* `IsVoid`, `IsLive`, `Element.shown`: what of an element markup is there to show, said of its
  fields and apart from how it is written.
* `Reading`, `Rendered.reading`: tags in their nesting, attributes and text, as far as they are
  shown.
* `Rendered.Wordy`: words for names, and no raw markup.
* `escapeAttribute_inj`, `escapeText_inj`: escaping loses nothing.
* `Element.attributes_eq`: the attributes that are written are those that are shown.
* `Reading.chars_inj`: readings told apart by markup that may go on. The induction follows the
  reading.
* `Rendered.html_eq_iff`: trees have the same markup if their readings are the same, and only then.
-/

namespace Trellis

/-- Elements that cannot have content. -/
def IsVoid (tag : String) : Prop :=
  tag ∈ ["area", "base", "br", "col", "embed", "hr", "img", "input", "link", "meta", "source",
    "track", "wbr"]

instance (tag : String) : Decidable (IsVoid tag) :=
  inferInstanceAs (Decidable (tag ∈ _))

/-- Properties that are the state of an element, or its content, and are no attributes. -/
def IsLive (property : String) : Prop :=
  property ∈ ["value", "checked", "selected", "innerHTML", "textContent"]

instance (property : String) : Decidable (IsLive property) :=
  inferInstanceAs (Decidable (property ∈ _))

namespace Element

/-- What is shown of classes: all of them in one text. -/
def shownClasses : List String → List (String × String)
  | [] => []
  | c :: rest => [("class", " ".intercalate (c :: rest))]

/-- What is shown of a style: all declarations in one text. -/
def shownStyle : Members Value → List (String × String)
  | [] => []
  | m :: rest =>
    [("style", " ".intercalate ((m :: rest).map fun m => m.1 ++ ": " ++ m.2.text ++ ";"))]

/-- What is shown of members: null and false are left out, true is shown as its own name and any
other value as its text. -/
def shownMembers : Members Value → List (String × String)
  | [] => []
  | (_, .null) :: rest => shownMembers rest
  | (_, .bool false) :: rest => shownMembers rest
  | (name, .bool true) :: rest => (name, name) :: shownMembers rest
  | (name, v) :: rest => (name, v.text) :: shownMembers rest

/-- What is shown of an element beside its tag and its content. -/
def shown (e : Element) : List (String × String) :=
  shownClasses e.classes ++ shownStyle e.style ++ shownMembers e.attrs ++
    shownMembers (e.domProps.filter fun m => ¬IsLive m.1)

end Element

/-- What markup shows of a tree: a tag, attributes with the texts of their values, and text in front
of children. -/
inductive Reading where
  | mk (tag : String) (attributes : List (String × String)) (text : String)
    (children : List Reading)

/-- A word: not empty, and of letters, digits, the other characters of words, and `-`. -/
def IsWord (s : String) : Prop :=
  s ≠ "" ∧ ∀ c ∈ s.toList, (Text.isWordChar c || c == '-') = true

instance (s : String) : Decidable (IsWord s) :=
  decidable_of_iff (s ≠ "" ∧ s.toList.all (fun c => Text.isWordChar c || c == '-') = true)
    (and_congr_right fun _ => List.all_eq_true)

namespace Rendered

mutual

/-- The reading of a tree: a void element has no content, and text hides the children. -/
def reading : Rendered → Reading
  | mk e kids =>
    if IsVoid e.tag then .mk e.tag e.shown "" []
    else match e.text with
      | some s => .mk e.tag e.shown s []
      | none => .mk e.tag e.shown "" (readings kids)

/-- The readings of trees. -/
def readings : List Rendered → List Reading
  | [] => []
  | n :: rest => reading n :: readings rest

end

mutual

/-- Tags and the names of what is shown are words, and there is no raw markup. -/
def Wordy : Rendered → Prop
  | mk e kids => e.markup = none ∧ IsWord e.tag ∧ (∀ a ∈ e.shown, IsWord a.1) ∧ AllWordy kids

/-- Each tree is such a tree. -/
def AllWordy : List Rendered → Prop
  | [] => True
  | n :: rest => Wordy n ∧ AllWordy rest

end

end Rendered

/-! ### Escaping -/

section Codes

variable {α β : Type} {code : α → List β}

/-- No code is the beginning of another one. -/
def PrefixFree (code : α → List β) : Prop :=
  ∀ a b r s, code a ++ r = code b ++ s → a = b

/-- **A code** in which no word is empty or the beginning of another loses nothing. -/
theorem PrefixFree.flatMap_inj (h : PrefixFree code) (hne : ∀ a, code a ≠ []) :
    ∀ {as bs : List α}, as.flatMap code = bs.flatMap code → as = bs
  | [], [], _ => rfl
  | [], b :: bs, heq => by
    rw [List.flatMap_cons, List.flatMap_nil] at heq
    exact absurd (List.append_eq_nil_iff.1 heq.symm).1 (hne b)
  | a :: as, [], heq => by
    rw [List.flatMap_cons, List.flatMap_nil] at heq
    exact absurd (List.append_eq_nil_iff.1 heq).1 (hne a)
  | a :: as, b :: bs, heq => by
    rw [List.flatMap_cons, List.flatMap_cons] at heq
    obtain rfl := h a b _ _ heq
    rw [h.flatMap_inj hne (List.append_cancel_left heq)]

end Codes

/-- The code that writes some characters by a name behind `&`, and the others as they are. -/
def entityCode (name : Char → Option (List Char)) (c : Char) : List Char :=
  match name c with
  | some word => '&' :: word
  | none => [c]

theorem entityCode_ne_nil (name : Char → Option (List Char)) (c : Char) :
    entityCode name c ≠ [] := by
  unfold entityCode
  cases name c <;> exact List.cons_ne_nil _ _

/-- Such a code is prefix free if the names are, and `&` has one. -/
theorem entityCode_prefixFree {name : Char → Option (List Char)} {word : List Char}
    (hamp : name '&' = some word)
    (hnames : ∀ a b v w r s, name a = some v → name b = some w → v ++ r = w ++ s → a = b) :
    PrefixFree (entityCode name) := by
  intro a b r s h
  unfold entityCode at h
  cases ha : name a with
  | some v =>
    cases hb : name b with
    | some w =>
      rw [ha, hb] at h
      exact hnames a b v w r s ha hb (List.cons.inj h).2
    | none =>
      rw [ha, hb] at h
      have hmark : '&' = b := (List.cons.inj h).1
      rw [← hmark, hamp] at hb
      cases hb
  | none =>
    cases hb : name b with
    | some w =>
      rw [ha, hb] at h
      have hmark : a = '&' := (List.cons.inj h).1
      rw [hmark, hamp] at ha
      cases ha
    | none =>
      rw [ha, hb] at h
      exact (List.cons.inj h).1

/-- What follows `&` for a character in the value of an attribute. -/
def attributeName (c : Char) : Option (List Char) :=
  if c = '&' then some ['a', 'm', 'p', ';']
  else if c = '"' then some ['q', 'u', 'o', 't', ';']
  else none

/-- What follows `&` for a character in text. -/
def textName (c : Char) : Option (List Char) :=
  if c = '&' then some ['a', 'm', 'p', ';']
  else if c = '<' then some ['l', 't', ';']
  else if c = '>' then some ['g', 't', ';']
  else none

theorem attributeCode_prefixFree : PrefixFree (entityCode attributeName) := by
  have hamp : attributeName '&' = some ['a', 'm', 'p', ';'] := rfl
  refine entityCode_prefixFree hamp fun a b v w r s ha hb h => ?_
  unfold attributeName at ha hb
  split_ifs at ha hb <;> cases ha <;> cases hb <;> simp_all

theorem textCode_prefixFree : PrefixFree (entityCode textName) := by
  have hamp : textName '&' = some ['a', 'm', 'p', ';'] := rfl
  refine entityCode_prefixFree hamp fun a b v w r s ha hb h => ?_
  unfold textName at ha hb
  split_ifs at ha hb <;> cases ha <;> cases hb <;> simp_all

theorem toList_escapeAttribute (s : String) :
    (escapeAttribute s).toList = s.toList.flatMap (entityCode attributeName) := by
  unfold escapeAttribute
  rw [String.toList_ofList]
  refine congrArg (List.flatMap · s.toList) (funext fun c => ?_)
  unfold entityCode attributeName
  split_ifs <;> rfl

theorem toList_escapeText (s : String) :
    (escapeText s).toList = s.toList.flatMap (entityCode textName) := by
  unfold escapeText
  rw [String.toList_ofList]
  refine congrArg (List.flatMap · s.toList) (funext fun c => ?_)
  unfold entityCode textName
  split_ifs <;> rfl

/-- **Escaping the value of an attribute** loses nothing. -/
theorem escapeAttribute_inj {s t : String}
    (h : (escapeAttribute s).toList = (escapeAttribute t).toList) : s = t := by
  rw [toList_escapeAttribute, toList_escapeAttribute] at h
  have hchars := attributeCode_prefixFree.flatMap_inj (entityCode_ne_nil _) h
  exact String.toList_inj.1 hchars

/-- **Escaping text** loses nothing. -/
theorem escapeText_inj {s t : String} (h : (escapeText s).toList = (escapeText t).toList) :
    s = t := by
  rw [toList_escapeText, toList_escapeText] at h
  have hchars := textCode_prefixFree.flatMap_inj (entityCode_ne_nil _) h
  exact String.toList_inj.1 hchars

/-- No quote is left in the value of an attribute. -/
theorem quote_notMem_escapeAttribute (s : String) : '"' ∉ (escapeAttribute s).toList := by
  rw [toList_escapeAttribute, List.mem_flatMap]
  rintro ⟨c, -, hc⟩
  unfold entityCode attributeName at hc
  split_ifs at hc with hamp hquote
  · simp at hc
  · simp at hc
  · exact hquote (List.mem_singleton.1 hc).symm

/-- No tag begins in text. -/
theorem angle_notMem_escapeText (s : String) : '<' ∉ (escapeText s).toList := by
  rw [toList_escapeText, List.mem_flatMap]
  rintro ⟨c, -, hc⟩
  unfold entityCode textName at hc
  split_ifs at hc with hamp hless hgreater
  · simp at hc
  · simp at hc
  · simp at hc
  · exact hless (List.mem_singleton.1 hc).symm

/-! ### Words -/

/-- Characters that end a word in markup. -/
theorem IsWord.notMem {s : String} (h : IsWord s) {c : Char}
    (hc : c ∈ [' ', '=', '>', '/', '<', '"']) : c ∉ s.toList := by
  have hnone : [' ', '=', '>', '/', '<', '"'].all
      (fun c => !(Text.isWordChar c || c == '-')) = true := by decide
  intro hmem
  have hnot := List.all_eq_true.1 hnone c hc
  rw [h.2 c hmem] at hnot
  cases hnot

theorem IsWord.exists_cons {s : String} (h : IsWord s) :
    ∃ c cs, s.toList = c :: cs ∧ c ≠ '/' := by
  cases hs : s.toList with
  | nil =>
    have hempty : s = "" := String.toList_inj.1 hs
    exact absurd hempty h.1
  | cons c cs =>
    refine ⟨c, cs, rfl, fun hc => ?_⟩
    have hslash : '/' ∈ s.toList := by
      rw [hs, hc]
      exact List.mem_cons_self
    exact h.notMem (by decide) hslash

/-! ### Attributes -/

/-- An attribute as characters. -/
theorem toList_attributeText (a : String × String) : (attributeText a).toList =
    ' ' :: (a.1.toList ++ '=' :: '"' :: ((escapeAttribute a.2).toList ++ ['"'])) := by
  unfold attributeText
  simp

/-- The attributes of an element as characters. -/
def attributeChars (attributes : List (String × String)) : List Char :=
  attributes.flatMap fun a => (attributeText a).toList

theorem attributeChars_cons (a : String × String) (as : List (String × String)) (r : List Char) :
    attributeChars (a :: as) ++ r = ' ' :: (a.1.toList ++ '=' :: '"' ::
      ((escapeAttribute a.2).toList ++ '"' :: (attributeChars as ++ r))) := by
  have hsplit : attributeChars (a :: as) = (attributeText a).toList ++ attributeChars as := rfl
  rw [hsplit, toList_attributeText]
  simp

/-- **Attributes** in front of the end of a tag can be told apart. -/
theorem attributeChars_inj : ∀ {as bs : List (String × String)} {r s : List Char},
    (∀ a ∈ as, IsWord a.1) → (∀ b ∈ bs, IsWord b.1) →
    attributeChars as ++ '>' :: r = attributeChars bs ++ '>' :: s → as = bs ∧ r = s
  | [], [], _, _, _, _, h => ⟨rfl, (List.cons.inj h).2⟩
  | [], b :: bs, r, s, _, _, h => by
    rw [attributeChars_cons] at h
    cases h
  | a :: as, [], r, s, _, _, h => by
    rw [attributeChars_cons] at h
    cases h
  | a :: as, b :: bs, r, s, ha, hb, h => by
    obtain ⟨ha, has⟩ := List.forall_mem_cons.1 ha
    obtain ⟨hb, hbs⟩ := List.forall_mem_cons.1 hb
    rw [attributeChars_cons, attributeChars_cons] at h
    -- the name ends at the sign, the value at the quote
    obtain ⟨hname, h⟩ := append_delimiter_inj (ha.notMem (by decide)) (hb.notMem (by decide))
      (List.cons.inj h).2
    obtain ⟨hvalue, h⟩ := append_delimiter_inj (quote_notMem_escapeAttribute a.2)
      (quote_notMem_escapeAttribute b.2) (List.cons.inj h).2
    obtain ⟨hrest, hbehind⟩ := attributeChars_inj has hbs h
    have hab : a = b := Prod.ext (String.toList_inj.1 hname) (escapeAttribute_inj hvalue)
    exact ⟨by rw [hab, hrest], hbehind⟩

/-! ### Readings -/

/-- An opening tag as characters. -/
def openingChars (tag : String) (attributes : List (String × String)) : List Char :=
  '<' :: (tag.toList ++ attributeChars attributes ++ ['>'])

/-- **Opening tags** can be told apart, whatever follows them. -/
theorem openingChars_inj {tag tag' : String} {as bs : List (String × String)} {r s : List Char}
    (htag : IsWord tag) (htag' : IsWord tag') (ha : ∀ a ∈ as, IsWord a.1)
    (hb : ∀ b ∈ bs, IsWord b.1) (h : openingChars tag as ++ r = openingChars tag' bs ++ s) :
    tag = tag' ∧ as = bs ∧ r = s := by
  -- a tag ends at the blank in front of the first attribute, or at the bracket
  have hbehind : ∀ (cs : List (String × String)) (t : List Char),
      ∃ c rest, attributeChars cs ++ '>' :: t = c :: rest ∧ (c = ' ' ∨ c = '>') := by
    intro cs t
    cases cs with
    | nil => exact ⟨'>', t, rfl, .inr rfl⟩
    | cons c cs => exact ⟨' ', _, attributeChars_cons c cs _, .inl rfl⟩
  have hopening : ∀ (name : String) (cs : List (String × String)) (t : List Char),
      openingChars name cs ++ t = '<' :: (name.toList ++ (attributeChars cs ++ '>' :: t)) := by
    intro name cs t
    unfold openingChars
    simp
  rw [hopening, hopening] at h
  have hrest := (List.cons.inj h).2
  have htags : tag.toList = tag'.toList ∧
      attributeChars as ++ '>' :: r = attributeChars bs ++ '>' :: s := by
    obtain ⟨c, u, hu, hc⟩ := hbehind as r
    obtain ⟨d, v, hv, hd⟩ := hbehind bs s
    rw [hu, hv] at hrest ⊢
    have hends : ∀ {w : String} {e : Char}, IsWord w → e = ' ' ∨ e = '>' → e ∉ w.toList := by
      intro w e hw he
      rcases he with rfl | rfl
      · exact hw.notMem (by decide)
      · exact hw.notMem (by decide)
    exact append_ends_inj (hends htag hc) (hends htag' hc) (hends htag hd) (hends htag' hd) hrest
  obtain ⟨hsame, hattributes⟩ := htags
  obtain ⟨has, hr⟩ := attributeChars_inj ha hb hattributes
  exact ⟨String.toList_inj.1 hsame, has, hr⟩

namespace Reading

mutual

/-- The markup a reading stands for. -/
def chars : Reading → List Char
  | mk tag attributes text kids => openingChars tag attributes ++
    if IsVoid tag then []
    else (escapeText text).toList ++ (allChars kids ++ '<' :: '/' :: (tag.toList ++ ['>']))

/-- The markup of readings one after another. -/
def allChars : List Reading → List Char
  | [] => []
  | o :: rest => chars o ++ allChars rest

end

mutual

/-- Names are words, and void elements have no content. -/
def Wordy : Reading → Prop
  | mk tag attributes text kids => IsWord tag ∧ (∀ a ∈ attributes, IsWord a.1) ∧
    (IsVoid tag → text = "" ∧ kids = []) ∧ AllWordy kids

/-- Each reading is such a reading. -/
def AllWordy : List Reading → Prop
  | [] => True
  | o :: rest => Wordy o ∧ AllWordy rest

end

/-- Markup begins with a tag that does not close anything. -/
theorem Wordy.chars_eq {o : Reading} (h : o.Wordy) :
    ∃ c rest, o.chars = '<' :: c :: rest ∧ c ≠ '/' := by
  obtain ⟨tag, attributes, text, kids⟩ := o
  obtain ⟨c, cs, htag, hc⟩ := h.1.exists_cons
  rw [chars]
  unfold openingChars
  rw [htag]
  exact ⟨c, _, rfl, hc⟩

/-- What follows text begins with a tag. -/
theorem allChars_append {os : List Reading} (h : AllWordy os) (r : List Char) :
    ∃ rest, allChars os ++ '<' :: r = '<' :: rest := by
  cases os with
  | nil => exact ⟨r, rfl⟩
  | cons o os =>
    obtain ⟨c, rest, hchars, -⟩ := h.1.chars_eq
    rw [allChars, hchars]
    exact ⟨_, rfl⟩

mutual

/-- **Readings** can be told apart by their markup, whatever follows it. -/
theorem chars_inj : ∀ {o o' : Reading} {r s : List Char}, o.Wordy → o'.Wordy →
    o.chars ++ r = o'.chars ++ s → o = o' ∧ r = s
  | mk tag attributes text kids, mk tag' attributes' text' kids', r, s, ho, ho', h => by
    obtain ⟨htag, hattributes, hvoid, hkids⟩ := ho
    obtain ⟨htag', hattributes', hvoid', hkids'⟩ := ho'
    rw [chars, chars, List.append_assoc, List.append_assoc] at h
    obtain ⟨rfl, rfl, hinside⟩ := openingChars_inj htag htag' hattributes hattributes' h
    by_cases htags : IsVoid tag
    · rw [if_pos htags, if_pos htags] at hinside
      obtain ⟨rfl, rfl⟩ := hvoid htags
      obtain ⟨rfl, rfl⟩ := hvoid' htags
      exact ⟨rfl, hinside⟩
    · rw [if_neg htags, if_neg htags] at hinside
      simp only [List.append_assoc, List.cons_append, List.nil_append] at hinside
      -- text ends where the next tag begins
      have htext : text = text' ∧ allChars kids ++ '<' :: '/' :: (tag.toList ++ '>' :: r) =
          allChars kids' ++ '<' :: '/' :: (tag.toList ++ '>' :: s) := by
        obtain ⟨u, hu⟩ := allChars_append hkids ('/' :: (tag.toList ++ '>' :: r))
        obtain ⟨v, hv⟩ := allChars_append hkids' ('/' :: (tag.toList ++ '>' :: s))
        rw [hu, hv] at hinside ⊢
        obtain ⟨hescaped, hrest⟩ := append_delimiter_inj (angle_notMem_escapeText text)
          (angle_notMem_escapeText text') hinside
        exact ⟨escapeText_inj hescaped, congrArg ('<' :: ·) hrest⟩
      obtain ⟨hsame, hbehind⟩ := htext
      obtain ⟨hothers, hend⟩ := allChars_inj hkids hkids' hbehind
      rw [hsame, hothers]
      exact ⟨rfl, (List.cons.inj (List.append_cancel_left hend)).2⟩

/-- So can readings in front of a closing tag. -/
theorem allChars_inj : ∀ {os os' : List Reading} {r s : List Char}, AllWordy os → AllWordy os' →
    allChars os ++ '<' :: '/' :: r = allChars os' ++ '<' :: '/' :: s → os = os' ∧ r = s
  | [], [], r, s, _, _, h => by
    rw [allChars, List.nil_append, List.nil_append, List.cons.injEq, List.cons.injEq] at h
    exact ⟨rfl, h.2.2⟩
  | [], o :: os, r, s, _, ho, h => by
    obtain ⟨c, rest, hchars, hc⟩ := ho.1.chars_eq
    rw [allChars, allChars, hchars] at h
    cases h
    exact absurd rfl hc
  | o :: os, [], r, s, ho, _, h => by
    obtain ⟨c, rest, hchars, hc⟩ := ho.1.chars_eq
    rw [allChars, allChars, hchars] at h
    cases h
    exact absurd rfl hc
  | o :: os, o' :: os', r, s, ho, ho', h => by
    rw [allChars, allChars, List.append_assoc, List.append_assoc] at h
    obtain ⟨hfirst, hrest⟩ := chars_inj ho.1 ho'.1 h
    obtain ⟨hothers, hbehind⟩ := allChars_inj ho.2 ho'.2 hrest
    exact ⟨by rw [hfirst, hothers], hbehind⟩

end

end Reading

/-! ### What is written of an element -/

theorem voidTags_contains {tag : String} : voidTags.contains tag = true ↔ IsVoid tag :=
  List.contains_iff_mem

theorem unreflected_contains {property : String} :
    unreflected.contains property = true ↔ IsLive property :=
  List.contains_iff_mem

namespace Element

theorem classText_eq (e : Element) : e.classText = shownClasses e.classes := by
  unfold classText
  cases e.classes <;> rfl

theorem styleText_eq (e : Element) : e.styleText = shownStyle e.style := by
  unfold styleText
  cases e.style <;> rfl

theorem filterMap_eq_shownMembers : ∀ ms : Members Value, ms.filterMap attribute? = shownMembers ms
  | [] => rfl
  | (name, v) :: rest => by
    rw [List.filterMap_cons, filterMap_eq_shownMembers rest]
    cases v with
    | bool b => cases b <;> rfl
    | _ => rfl

theorem reflectedProps_eq (e : Element) :
    e.reflectedProps = e.domProps.filter fun m => ¬IsLive m.1 := by
  refine List.filter_congr fun m _ => ?_
  rw [Bool.eq_iff_iff, Bool.not_eq_true', decide_eq_true_iff, ← unreflected_contains,
    Bool.not_eq_true]

/-- **The attributes that are written** are those that are shown, in their order. -/
theorem attributes_eq (e : Element) : e.attributes = e.shown := by
  unfold attributes shown
  rw [List.filterMap_append, filterMap_eq_shownMembers, filterMap_eq_shownMembers, classText_eq,
    styleText_eq, reflectedProps_eq, List.append_assoc _ _ (shownMembers _)]

theorem toList_opening (e : Element) : e.opening.toList = openingChars e.tag e.shown := by
  have hjoin : (String.join (e.attributes.map attributeText)).toList =
      attributeChars e.shown := by
    unfold attributeChars
    rw [String.toList_join, List.flatMap_map, attributes_eq]
  unfold opening openingChars
  simp only [String.toList_append, hjoin]
  simp

theorem toList_closing (e : Element) :
    e.closing.toList = '<' :: '/' :: (e.tag.toList ++ ['>']) := by
  unfold closing
  simp

end Element

/-! ### Trees -/

namespace Rendered

mutual

/-- **The markup of a tree** is that of its reading, where there is no raw markup. -/
theorem toList_html : ∀ {t : Rendered}, t.Wordy → t.html.toList = t.reading.chars
  | mk e kids, h => by
    obtain ⟨hmarkup, -, -, hkids⟩ := h
    rw [html, reading]
    unfold Element.wrap
    by_cases hvoid : IsVoid e.tag
    · rw [if_pos (voidTags_contains.2 hvoid), if_pos hvoid, Reading.chars, if_pos hvoid,
        List.append_nil]
      exact e.toList_opening
    · rw [if_neg (mt voidTags_contains.1 hvoid), if_neg hvoid]
      simp only [String.toList_append, Element.toList_opening, Element.toList_closing]
      unfold Element.inner
      rw [hmarkup]
      cases e.text with
      | some s =>
        simp only [Reading.chars, Reading.allChars, if_neg hvoid, List.nil_append,
          List.append_assoc]
      | none =>
        have hempty : (escapeText "").toList = [] := rfl
        simp only [Reading.chars, if_neg hvoid, hempty, List.nil_append, List.append_assoc,
          toList_htmlAll hkids]

theorem toList_htmlAll : ∀ {ts : List Rendered}, AllWordy ts →
    (htmlAll ts).toList = Reading.allChars (readings ts)
  | [], _ => rfl
  | t :: ts, h => by
    rw [htmlAll, readings, Reading.allChars, String.toList_append, toList_html h.1,
      toList_htmlAll h.2]

end

mutual

theorem wordy_reading : ∀ {t : Rendered}, t.Wordy → t.reading.Wordy
  | mk e kids, h => by
    obtain ⟨-, htag, hshown, hkids⟩ := h
    rw [reading]
    by_cases hvoid : IsVoid e.tag
    · rw [if_pos hvoid]
      exact ⟨htag, hshown, fun _ => ⟨rfl, rfl⟩, trivial⟩
    · rw [if_neg hvoid]
      cases e.text with
      | some s => exact ⟨htag, hshown, fun h => absurd h hvoid, trivial⟩
      | none => exact ⟨htag, hshown, fun h => absurd h hvoid, wordy_readings hkids⟩

theorem wordy_readings : ∀ {ts : List Rendered}, AllWordy ts → Reading.AllWordy (readings ts)
  | [], _ => trivial
  | _ :: _, h => ⟨wordy_reading h.1, wordy_readings h.2⟩

end

/-- **Markup cannot be injected.** Where tags and names of attributes are words and there is no raw
markup, trees of the same markup have the same tags in the same nesting, the same attributes with
the same texts and the same text, whatever these texts hold. -/
theorem html_eq_iff {t u : Rendered} (ht : t.Wordy) (hu : u.Wordy) :
    t.html = u.html ↔ t.reading = u.reading := by
  constructor
  · intro h
    have hchars : t.reading.chars ++ [] = u.reading.chars ++ [] := by
      rw [← toList_html ht, ← toList_html hu, h]
    exact (Reading.chars_inj (wordy_reading ht) (wordy_reading hu) hchars).1
  · intro h
    have hchars : t.html.toList = u.html.toList := by
      rw [toList_html ht, toList_html hu, h]
    exact String.toList_inj.1 hchars

/-- A paragraph in which every value tries to end what it is in. -/
def hostile : Rendered :=
  mk { Element.plain "p" with
    classes := ["a\"", "title=\"<b>&"]
    style := [("color", .string "red\" lang=\"<en>&")]
    attrs := [("alt", .string "y\" rel=\"<z>&"), ("hidden", .bool true), ("dir", .bool false),
      ("role", .null)]
    domProps := [("id", .string "x\"><b></b><i title=\"<&>"), ("value", .string "typed")]
    text := some "</p><p>&" } []

/-- A paragraph that shows the same, with other fields. -/
def restated : Rendered :=
  mk { Element.plain "p" with
    attrs := [("class", .string "a\" title=\"<b>&"),
      ("style", .string "color: red\" lang=\"<en>&;"), ("alt", .string "y\" rel=\"<z>&"),
      ("hidden", .string "hidden"), ("id", .string "x\"><b></b><i title=\"<&>")]
    text := some "</p><p>&" } [mk (Element.plain "b") []]

/-- The paragraph that would be shown if the values were not escaped. -/
def opened : Rendered :=
  mk { Element.plain "p" with
    attrs := [("class", .string "a"), ("title", .string "<b>&"), ("style", .string "color: red"),
      ("lang", .string "<en>&;"), ("alt", .string "y"), ("rel", .string "<z>&"),
      ("hidden", .bool true), ("id", .string "x")] }
    [mk (Element.plain "b") [],
      mk { Element.plain "i" with attrs := [("title", .string "<&>")] } []]

/-- The values of the paragraph end nothing: it is written as the one that shows the same, and not
as the one they would open. -/
theorem html_eq_iff_hostile : hostile.Wordy ∧ restated.Wordy ∧ opened.Wordy ∧
    hostile.html = restated.html ∧ hostile.html ≠ opened.html := by
  have hkids : AllWordy [mk (Element.plain "b") []] :=
    ⟨⟨rfl, by decide, by decide, trivial⟩, trivial⟩
  have hhostile : hostile.Wordy := ⟨rfl, by decide, by decide, trivial⟩
  have hrestated : restated.Wordy := ⟨rfl, by decide, by decide, hkids⟩
  have hopened : opened.Wordy :=
    ⟨rfl, by decide, by decide, hkids.1, ⟨rfl, by decide, by decide, trivial⟩, trivial⟩
  refine ⟨hhostile, hrestated, hopened, (html_eq_iff hhostile hrestated).2 rfl, fun hsame => ?_⟩
  have hreadings : hostile.reading = opened.reading := (html_eq_iff hhostile hopened).1 hsame
  have hshown : hostile.self.shown = opened.self.shown := (Reading.mk.inj hreadings).2.1
  exact absurd hshown (by decide)

end Rendered

end Trellis
