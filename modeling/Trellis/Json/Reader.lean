import Trellis.Json
import Trellis.Decimal.Reader

/-!
# Reading JSON

* `Json.read?`: the document a text holds, repeated members and all.
* `Json.skim?`: the same where only the members of the document itself count. In a text that does
  not count, half of a pair of surrogates may stand alone.
* `Json.parse?`: the same with finite numbers, no deeper than `depthLimit` and repeated members
  settled.
-/

namespace Trellis.Json

/-- The blanks JSON allows between its parts. -/
def isSpace (c : Char) : Bool :=
  c = ' ' || c = '\n' || c = '\t' || c = '\r'

/-- Without the blanks in front. -/
def skip (cs : List Char) : List Char :=
  cs.dropWhile isSpace

/-- The character that stands for half of a pair. -/
def replacement : Char := Char.ofNat 0xFFFD

/-- One escaped character, behind the backslash; in a text that does not count, half of a pair is
one. -/
def readEscape (counts : Bool) : List Char → Option (Char × List Char)
  | '"' :: cs => some ('"', cs)
  | '\\' :: cs => some ('\\', cs)
  | '/' :: cs => some ('/', cs)
  | 'b' :: cs => some (Char.ofNat 8, cs)
  | 'f' :: cs => some (Char.ofNat 12, cs)
  | 'n' :: cs => some ('\n', cs)
  | 'r' :: cs => some ('\r', cs)
  | 't' :: cs => some ('\t', cs)
  | 'u' :: cs => do
    let (unit, cs) ← Text.hexQuad? cs
    if !counts && (Text.isLowUnit unit || Text.isHighUnit unit) then some (replacement, cs)
    else if Text.isLowUnit unit then none
    else if Text.isHighUnit unit then
      match cs with
      | '\\' :: 'u' :: cs =>
        let (low, cs) ← Text.hexQuad? cs
        if Text.isLowUnit low then some (Text.ofUnits unit low, cs) else none
      | _ => none
    else some (Char.ofNat unit, cs)
  | _ => none

/-- The characters up to the closing quote, `acc` holding those before, last one first. -/
def readChars (counts : Bool) : Nat → List Char → List Char → Option (String × List Char)
  | 0, _, _ => none
  | _ + 1, _, [] => none
  | fuel + 1, acc, c :: cs =>
    if c = '"' then some (String.ofList acc.reverse, cs)
    else if c = '\\' then do
      let (e, cs) ← readEscape counts cs
      readChars counts fuel (e :: acc) cs
    else if c.toNat < 32 then none
    else readChars counts fuel (c :: acc) cs

/-- A text behind its opening quote. -/
def readString (counts : Bool) (cs : List Char) : Option (String × List Char) :=
  readChars counts (cs.length + 1) [] cs

/-- A row of digits, at least one. -/
def readDigits (cs : List Char) : Option (List Char × List Char) :=
  match cs.takeWhile Decimal.isDigit with
  | [] => none
  | digits => some (digits, cs.dropWhile Decimal.isDigit)

/-- Digits without a leading zero. -/
def readWhole : List Char → Option (List Char × List Char)
  | '0' :: c :: cs => if Decimal.isDigit c then none else some (['0'], c :: cs)
  | cs => readDigits cs

/-- The digits behind a point, none if there is no point. -/
def readFraction : List Char → Option (List Char × List Char)
  | '.' :: cs => readDigits cs
  | cs => some ([], cs)

/-- An exponent, zero if there is none. -/
def readExponent : List Char → Option (Int × List Char)
  | c :: cs =>
    if c = 'e' ∨ c = 'E' then do
      let (negative, cs) := Decimal.signed cs
      let (digits, cs) ← readDigits cs
      let n : Int := Decimal.ofDigits digits
      some (if negative then -n else n, cs)
    else some (0, c :: cs)
  | [] => some (0, [])

/-- A number. -/
def readNumber (cs : List Char) : Option (Float × List Char) := do
  let (negative, cs) := match cs with
    | '-' :: cs => (true, cs)
    | cs => (false, cs)
  let (whole, cs) ← readWhole cs
  let (fraction, cs) ← readFraction cs
  let (exponent, cs) ← readExponent cs
  let d : Decimal := ⟨Decimal.ofDigits (whole ++ fraction), exponent - fraction.length⟩
  some (d.toFloat negative, cs)

mutual

/-- A document in front of the text. -/
def readValue (counts : Bool) : Nat → List Char → Option (Json × List Char)
  | 0, _ => none
  | fuel + 1, cs =>
    match skip cs with
    | 'n' :: 'u' :: 'l' :: 'l' :: cs => some (null, cs)
    | 't' :: 'r' :: 'u' :: 'e' :: cs => some (bool true, cs)
    | 'f' :: 'a' :: 'l' :: 's' :: 'e' :: cs => some (bool false, cs)
    | '"' :: cs => do
      let (s, cs) ← readString counts cs
      some (string s, cs)
    | '[' :: cs =>
      match skip cs with
      | ']' :: cs => some (array [], cs)
      | cs => do
        let (items, cs) ← readItems counts fuel cs
        some (array items, cs)
    | '{' :: cs =>
      match skip cs with
      | '}' :: cs => some (object [], cs)
      | cs => do
        let (members, cs) ← readMembers counts counts fuel cs
        some (object members, cs)
    | cs => do
      let (x, cs) ← readNumber cs
      some (number x, cs)

/-- Items up to the closing bracket, at least one. -/
def readItems (counts : Bool) : Nat → List Char → Option (List Json × List Char)
  | 0, _ => none
  | fuel + 1, cs => do
    let (j, cs) ← readValue counts fuel cs
    match skip cs with
    | ',' :: cs =>
      let (rest, cs) ← readItems counts fuel cs
      some (j :: rest, cs)
    | ']' :: cs => some ([j], cs)
    | _ => none

/-- Members up to the closing brace, at least one. Their names may count where their values do
not. -/
def readMembers (names counts : Bool) : Nat → List Char → Option (List (String × Json) × List Char)
  | 0, _ => none
  | fuel + 1, cs => do
    match skip cs with
    | '"' :: cs =>
      let (name, cs) ← readString names cs
      match skip cs with
      | ':' :: cs =>
        let (j, cs) ← readValue counts fuel cs
        match skip cs with
        | ',' :: cs =>
          let (rest, cs) ← readMembers names counts fuel cs
          some ((name, j) :: rest, cs)
        | '}' :: cs => some ([(name, j)], cs)
        | _ => none
      | _ => none
    | _ => none

end

/-- As many calls as reading takes: every call but the one behind an opening bracket reads a
character. -/
def readLimit (cs : List Char) : Nat := 2 * cs.length + 2

/-- What was read, if nothing but blanks follows it. -/
def whole? : Option (Json × List Char) → Option Json
  | some (j, rest) => if (skip rest).isEmpty then some j else none
  | none => none

/-- The document a text holds, with blanks around it and nothing else. -/
def read? (text : String) : Option Json :=
  whole? (readValue true (readLimit text.toList) text.toList)

/-- The document a text holds, if only its own members count, and of these only the names. -/
def skim? (text : String) : Option Json :=
  let cs := text.toList
  whole? <| match skip cs with
    | '{' :: body =>
      match skip body with
      | '}' :: rest => some (object [], rest)
      | body => (readMembers true false (readLimit cs) body).map fun (members, rest) =>
        (object members, rest)
    | _ => readValue false (readLimit cs) cs

/-- Documents are nested less deeply than this. -/
def depthLimit : Nat := 128

/-- The document a text holds, if its numbers are finite and its depth is below the limit. -/
def parse? (text : String) : Option Json := do
  let j ← read? text
  if j.isFinite ∧ j.depth < depthLimit then some j.settled else none

end Trellis.Json
