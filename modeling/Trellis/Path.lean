import Trellis.Fault
import Trellis.Text.Blank
import Trellis.Text.Category

/-!
# Binding paths

A path names a member of a namespace, `ns.key.key`, or of what a scoped slot was given,
`ns#slot.key.key`.

* `Path.parse`: reads a path, with blanks around it or without.
* `Path.text`: writes it.
-/

namespace Trellis

/-- A namespace, perhaps one of its slots, and the keys below it. -/
structure Path where
  ns : String
  slot : Option String
  keys : List String
  deriving DecidableEq, Repr

namespace Path

/-- Characters a name may begin with. -/
def isNameStart (c : Char) : Bool :=
  Text.isAsciiLetter c || c = '_' || c = '$'

/-- Characters a name may go on with. -/
def isNamePart (c : Char) : Bool :=
  Text.isWordChar c || c = '$' || c = '-'

/-- The name in front of a text and what follows it. -/
def takeName? : List Char → Option (List Char × List Char)
  | [] => none
  | c :: cs =>
    if isNameStart c then some (c :: cs.takeWhile isNamePart, cs.dropWhile isNamePart) else none

/-- The slot in front of a text, if it begins with the mark of one, and what follows. -/
def takeSlot? : List Char → Option (Option (List Char) × List Char)
  | '#' :: cs => (takeName? cs).map fun (slot, rest) => (some slot, rest)
  | cs => some (none, cs)

/-- Splits a text at its points; the characters of the key being read stand in `key`, last one
first. -/
def splitPoints (key : List Char) : List Char → List (List Char)
  | [] => [key.reverse]
  | c :: cs => if c = '.' then key.reverse :: splitPoints [] cs else splitPoints (c :: key) cs

/-- The keys a text holds, each behind a point and none empty. -/
def takeKeys? : List Char → Option (List (List Char))
  | [] => some []
  | '.' :: cs =>
    let keys := splitPoints [] cs
    if keys.any List.isEmpty then none else some keys
  | _ => none

/-- The path a text without blanks around it spells. -/
def ofChars? (cs : List Char) : Option Path := do
  let (ns, rest) ← takeName? cs
  let (slot, rest) ← takeSlot? rest
  let keys ← takeKeys? rest
  some ⟨String.ofList ns, slot.map String.ofList, keys.map String.ofList⟩

/-- Reads a path. -/
def parse (raw : String) : Except Fault Path :=
  match ofChars? (Text.trim raw.toList) with
  | some path => .ok path
  | none => .error (.invalidPath raw)

/-- The namespace with the slot, as faults name it. -/
def root (p : Path) : String :=
  match p.slot with
  | none => p.ns
  | some slot => p.ns ++ "#" ++ slot

/-- The text of a path. -/
def text (p : Path) : String :=
  p.keys.foldl (fun acc key => acc ++ "." ++ key) p.root

end Path

end Trellis
