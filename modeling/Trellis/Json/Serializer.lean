import Trellis.Json

/-!
# Serializers

What is serialized calls a serializer part by part, and the serializer makes of the calls what it
will. A list or a map is a call in front of its parts, one in front of each of them, and one behind
the last.

* `Json.serialize`: the calls a document makes.
* `Json.builder`: makes a document of the calls.
* `Json.writer`: makes compact text of the calls.
-/

namespace Trellis

/-- A call to a serializer. A list or a map announces its length. -/
inductive Serializer.Call where
  | unit
  | bool (b : Bool)
  | integer (i : Int)
  | real (x : Float)
  | string (s : String)
  | sequence (length : Nat)
  | element
  | endSequence
  | map (length : Nat)
  | entry (name : String)
  | endMap

/-- A serializer: what a call makes of its state, or none if it cannot take the call. -/
abbrev Serializer (σ : Type) : Type := Serializer.Call → σ → Option σ

namespace Json

/-! ### Documents -/

section

variable {σ : Type} (S : Serializer σ)

mutual

/-- The calls of a document. -/
def serialize : Json → σ → Option σ
  | null, s => S .unit s
  | bool b, s => S (.bool b) s
  | number x, s =>
    match Number.whole? x with
    | some i => S (.integer i) s
    | none => S (.real x) s
  | integer i, s => S (.integer i) s
  | string t, s => S (.string t) s
  | array items, s => do
    let s ← S (.sequence items.length) s
    let s ← serializeItems items s
    S .endSequence s
  | object members, s => do
    let s ← S (.map members.length) s
    let s ← serializeMembers members s
    S .endMap s

/-- The calls of each item. -/
def serializeItems : List Json → σ → Option σ
  | [], s => some s
  | j :: rest, s => do
    let s ← S .element s
    let s ← serialize j s
    serializeItems rest s

/-- The calls of each member. -/
def serializeMembers : List (String × Json) → σ → Option σ
  | [], s => some s
  | (name, j) :: rest, s => do
    let s ← S (.entry name) s
    let s ← serialize j s
    serializeMembers rest s

end

end

/-! ### Building a document -/

/-- A list or a map in the making, between its parts or in front of the next one. -/
inductive Open where
  | sequence (items : List Json)
  | element (items : List Json)
  | map (members : Members Json)
  | entry (members : Members Json) (name : String)

/-- A document in the making: what is open of it, the innermost first, and the document when it is
done. -/
structure Builder where
  opened : List Open
  done : Option Json

namespace Builder

/-- Nothing yet. -/
def start : Builder := ⟨[], none⟩

/-- Puts a part where it belongs. A member of a known name replaces the one before. -/
def put (j : Json) : Builder → Option Builder
  | ⟨[], none⟩ => some ⟨[], some j⟩
  | ⟨.element items :: opened, done⟩ => some ⟨.sequence (items ++ [j]) :: opened, done⟩
  | ⟨.entry members name :: opened, done⟩ => some ⟨.map (members.assign name j) :: opened, done⟩
  | _ => none

end Builder

/-- Makes a document of the calls. A number JSON cannot say is null. -/
def builder : Serializer Builder
  | .unit, b => b.put .null
  | .bool c, b => b.put (.bool c)
  | .integer i, b => b.put (.integer i)
  | .real x, b => b.put (if (Binary.ofFloat? x).isSome then .number x else .null)
  | .string s, b => b.put (.string s)
  | .sequence _, ⟨opened, done⟩ => some ⟨.sequence [] :: opened, done⟩
  | .element, ⟨.sequence items :: opened, done⟩ => some ⟨.element items :: opened, done⟩
  | .endSequence, ⟨.sequence items :: opened, done⟩ => Builder.put (.array items) ⟨opened, done⟩
  | .map _, ⟨opened, done⟩ => some ⟨.map [] :: opened, done⟩
  | .entry name, ⟨.map members :: opened, done⟩ => some ⟨.entry members name :: opened, done⟩
  | .endMap, ⟨.map members :: opened, done⟩ => Builder.put (.object members) ⟨opened, done⟩
  | _, _ => none

/-! ### Writing text -/

/-- Where in a list or a map the text ends: behind both brackets if it is announced to be empty, in
front of the first part, or behind a part. -/
inductive Position where
  | empty
  | first
  | rest

/-- Text in the making: what is written, and where it ends in each open list or map, the innermost
first. -/
structure Writer where
  text : String
  opened : List Position

namespace Writer

/-- Nothing yet. -/
def start : Writer := ⟨"", []⟩

/-- Writes a text. -/
def write (w : Writer) (s : String) : Writer :=
  { w with text := w.text ++ s }

/-- Opens a list or a map. An empty one is closed at once. -/
def enter (w : Writer) (left right : String) (length : Nat) : Writer :=
  if length = 0 then ⟨w.text ++ left ++ right, .empty :: w.opened⟩
  else ⟨w.text ++ left, .first :: w.opened⟩

/-- Goes on to the next part, behind a comma if it is not the first. -/
def next : Writer → Option Writer
  | ⟨text, .first :: opened⟩ => some ⟨text, .rest :: opened⟩
  | ⟨text, _ :: opened⟩ => some ⟨text ++ ",", .rest :: opened⟩
  | ⟨_, []⟩ => none

/-- Closes a list or a map, unless it is closed. -/
def leave (right : String) : Writer → Option Writer
  | ⟨text, .empty :: opened⟩ => some ⟨text, opened⟩
  | ⟨text, _ :: opened⟩ => some ⟨text ++ right, opened⟩
  | ⟨_, []⟩ => none

end Writer

/-- Makes compact text of the calls. A number JSON cannot say is null. -/
def writer : Serializer Writer
  | .unit, w => some (w.write "null")
  | .bool b, w => some (w.write (if b then "true" else "false"))
  | .integer i, w => some (w.write (toString i))
  | .real x, w => some (w.write ((Number.real? x).getD "null"))
  | .string s, w => some (w.write (Text.quoted s))
  | .sequence length, w => some (w.enter "[" "]" length)
  | .element, w => w.next
  | .endSequence, w => w.leave "]"
  | .map length, w => some (w.enter "\x7b" "\x7d" length)
  | .entry name, w => w.next.map fun w => w.write (Text.quoted name ++ ":")
  | .endMap, w => w.leave "\x7d"

end Json

end Trellis
