import Trellis.Members
import Trellis.Decimal.Layout
import Trellis.Text.Quoted

/-!
# JSON

Documents and their compact text.

* `Json.text`: no blanks, members in order.
* `Json.settled`: of repeated members the first place and the last value stay.
-/

namespace Trellis

/-- A JSON document. Numbers that are read are floats; a value writes its whole numbers as
integers. -/
inductive Json where
  | null
  | bool (b : Bool)
  | number (x : Float)
  | integer (i : Int)
  | string (s : String)
  | array (items : List Json)
  | object (members : List (String × Json))
  deriving Inhabited

namespace Json

/-- Texts in order with commas between them. -/
def commas (texts : List String) : String :=
  ",".intercalate texts

mutual

/-- The compact text of a document. A number JSON cannot say is written as `null`. -/
def text : Json → String
  | null => "null"
  | bool b => if b then "true" else "false"
  | number x => (Number.json? x).getD "null"
  | integer i => toString i
  | string s => Text.quoted s
  | array items => "[" ++ commas (itemTexts items) ++ "]"
  | object members => "\x7b" ++ commas (memberTexts members) ++ "\x7d"

/-- The text of each item. -/
def itemTexts : List Json → List String
  | [] => []
  | j :: rest => text j :: itemTexts rest

/-- The text of each member behind its quoted name. -/
def memberTexts : List (String × Json) → List String
  | [] => []
  | (name, j) :: rest => (Text.quoted name ++ ":" ++ text j) :: memberTexts rest

end

mutual

/-- How many arrays and objects are nested in each other at most. -/
def depth : Json → Nat
  | array items => itemsDepth items + 1
  | object members => membersDepth members + 1
  | _ => 0

/-- The depth of the deepest item. -/
def itemsDepth : List Json → Nat
  | [] => 0
  | j :: rest => max (depth j) (itemsDepth rest)

/-- The depth of the deepest member. -/
def membersDepth : List (String × Json) → Nat
  | [] => 0
  | (_, j) :: rest => max (depth j) (membersDepth rest)

end

mutual

/-- Whether every number is finite. -/
def isFinite : Json → Bool
  | number x => (Binary.ofFloat? x).isSome
  | array items => itemsFinite items
  | object members => membersFinite members
  | _ => true

/-- Whether every number in the items is finite. -/
def itemsFinite : List Json → Bool
  | [] => true
  | j :: rest => isFinite j && itemsFinite rest

/-- Whether every number in the members is finite. -/
def membersFinite : List (String × Json) → Bool
  | [] => true
  | (_, j) :: rest => isFinite j && membersFinite rest

end

mutual

/-- Settles repeated members: the first keeps its place, the last gives the value. -/
def settled : Json → Json
  | array items => array (settledItems items)
  | object members => object (Members.ofList (settledMembers members))
  | j => j

/-- Each item settled. -/
def settledItems : List Json → List Json
  | [] => []
  | j :: rest => settled j :: settledItems rest

/-- Each member settled. -/
def settledMembers : List (String × Json) → List (String × Json)
  | [] => []
  | (name, j) :: rest => (name, settled j) :: settledMembers rest

end

/-- The member of an object. -/
def member? : Json → String → Option Json
  | object members, name => Members.get? members name
  | _, _ => none

end Json

end Trellis
