import Trellis.Value

/-!
# Class lists

Class names in the order of first mention, each on or off as the last mention says.
-/

namespace Trellis

/-- Class names with their states. -/
abbrev ClassList := Members Bool

namespace ClassList

mutual

/-- Merges a class value: the words of a text are on, a member is on if its value counts as true,
the items of an array are merged in turn, and any other value mentions no class. -/
def merge (classes : ClassList) : Value → ClassList
  | .string s => (Text.words s).foldl (fun acc name => Members.assign acc name true) classes
  | .array items => mergeItems classes items
  | .object members =>
    members.foldl (fun acc m => Members.assign acc m.1 m.2.truthy) classes
  | _ => classes

/-- Merges each item in turn. -/
def mergeItems (classes : ClassList) : List Value → ClassList
  | [] => classes
  | v :: rest => mergeItems (merge classes v) rest

end

/-- The names that are on, in order. -/
def active (classes : ClassList) : List String :=
  (classes.filter Prod.snd).map Prod.fst

end ClassList

end Trellis
