import Trellis.Record
import Trellis.Rendered

/-!
# Picking a node of a tree

A node is picked by walking down places, then by an event it listens to, then by a name it goes by.
The nodes of a tree are in the order in which they begin.
-/

namespace Trellis

/-- How to get to a node. -/
structure Selection where
  places : List Nat
  event : Option String
  name : Option String
  nth : Nat

/-- What picking needs to know of a tree: its parts, and all nodes in it. -/
structure Outline (N : Type) where
  below : N → List N
  all : N → List N
  listens : N → String → Bool
  goesBy : N → String → Bool

namespace Outline

variable {N : Type} (o : Outline N)

/-- Walks down places. -/
def walk : N → List Nat → Option N
  | n, [] => some n
  | n, i :: rest => (o.below n)[i]?.bind fun m => walk m rest

/-- The node of that number among those that pass, if there is a test. -/
def among (test : Option (N → Bool)) (nth : Nat) (n : N) : Option N :=
  match test with
  | none => some n
  | some passes => ((o.all n).filter passes)[nth]?

/-- Picks a node. -/
def pick (s : Selection) (n : N) : Option N := do
  let n ← o.walk n s.places
  let n ← o.among (s.event.map fun event m => o.listens m event) s.nth n
  o.among (s.name.map fun name m => o.goesBy m name) s.nth n

end Outline

namespace Rendered

mutual

/-- A tree and all trees in it. -/
def all : Rendered → List Rendered
  | mk e kids => mk e kids :: allOf kids

/-- All trees in some. -/
def allOf : List Rendered → List Rendered
  | [] => []
  | n :: rest => all n ++ allOf rest

end

/-- Elements go by their tags. -/
def outline : Outline Rendered where
  below := children
  all := all
  listens n event := Members.has n.self.listeners event
  goesBy n name := n.self.tag = name

end Rendered

namespace Record

mutual

/-- A record and all records in it. -/
def all : Record → List Record
  | mk r ns => mk r ns :: allOf ns

/-- All records in some. -/
def allOf : List Record → List Record
  | [] => []
  | n :: rest => all n ++ allOf rest

end

/-- The name a subject goes by. -/
def subjectName {C : Type} : Subject C → String
  | .registered name _ => name
  | .tag name => name
  | .inline _ => "inline"

/-- Records go by the names of their subjects. -/
def outline : Outline Record where
  below := nodes
  all := all
  listens n event :=
    Members.has n.request.traits.on event || Members.has n.request.traits.nativeOn event
  goesBy n name := subjectName n.request.subject = name

end Record

end Trellis
