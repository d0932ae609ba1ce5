import Trellis.Fault
import Trellis.Value

/-!
# Iterations

The source of a loop is a sequence, walked from its first item, or an object, walked in the order
of its members.
-/

namespace Trellis

/-- One turn of a loop: its number from zero, the item, and the name of the member, null in a
sequence. -/
structure Iteration where
  index : Nat
  value : Value
  key : Value

namespace Iteration

/-- Iterations over keyed items, numbered from `index`. -/
def numbered : Nat → List (Value × Value) → List Iteration
  | _, [] => []
  | index, (key, value) :: rest => ⟨index, value, key⟩ :: numbered (index + 1) rest

/-- The iterations over a source. -/
def ofSource : Value → Except Fault (List Iteration)
  | .array items => .ok (numbered 0 (items.map fun v => (.null, v)))
  | .object members => .ok (numbered 0 (members.map fun m => (.string m.1, m.2)))
  | v => .error (.notIterable v.kind)

/-- The value the loop's body sees. -/
def toValue (i : Iteration) : Value :=
  .object [("index", .ofNat i.index), ("value", i.value), ("key", i.key)]

end Iteration

end Trellis
