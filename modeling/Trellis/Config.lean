import Trellis.Fault
import Trellis.Json.Reader

/-!
# Configuration

One switch: whether expressions are evaluated. It is off unless it is turned on, and then a bound
expression stands for its own text.
-/

namespace Trellis

/-- The options of the interpreter. -/
structure Config where
  expressions : Bool
  deriving DecidableEq, Repr

namespace Config

/-- Expressions stay text. -/
def default : Config := ⟨false⟩

/-- The two names of the switch; the first is the one that is written. -/
def switchNames : List String := ["enableExpressionExecution", "enableJsExecution"]

/-- The options members give: the switch at most once under either name, other members being
anything. -/
def ofMembers? (members : List (String × Json)) : Option Config :=
  match members.filter (fun m => switchNames.contains m.1) with
  | [] => some default
  | [(_, .bool b)] => some ⟨b⟩
  | _ => none

/-- The options a document gives, by name or by position. -/
def ofJson? : Json → Option Config
  | .object members => ofMembers? members
  | .array [] => some default
  | .array [.bool b] => some ⟨b⟩
  | _ => none

/-- Reads the options. -/
def parse (text : String) : Except Fault Config :=
  match (Json.skim? text).bind ofJson? with
  | some config => .ok config
  | none => .error .invalidJson

/-- The options as a document. -/
def toJson (config : Config) : Json :=
  .object (switchNames.take 1 |>.map fun name => (name, .bool config.expressions))

end Config

end Trellis
