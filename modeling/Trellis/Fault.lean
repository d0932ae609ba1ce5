/-!
# Faults

What can go wrong, and the words for it. A fault is raised to whoever asked for the value, the
render or the call, and nothing recovers from it.
-/

namespace Trellis

/-- The ways in which reading, evaluating and building can fail. -/
inductive Fault where
  | namespaceMissing (ns : String)
  | keyMissing (ns key : String)
  | slotMissing (ns slot : String)
  | undefinedName (name : String)
  | malformedExpression (source : String)
  | unsupported (construct : String)
  | wrongType (message : String)
  | notCallable (what : String)
  | invalidPath (path : String)
  | notIterable (found : String)
  | invalidSchema (message : String)
  | released
  | invalidJson
  | callsTooDeep
  deriving DecidableEq, Repr

namespace Fault

/-- The words for a fault. -/
def message : Fault → String
  | namespaceMissing ns => "Namespace " ++ ns ++ " does not exist"
  | keyMissing ns key => "Key " ++ key ++ " does not exist in namespace " ++ ns
  | slotMissing ns slot => "Scoped slot " ++ ns ++ "#" ++ slot ++ " does not exist"
  | undefinedName name => name ++ " is not defined"
  | malformedExpression source => "Invalid expression syntax in '" ++ source ++ "'"
  | unsupported construct => "Unsupported expression construct: " ++ construct
  | wrongType text => "Type error: " ++ text
  | notCallable what => what ++ " is not a function"
  | invalidPath path => "Invalid binding path '" ++ path ++ "'"
  | notIterable found => "Loop source must be an array or an object, found " ++ found
  | invalidSchema text => "Invalid schema: " ++ text
  | released => "Scope was released by a later render pass"
  | invalidJson => "Invalid JSON"
  | callsTooDeep => "Calls are nested too deeply"

end Fault

end Trellis
