import Trellis.Script.Cursor

/-!
# The grammar of expressions

The rules by which a source is read, as JavaScript has them in modules. A rule refers to the others
through a table, `Rules`, and the table is made in stages: the rules of stage `n + 1` refer to those
of stage `n`. Every token takes less than a fixed number of stages, so the length of the source says
how many are enough.

* `Syntax.parse?`: the expression a source begins with, if all that is read of it is well formed.
  What follows the expression is not looked at beyond its first token.
-/

namespace Trellis.Script

/-- The rules others refer to. -/
inductive Rule where
  | expression
  | assignment
  | binary (level : Nat)
  | unary
  | leftHand
  | primary
  | pattern
  | statement (single : Bool)

/-- What a rule reads. -/
@[reducible] def Rule.Result : Rule → Type
  | pattern => List Part
  | statement _ => Statement
  | _ => Syntax

/-- A table of rules. -/
abbrev Rules := (rule : Rule) → Parser rule.Result

open Trellis.Script.Parser

namespace Grammar

variable (rules : Rules)

/-! ## Names and keys -/

/-- A word that may be a name here. -/
def nameAllowed (context : Context) (word : String) : Bool :=
  !isReserved word && !(context.await && word == "await") && !(context.yield && word == "yield")

/-- A name. -/
def name : Parser String := do
  match ← token with
  | .word w _ =>
    require (nameAllowed (← get).context w)
    advance
    return w
  | _ => failure

/-- Whether a name could be at hand. -/
def isAtName : Parser Bool := do
  match ← token with
  | .word w _ => return !isReserved w
  | _ => return false

/-- Whether the key of a member could be at hand. -/
def isAtKey : Parser Bool := do
  match ← token with
  | .word _ _ | .privateWord _ | .string _ | .number _ | .bigint => return true
  | .mark m => return m == "["
  | _ => return false

/-- The key of a member. -/
inductive Key where
  | text (name : String)
  | computed (parts : List Part)
  | opaqueText (span : Span)

/-- The parts of a key. -/
def Key.parts : Key → List Part
  | computed parts => parts
  | _ => []

/-- Reads the key of a member; a private name only where it is allowed. -/
def key (privateAllowed : Bool) : Parser Key := do
  let start ← here
  match ← token with
  | .word w _ =>
    advance
    return .text w
  | .string s =>
    advance
    return .text s
  | .number x =>
    advance
    return .text (Number.text x)
  | .bigint =>
    advance
    return .opaqueText (← spanFrom start)
  | .privateWord _ =>
    require privateAllowed
    advance
    return .opaqueText (← spanFrom start)
  | .mark "[" =>
    advance
    let e ← withIn (rules .assignment)
    expect "]"
    return .computed [.expression e]
  | _ => failure

/-- An initial value behind an equals sign, if there is one. -/
def initial : Parser (Option Syntax) := do
  if ← eat "=" then
    return some (← withIn (rules .assignment))
  else return none

/-! ## Places to assign to -/

/-- What can be assigned to by itself. -/
def simplePlace? : Syntax → Option Place
  | .name id => some (.name id)
  | .member object key => some (.member object key)
  | .index object key => some (.index object key)
  | .paren inner => simplePlace? inner
  | _ => none

mutual

/-- Checks that an expression can be read as a pattern, perhaps with a default, and lists the
shorthands with defaults that are right in it. A default was read as an assignment already. -/
def cover (default : Bool) : Syntax → Option (List Nat)
  | .array items => coverItems items
  | .object entries => coverEntries entries
  | .assign _ op _ _ => if default && op == "=" then some [] else none
  | e => (simplePlace? e).map fun _ => []

/-- Checks the items of an array pattern; only the last may take the rest, and no comma follows
it. -/
def coverItems : List Syntax → Option (List Nat)
  | [] => some []
  | .hole _ :: rest => coverItems rest
  | .spread _ argument comma :: rest =>
    if rest.isEmpty && !comma then cover false argument else none
  | e :: rest => do
    let here ← cover true e
    let there ← coverItems rest
    return here ++ there

/-- Checks the entries of an object pattern; only the last may take the rest. -/
def coverEntries : List Entry → Option (List Nat)
  | [] => some []
  | .keyed _ value :: rest => do
    let here ← cover true value
    let there ← coverEntries rest
    return here ++ there
  | .defaulted span _ _ :: rest => do
    let there ← coverEntries rest
    return span.start :: there
  | .foreign _ parts :: rest => do
    let here ← coverForeign rest.isEmpty parts
    let there ← coverEntries rest
    return here ++ there

/-- Checks an entry with a computed key, or one that takes the rest. -/
def coverForeign (last : Bool) : List Part → Option (List Nat)
  | [.expression (.spread _ argument comma)] =>
    if last && !comma then (simplePlace? argument).map fun _ => [] else none
  | [.expression _, .expression value] => cover true value
  | [.expression value] => cover true value
  | _ => none

end

/-- The place an expression in front of an equals sign is, and the shorthands it takes up. -/
def place? (span : Span) (e : Syntax) : Option (Place × List Nat) :=
  match e with
  | .array _ => (cover false e).map fun taken => (.foreign span [.expression e], taken)
  | .object _ => (cover false e).map fun taken => (.foreign span [.expression e], taken)
  | e => (simplePlace? e).map fun p => (p, [])

/-- Reads an expression as a place, and takes up its shorthands. -/
def asPlace (span : Span) (e : Syntax) : Parser Place := do
  match place? span e with
  | some (p, taken) =>
    modify fun c => { c with pending := c.pending.filter fun n => !taken.contains n }
    return p
  | none => failure

/-! ## Patterns and parameters -/

/-- An item of a pattern with its default. -/
def patternItem : Parser (List Part) := do
  let parts ← rules .pattern
  return parts ++ Part.ofOption (← initial rules)

/-- What takes the rest, behind its three points, up to the closing mark. It has no default, no
comma follows it, and in an object it is a name; but all that is seen only later. -/
def patternRest (close : String) : Parser (List Part) := do
  let named ← isAtName
  let parts ← rules .pattern
  let default ← initial rules
  let comma ← eat ","
  flawIf (default.isSome || comma || (close == "\x7d" && !named))
  require (← isAt close)
  return parts ++ Part.ofOption default

/-- An item of an array pattern. -/
def arrayPatternItem : Parser (List Part) := do
  if ← isAt "," then return []
  if ← eat "..." then patternRest rules "]"
  else patternItem rules

/-- A member of an object pattern. -/
def objectPatternItem : Parser (List Part) := do
  if ← eat "..." then patternRest rules "\x7d"
  else
    let shorthand ← isAtName
    let k ← key rules false
    if ← eat ":" then
      return k.parts ++ (← patternItem rules)
    else
      match k with
      | .text w =>
        require (shorthand && nameAllowed (← get).context w)
        return .binder w :: Part.ofOption (← initial rules)
      | _ => failure

/-- A pattern: a name, or an array or object of patterns. -/
def pattern : Parser (List Part) := do
  if ← eat "[" then
    return (← delimited "]" (arrayPatternItem rules)).flatten
  else if ← eat "\x7b" then
    return (← delimited "\x7d" (objectPatternItem rules)).flatten
  else return [.binder (← name)]

/-- A parameter. -/
def param : Parser Param := do
  let start ← here
  if ← isAtName then
    let id ← name
    return .name id (← initial rules)
  else
    let parts ← patternItem rules
    return .pattern (← spanFrom start) parts

/-- Parameters up to the closing parenthesis, and the one that takes the rest. -/
def params : Parser (List Param × Option (List Part)) := do
  let read ← delimited ")" do
    if ← eat "..." then
      return Sum.inr (← patternRest rules ")")
    else
      return Sum.inl (← param rules)
  return (read.filterMap Sum.getLeft?, (read.filterMap Sum.getRight?).head?)

/-! ## Functions -/

/-- Leaves out the directives in front of a body. -/
def withoutDirectives : List Statement → List Statement
  | .expression (.literal (.string _)) :: rest => withoutDirectives rest
  | body => body

/-- Statements up to a closing brace. -/
def statementsToBrace : Parser (List Statement) :=
  many do
    if ← eat "\x7d" then return none
    return some (← rules (.statement false))

/-- Statements between braces. -/
def braces : Parser (List Statement) := do
  expect "\x7b"
  statementsToBrace rules

/-- The body of a function between braces. -/
def functionBody : Parser (List Statement) := do
  expect "\x7b"
  let body ← within (fun c => { c with isIn := true, leave := true }) (statementsToBrace rules)
  return withoutDirectives body

/-- The context of a function's own text. -/
def functionContext (isAsync isGenerator : Bool) (c : Context) : Context :=
  { c with await := isAsync, yield := isGenerator }

/-- The parts of parameters in the order in which they are read. -/
def paramParts (read : List Param × Option (List Part)) : List Part :=
  read.1.flatMap Param.parts ++ read.2.getD []

/-- The parameters and the body of a function, from its opening parenthesis on; also how many
parameters there are, none if one takes the rest. -/
def functionTail (isAsync isGenerator : Bool) : Parser (List Part × Option Nat) := do
  expect "("
  within (functionContext isAsync isGenerator) do
    let read ← params rules
    let body ← functionBody rules
    let count := if read.2.isSome then none else some read.1.length
    return (paramParts read ++ body.map .statement, count)

/-- A function behind the word for it. A name is required in a statement. -/
def functionParts (isAsync required : Bool) : Parser (List Part) := do
  let isGenerator ← eat "*"
  let named ← isAtName
  require (named || !required)
  let id ← if named then
      (if required then do return [Part.binder (← name)]
      else within (functionContext isAsync isGenerator) do return [Part.binder (← name)])
    else pure []
  let (parts, _) ← functionTail rules isAsync isGenerator
  return id ++ parts

/-- A function expression, behind `async` if it is one. -/
def functionExpression (start : Nat) (isAsync : Bool) : Parser Syntax := do
  expectWord "function"
  let parts ← functionParts rules isAsync false
  return .foreign (← spanFrom start) parts

/-- The body of an arrow. -/
def arrowBody (isAsync : Bool) : Parser Block :=
  within (fun c => { c with await := isAsync, yield := false }) do
    if ← isAt "\x7b" then
      return .statements (← functionBody rules)
    else
      return .expression (← rules .assignment)

/-- The arrow itself. A line must not end before it, but that is seen only later. -/
def arrowMark : Parser Unit := do
  flawIf (← afterBreak)
  expect "=>"

/-- An arrow whose parameters stand in parentheses, up to its body. -/
def arrowHead (isAsync : Bool) : Parser (List Param × Option (List Part)) := do
  if isAsync then advance
  expect "("
  let read ← within (fun c => { c with await := c.await || isAsync }) (params rules)
  arrowMark
  return read

/-- An arrow from its body on. -/
def arrowTail (start : Nat) (isAsync : Bool) (read : List Param × Option (List Part)) :
    Parser Syntax := do
  let body ← arrowBody rules isAsync
  return .arrow (← spanFrom start) isAsync read.1 read.2 body

/-- Whether what follows an opening parenthesis could be the parameters of an arrow. -/
def couldBeParams : Parser Bool := do
  advance
  if (← isAt ")") || (← isAt "[") || (← isAt "\x7b") || (← isAt "...") then return true
  if ← isAtName then
    advance
    return (← isAt ",") || (← isAt "=") || (← isAt ")")
  else return false

/-- An arrow with parentheses, if one is at hand. -/
def parenthesizedArrow : Parser (Option Syntax) := do
  let start ← here
  let isAsync ← ahead do
    expectWord "async"
    return (← isAt "(") && !(← afterBreak)
  let possible ← ahead do
    if isAsync then advance
    require (← isAt "(")
    couldBeParams
  if possible then
    match ← attempt (arrowHead rules isAsync) with
    | some read => return some (← arrowTail rules start isAsync read)
    | none => return none
  else return none

/-- An asynchronous arrow with a single name for its parameters, if one is at hand. -/
def asyncArrow : Parser (Option Syntax) := do
  let start ← here
  let possible ← ahead do
    expectWord "async"
    if (← afterBreak) || !(← isAtName) then return false
    advance
    return (← isAt "=>") && !(← afterBreak)
  if possible then
    advance
    let id ← within (fun c => { c with await := true }) name
    arrowMark
    return some (← arrowTail rules start true ([.name id none], none))
  else return none

/-! ## Classes -/

/-- A field of a class behind its key. -/
def classField (k : Key) : Parser (List Part) := do
  let value ← within (fun c => { c with await := false, yield := false }) (initial rules)
  semicolon
  return k.parts ++ Part.ofOption value

/-- A method behind its key. -/
def classMethod (k : Key) (isAsync isGenerator : Bool) : Parser (List Part) := do
  let (parts, _) ← functionTail rules isAsync isGenerator
  return k.parts ++ parts

/-- Whether a word is at hand as a modifier, with a key behind it. -/
def isModifier (word : String) (sameLine star : Bool) : Parser Bool :=
  ahead do
    expectWord word
    if sameLine && (← afterBreak) then return false
    return (← isAtKey) || (star && (← isAt "*"))

/-- What stands behind at-signs in front of a class or one of its members. -/
def decorators : Parser (List Part) :=
  many do
    if ← eat "@" then return some (.expression (← rules .leftHand))
    return none

/-- A member of a class behind its decorators. -/
def classMember : Parser (List Part) := do
  if ← eat ";" then return []
  let isBlock ← ahead do
    expectWord "static"
    isAt "\x7b"
  if isBlock then
    advance
    let body ← within
      (fun c => { c with await := true, yield := false, leave := false, isIn := true })
      (braces rules)
    return body.map .statement
  if ← isModifier "static" false true then advance
  if ← isModifier "accessor" true false then
    advance
    classField rules (← key rules true)
  else
    let accessor ← if ← isModifier "get" false false then pure true
      else isModifier "set" false false
    if accessor then
      advance
      classMethod rules (← key rules true) false false
    else
      let isAsync ← isModifier "async" true true
      if isAsync then advance
      let isGenerator ← eat "*"
      let k ← key rules true
      if isAsync || isGenerator || (← isAt "(") then classMethod rules k isAsync isGenerator
      else classField rules k

/-- A class behind the word for it. A name is required in a statement. -/
def classParts (required : Bool) : Parser (List Part) := do
  let named ← isAtName
  require (named || !required)
  let id ← if named then do pure [Part.binder (← name)] else pure []
  let heritage ← if ← eatWord "extends" then do
      pure [Part.expression (← rules .leftHand)]
    else pure []
  expect "\x7b"
  let members ← many do
    if ← eat "\x7d" then return none
    let before ← decorators rules
    return some (before ++ (← classMember rules))
  return id ++ heritage ++ members.flatten

/-- A class expression. -/
def classExpression : Parser Syntax := do
  let start ← here
  let before ← decorators rules
  expectWord "class"
  let parts ← classParts rules false
  return .foreign (← spanFrom start) (before ++ parts)

/-! ## Primary expressions -/

/-- What a token alone stands for. -/
def single (e : Syntax) : Parser Syntax := do
  advance
  return e

/-- A form of ours that has no value of its own. -/
def foreignSince (start : Nat) (parts : List Part) : Parser Syntax := do
  return .foreign (← spanFrom start) parts

/-- The pieces of a template and the expressions between them, behind its first piece. -/
def templateParts : Parser (List (Syntax × Option String)) := do
  let finished ← do
    match ← token with
    | .template _ closed => pure closed
    | _ => failure
  if finished then
    advance
    return []
  advance
  let rec pieces : Nat → Parser (List (Syntax × Option String))
    | 0 => failure
    | fuel + 1 => do
      let e ← withIn (rules .expression)
      require (← isAt "\x7d")
      let c ← get
      install (Source.templatePiece? (← read) c.current.start c.current.stop false)
      match ← token with
      | .template text closed =>
        advance
        if closed then return [(e, text)]
        return (e, text) :: (← pieces fuel)
      | _ => failure
  pieces (← limit)

/-- The text of the template piece at hand. -/
def pieceText : Parser (Option String) := do
  match ← token with
  | .template text _ => return text
  | _ => failure

/-- The pieces of a template, all of which must have a text. -/
def cooked? : List (Syntax × Option String) → Option (List (Syntax × String))
  | [] => some []
  | (e, some text) :: rest => (cooked? rest).map ((e, text) :: ·)
  | (_, none) :: _ => none

/-- A template. -/
def template : Parser Syntax := do
  match ← pieceText with
  | none => failure
  | some head =>
    match cooked? (← templateParts rules) with
    | some parts => return .template head parts
    | none => failure

/-- A template behind a tag. -/
def tagged (start : Nat) (tag : Syntax) : Parser Syntax := do
  let parts ← templateParts rules
  foreignSince start (.expression tag :: parts.map fun p => .expression p.1)

/-- An item of an array or an argument of a call. -/
def argument : Parser Syntax := do
  let start ← here
  if ← eat "..." then
    let e ← rules .assignment
    return .spread (← spanFrom start) e (← isAt ",")
  else rules .assignment

/-- The arguments of a call behind the opening parenthesis. -/
def arguments : Parser (List Syntax) :=
  withIn (delimited ")" (argument rules))

/-- An array behind its opening bracket. -/
def array : Parser Syntax := do
  let items ← withIn <| many do
    if ← eat "]" then return none
    let start ← here
    if ← eat "," then
      return some (.hole (← spanFrom start))
    let e ← argument rules
    unless ← isAt "]" do expect ","
    return some e
  return .array items

/-- A parenthesized expression behind its opening parenthesis. -/
def parenthesized : Parser Syntax := do
  let e ← withIn (rules .expression)
  expect ")"
  return .paren e

/-- A method of an object, from its opening parenthesis on. A getter has no parameter and a setter
one. -/
def objectMethod (start : Nat) (k : Key) (isAsync isGenerator : Bool) (count : Option Nat) :
    Parser Entry := do
  let opening ← here
  let (parts, given) ← functionTail rules isAsync isGenerator
  require (count.isNone || given == count)
  let method := Syntax.foreign (← spanFrom opening) parts
  match k with
  | .text w => return .keyed w method
  | .opaqueText span => return .foreign span [.expression method]
  | .computed ps => return .foreign (← spanFrom start) (ps ++ [.expression method])

/-- A member of an object whose key is a name, or a key and a value. -/
def objectValue (start : Nat) (k : Key) (shorthand : Bool) : Parser Entry := do
  if ← eat ":" then
    let value ← rules .assignment
    match k with
    | .text w => return .keyed w value
    | .opaqueText span => return .foreign span [.expression value]
    | .computed ps => return .foreign (← spanFrom start) (ps ++ [.expression value])
  else
    match k with
    | .text w =>
      require (shorthand && nameAllowed (← get).context w)
      if ← eat "=" then
        modify fun c => { c with pending := start :: c.pending }
        let value ← rules .assignment
        return .defaulted (← spanFrom start) w value
      else return .keyed w (.name w)
    | _ => failure

/-- A member of an object. -/
def objectEntry : Parser Entry := do
  let start ← here
  if ← eat "..." then
    let e ← rules .assignment
    let span ← spanFrom start
    return .foreign span [.expression (.spread span e (← isAt ","))]
  if ← isModifier "get" false false then
    advance
    objectMethod rules start (← key rules false) false false (some 0)
  else if ← isModifier "set" false false then
    advance
    objectMethod rules start (← key rules false) false false (some 1)
  else
    let isAsync ← isModifier "async" true true
    if isAsync then advance
    let isGenerator ← eat "*"
    let shorthand ← isAtName
    let k ← key rules false
    if isAsync || isGenerator || (← isAt "(") then
      objectMethod rules start k isAsync isGenerator none
    else objectValue rules start k shorthand

/-- An object behind its opening brace. -/
def object : Parser Syntax := do
  return .object (← withIn (delimited "\x7d" (objectEntry rules)))

/-- A regular expression. The slash at hand begins it. -/
def regex : Parser Syntax := do
  let start ← here
  install (Source.regex? (← read) start (← afterBreak))
  advance
  foreignSince start []

/-- What `import` begins: a call, perhaps in a phase, or a word behind a point. -/
def importExpression : Parser Syntax := do
  let start ← here
  advance
  let point ← eat "."
  if point && (← eatWord "meta") then foreignSince start []
  else
    require (!point || (← eatWord "source") || (← eatWord "defer"))
    expect "("
    let items ← withIn (delimited ")" (rules .assignment))
    require (items.length == 1 || items.length == 2)
    foreignSince start (items.map .expression)

/-- Whether a call of `import` is at hand. -/
def isAtImportCall : Parser Bool :=
  ahead do
    expectWord "import"
    if ← eat "." then return !(← isAtWord "meta")
    return true

/-- What `super` begins. -/
def superExpression : Parser Syntax := do
  let start ← here
  advance
  require ((← isAt "(") || (← isAt ".") || (← isAt "["))
  foreignSince start []

/-- Whether a function expression behind `async` is at hand. -/
def isAtAsyncFunction : Parser Bool :=
  ahead do
    expectWord "async"
    return (← isAtWord "function") && !(← afterBreak)

/-- What a word begins. -/
def wordExpression (w : String) (escaped : Bool) : Parser Syntax := do
  let start ← here
  if escaped then return .name (← name)
  match w with
  | "true" => single (.literal (.bool true))
  | "false" => single (.literal (.bool false))
  | "null" => single (.literal .null)
  | "this" =>
    advance
    foreignSince start []
  | "function" => functionExpression rules start false
  | "class" => classExpression rules
  | "super" => superExpression
  | "import" => importExpression rules
  | "async" =>
    if ← isAtAsyncFunction then
      advance
      functionExpression rules start true
    else return .name (← name)
  | _ => return .name (← name)

/-! ## Members, calls and `new` -/

/-- What follows an expression: members, and where they are allowed calls and optional members. The
answer says whether any was optional. -/
def suffixes (start : Nat) (calls : Bool) : Nat → Bool → Syntax → Parser (Syntax × Bool)
  | 0, _, _ => failure
  | fuel + 1, optional, e => do
    match ← token with
    | .mark "." =>
      advance
      match ← token with
      | .word w _ =>
        advance
        suffixes start calls fuel optional (.member e w)
      | .privateWord _ =>
        advance
        suffixes start calls fuel optional (← foreignSince start [.expression e])
      | _ => failure
    | .mark "?." =>
      require calls
      advance
      match ← token with
      | .word w _ =>
        advance
        suffixes start calls fuel true (.member e w)
      | .privateWord _ =>
        advance
        suffixes start calls fuel true (← foreignSince start [.expression e])
      | .mark "[" =>
        advance
        let k ← withIn (rules .expression)
        expect "]"
        suffixes start calls fuel true (.index e k)
      | .mark "(" =>
        advance
        let args ← arguments rules
        suffixes start calls fuel true (.call e args)
      | _ => failure
    | .mark "[" =>
      advance
      let k ← withIn (rules .expression)
      expect "]"
      suffixes start calls fuel optional (.index e k)
    | .mark "(" =>
      if calls then
        advance
        let args ← arguments rules
        suffixes start calls fuel optional (.call e args)
      else return (e, optional)
    | .template _ _ =>
      require (!optional)
      suffixes start calls fuel optional (← tagged rules start e)
    | _ => return (e, optional)

/-- What `new` begins. -/
def newExpression : Parser Syntax := do
  let start ← here
  advance
  if ← eat "." then
    expectWord "target"
    foreignSince start []
  else
    let calleeStart ← here
    let imported ← isAtImportCall
    let base ← rules .primary
    let stop := (← get).previousStop
    let (callee, _) ← suffixes rules calleeStart false (← limit) false base
    require (!imported || stop < (← get).previousStop)
    let args ← if ← eat "(" then arguments rules else pure []
    foreignSince start (.expression callee :: args.map .expression)

/-- An expression without suffixes. -/
def primary : Parser Syntax := do
  match ← token with
  | .word w escaped =>
    if w == "new" && !escaped then newExpression rules else wordExpression rules w escaped
  | .number x => single (.literal (.number x))
  | .string s => single (.literal (.string s))
  | .bigint =>
    let start ← here
    advance
    foreignSince start []
  | .template _ _ => template rules
  | .mark "(" =>
    advance
    parenthesized rules
  | .mark "[" =>
    advance
    array rules
  | .mark "\x7b" =>
    advance
    object rules
  | .mark "/" => regex
  | .mark "/=" => regex
  | .mark "@" => classExpression rules
  | _ => failure

/-- An expression with its members and calls. If any of them is optional, all are one form. -/
def leftHand : Parser Syntax := do
  let start ← here
  let base ← rules .primary
  let (e, optional) ← suffixes rules start true (← limit) false base
  if optional then foreignSince start [.expression e] else return e

/-! ## Operators -/

/-- The operators in front of their operand. -/
def isUnaryMark (m : String) : Bool :=
  ["!", "~", "+", "-"].contains m

/-- The operators in front of their operand that are words. -/
def isUnaryWord (w : String) : Bool :=
  ["typeof", "void", "delete"].contains w

/-- Whether `await` is at hand as an operator. Outside of its context it is one if an operand
follows, and then it is wrong. -/
def isAtAwait : Parser Bool := do
  if ← isAtWord "await" then
    if (← get).context.await then return true
    ahead do
      advance
      if ← afterBreak then return false
      match ← token with
      | .word _ _ | .number _ | .bigint | .string _ => return true
      | _ => return false
  else return false

/-- An operand that can be assigned to. -/
def requirePlace (e : Syntax) : Parser Unit :=
  require (simplePlace? e).isSome

/-- An operator and its operand. -/
def unaryOperation (op : String) : Parser Syntax := do
  let start ← here
  advance
  let e ← rules .unary
  return .unary (← spanFrom start) op e

/-- An expression, perhaps behind or in front of an operator with one operand. -/
def unary : Parser Syntax := do
  let start ← here
  if ← isAtAwait then
    require (← get).context.await
    advance
    let e ← rules .unary
    foreignSince start [.expression e]
  else
    match ← token with
    | .mark m =>
      if isUnaryMark m then unaryOperation rules m
      else if m == "++" || m == "--" then
        advance
        let e ← rules .unary
        requirePlace e
        foreignSince start [.expression e]
      else updated start
    | .word w escaped =>
      if isUnaryWord w && !escaped then unaryOperation rules w else updated start
    | _ => updated start
where
  /-- An expression, perhaps with an update behind it. -/
  updated (start : Nat) : Parser Syntax := do
    let e ← rules .leftHand
    if ((← isAt "++") || (← isAt "--")) && !(← afterBreak) then
      requirePlace e
      advance
      foreignSince start [.expression e]
    else return e

/-- How strongly an operator binds, the weakest with one. -/
def strength? : Token → Option (String × Nat)
  | .mark m => (table.find? fun row => row.1.contains m).map fun row => (m, row.2)
  | .word w false =>
    if w == "in" || w == "instanceof" then some (w, 8) else none
  | _ => none
where
  /-- The operators by strength. -/
  table : List (List String × Nat) :=
    [(["??"], 1), (["||"], 2), (["&&"], 3), (["|"], 4), (["^"], 5), (["&"], 6),
      (["==", "!=", "===", "!=="], 7), (["<", ">", "<=", ">="], 8), (["<<", ">>", ">>>"], 9),
      (["+", "-"], 10), (["*", "/", "%"], 11), (["**"], 12)]

/-- The operators that may leave their second operand alone. -/
def logicalOp? (op : String) : Option LogicalOp :=
  if op == "&&" then some .and
  else if op == "||" then some .or
  else if op == "??" then some .coalesce
  else none

/-- Whether an expression is an alternative or a conjunction without parentheses. -/
def isAlternative : Syntax → Bool
  | .logical .and _ _ => true
  | .logical .or _ _ => true
  | _ => false

/-- Whether an expression begins with an operator of its own, without parentheses. -/
def isUnaryOperation : Syntax → Bool
  | .unary .. => true
  | _ => false

/-- Puts two operands together. An operation is not raised to a power, and `??` does not stand
beside `&&` and `||`. -/
def combine (start : Nat) (op : String) (awaited : Bool) (left right : Syntax) :
    Parser Syntax := do
  match logicalOp? op with
  | some l =>
    require !(op == "??" && (isAlternative left || isAlternative right))
    return .logical l left right
  | none =>
    require !(op == "**" && (awaited || isUnaryOperation left))
    return .binary (← spanFrom start) op left right

/-- Operators that bind more strongly than `level`, and their operands. -/
def operations (level start : Nat) : Nat → Bool → Syntax → Parser Syntax
  | 0, _, _ => failure
  | fuel + 1, awaited, left => do
    match strength? (← token) with
    | none => return left
    | some (op, strength) =>
      let stop := if op == "**" then strength < level else strength ≤ level
      if stop || (op == "in" && !(← get).context.isIn) then return left
      advance
      let right ← rules (.binary strength)
      operations level start fuel false (← combine start op awaited left right)

/-- Operands with operators that bind more strongly than `level` between them. -/
def binary (level : Nat) : Parser Syntax := do
  let start ← here
  let awaited ← isAtAwait
  match ← token with
  | .privateWord _ =>
    require (← get).context.isIn
    advance
    expectWord "in"
    let right ← rules (.binary 8)
    operations rules level start (← limit) false (← foreignSince start [.expression right])
  | _ =>
    let left ← rules .unary
    operations rules level start (← limit) awaited left

/-- The marks of assignment. -/
def isAssignMark (m : String) : Bool :=
  ["=", "+=", "-=", "*=", "/=", "%=", "**=", "<<=", ">>=", ">>>=", "&=", "|=", "^=", "&&=", "||=",
    "??="].contains m

/-- An assignment from its mark on. -/
def assignTail (start : Nat) (op : String) (e : Syntax) : Parser Syntax := do
  let target ← if op == "=" then do asPlace (← spanFrom start) e
    else match simplePlace? e with
      | some p => pure p
      | none => failure
  advance
  let value ← rules .assignment
  return .assign (← spanFrom start) op target value

/-- A choice from its question mark on, if there is one. -/
def conditionalTail (e : Syntax) : Parser Syntax := do
  if ← eat "?" then
    let yes ← withIn (rules .assignment)
    expect ":"
    let no ← rules .assignment
    return .conditional e yes no
  else return e

/-- A `yield` where it is an operator. -/
def yieldExpression : Parser Syntax := do
  let start ← here
  advance
  if ← afterBreak then foreignSince start []
  else if ← eat "*" then
    let e ← rules .assignment
    foreignSince start [.expression e]
  else
    let bare ← do
      match ← token with
      | .finish => pure true
      | .mark m => pure ([")", "]", "\x7d", ",", ";", ":"].contains m)
      | .word w escaped => pure (w == "in" && !escaped)
      | _ => pure false
    if bare then foreignSince start []
    else
      let e ← rules .assignment
      foreignSince start [.expression e]

/-- An expression without commas, arrows and `yield` apart. -/
def plainAssignment : Parser Syntax := do
  let start ← here
  let e ← rules (.binary 0)
  match ← token with
  | .mark m =>
    match e with
    | .name id =>
      if m == "=>" then
        arrowMark
        arrowTail rules start false ([.name id none], none)
      else if isAssignMark m then assignTail rules start m e
      else conditionalTail rules e
    | _ => if isAssignMark m then assignTail rules start m e else conditionalTail rules e
  | _ => return e

/-- An expression without commas. -/
def assignment : Parser Syntax := do
  if (← isAtWord "yield") && (← get).context.yield then yieldExpression rules
  else
    match ← parenthesizedArrow rules with
    | some e => return e
    | none =>
      match ← asyncArrow rules with
      | some e => return e
      | none => plainAssignment rules

/-- Expressions with commas between them. -/
def expression : Parser Syntax := do
  let e ← rules .assignment
  if ← isAt "," then
    let rest ← many do
      if ← eat "," then return some (← rules .assignment)
      return none
    return .sequence (e :: rest)
  else return e

end Grammar

end Trellis.Script
