import Trellis.Script.Grammar

/-!
# The grammar of statements

Statements stand in the bodies of functions. Expressions, returns, choices, blocks and empty
statements have forms of their own; all others are read as well, but only to see where they end,
whether they are well formed and which names are in them.
-/

namespace Trellis.Script.Grammar

open Trellis.Script.Parser

variable (rules : Rules)

/-- A foreign statement that began at a position and ends here. -/
def foreignStatement (start : Nat) (parts : List Part) : Parser Statement := do
  return .foreign (← spanFrom start) parts

/-- An expression in parentheses. -/
def condition : Parser Syntax := do
  expect "("
  let e ← withIn (rules .expression)
  expect ")"
  return e

/-- A statement in the place of a body. -/
def bodyPart : Parser (List Part) := do
  return [.statement (← rules (.statement true))]

/-! ## Declarations -/

/-- One declared name or pattern. Where a loop may follow, the value may be missing. -/
def declared (constant loop : Bool) : Parser (List Part) := do
  let plain ← isAtName
  let parts ← rules .pattern
  let value ← if ← eat "=" then do pure (some (← rules .assignment)) else pure none
  if value.isNone && (constant || !plain) then
    require (loop && ((← isAtWord "of") || (← isAtWord "in")))
  return parts ++ Part.ofOption value

/-- Declared names with commas between them. -/
def declarations (constant loop : Bool) : Parser (List (List Part)) := do
  let first ← declared rules constant loop
  let rest ← many do
    if ← eat "," then return some (← declared rules constant loop)
    return none
  return first :: rest

/-- Whether `let` begins a declaration: not in front of an operator, a point, a parenthesis or a
semicolon, and in the place of a body only in front of a bracket. -/
def isDeclaringLet (alone : Bool) : Parser Bool :=
  ahead do
    expectWord "let"
    let t ← token
    match t with
    | .mark m =>
      return m == "[" || !(alone || isAssignMark m || (strength? t).isSome || m == "." || m == "("
        || m == ";")
    | .word _ _ => return !(alone || (strength? t).isSome)
    | _ => return !alone

/-- A declaration of variables. -/
def variableStatement (word : String) : Parser Statement := do
  let start ← here
  expectWord word
  let parts ← withIn (declarations rules (word == "const") false)
  semicolon
  foreignStatement start parts.flatten

/-- Whether a declaration of resources is at hand, in front of a name on the same line. -/
def isAtUsing : Parser Bool :=
  ahead do
    if (← get).context.await then
      if ← eatWord "await" then require !(← afterBreak)
    expectWord "using"
    return !(← afterBreak) && (← isAtName)

/-- A declaration of resources, all of which have a value. -/
def usingStatement : Parser Statement := do
  let start ← here
  let _ ← eatWord "await"
  expectWord "using"
  let parts ← withIn (declarations rules true false)
  semicolon
  foreignStatement start parts.flatten

/-- A declared function. -/
def functionStatement : Parser Statement := do
  let start ← here
  let isAsync ← eatWord "async"
  expectWord "function"
  foreignStatement start (← functionParts rules isAsync true)

/-- A declared class. -/
def classStatement : Parser Statement := do
  let start ← here
  let before ← decorators rules
  expectWord "class"
  foreignStatement start (before ++ (← classParts rules true))

/-! ## Loops -/

/-- The part of a loop's head behind what it begins with, in a loop over items. -/
def overItems : Parser (Option (List Part)) := do
  if ← eatWord "of" then
    let e ← withIn (rules .assignment)
    return some [.expression e]
  else if ← eatWord "in" then
    let e ← withIn (rules .expression)
    return some [.expression e]
  else return none

/-- An optional expression up to a mark. -/
def upTo (mark : String) : Parser (List Part) := do
  if ← eat mark then return []
  let e ← withIn (rules .expression)
  expect mark
  return [.expression e]

/-- The rest of a loop's head behind its first semicolon. -/
def threePart : Parser (List Part) := do
  expect ";"
  let test ← upTo rules ";"
  let step ← upTo rules ")"
  return test ++ step

/-- The head of a loop that begins with a declaration. -/
def declaringHead (word : String) : Parser (List Part) := do
  expectWord word
  let constant := word == "const"
  let names ← within (fun c => { c with isIn := false }) (declarations rules constant true)
  let source ← if names.length == 1 then overItems rules else pure none
  match source with
  | some parts =>
    expect ")"
    return names.flatten ++ parts
  | none => return names.flatten ++ (← threePart rules)

/-- The head of a loop that begins with an expression. -/
def expressionHead : Parser (List Part) := do
  if ← isAt ";" then threePart rules
  else
    let start ← here
    let e ← within (fun c => { c with isIn := false }) (rules .expression)
    let span ← spanFrom start
    if (← isAtWord "of") || (← isAtWord "in") then
      let _ ← asPlace span e
      match ← overItems rules with
      | some parts =>
        expect ")"
        return .expression e :: parts
      | none => failure
    else return .expression e :: (← threePart rules)

/-- A loop with a head. -/
def forStatement : Parser Statement := do
  let start ← here
  advance
  if ← isAtWord "await" then
    require (← get).context.await
    advance
  expect "("
  let head ← if ← isAtWord "var" then declaringHead rules "var"
    else if ← isAtWord "const" then declaringHead rules "const"
    else if ← isDeclaringLet false then declaringHead rules "let"
    else expressionHead rules
  foreignStatement start (head ++ (← bodyPart rules))

/-- A loop with a condition in front. -/
def whileStatement : Parser Statement := do
  let start ← here
  advance
  let test ← condition rules
  foreignStatement start (.expression test :: (← bodyPart rules))

/-- A loop with a condition behind. -/
def doStatement : Parser Statement := do
  let start ← here
  advance
  let body ← bodyPart rules
  expectWord "while"
  let test ← condition rules
  let _ ← eat ";"
  foreignStatement start (body ++ [.expression test])

/-! ## Other statements -/

/-- A choice. -/
def ifStatement : Parser Statement := do
  advance
  let test ← condition rules
  let yes ← rules (.statement true)
  if ← eatWord "else" then
    return .branch test yes (some (← rules (.statement true)))
  else return .branch test yes none

/-- A return, where a function can be left. -/
def returnStatement : Parser Statement := do
  require (← get).context.leave
  advance
  let bare ← do
    match ← token with
    | .finish => pure true
    | .mark m => pure (m == ";" || m == "\x7d")
    | _ => pure false
  if bare || (← afterBreak) then
    semicolon
    return .result none
  else
    let e ← withIn (rules .expression)
    semicolon
    return .result (some e)

/-- Leaving or continuing a loop. -/
def jumpStatement : Parser Statement := do
  let start ← here
  advance
  if (← isAtName) && !(← afterBreak) then
    let _ ← name
  semicolon
  foreignStatement start []

/-- Raising a value, on the same line. -/
def throwStatement : Parser Statement := do
  let start ← here
  advance
  require (!(← afterBreak))
  let e ← withIn (rules .expression)
  semicolon
  foreignStatement start [.expression e]

/-- A block whose faults are caught or which is followed by another in any case. -/
def tryStatement : Parser Statement := do
  let start ← here
  advance
  let body ← braces rules
  let caught ← if ← eatWord "catch" then do
      let binding ← if ← eat "(" then do
          let parts ← rules .pattern
          expect ")"
          pure parts
        else pure []
      let handler ← braces rules
      pure (some (binding ++ handler.map Part.statement))
    else pure none
  let final ← if ← eatWord "finally" then do pure (some (← braces rules)) else pure none
  require (caught.isSome || final.isSome)
  foreignStatement start
    (body.map .statement ++ caught.getD [] ++ (final.getD []).map .statement)

/-- One case of a choice among many. -/
def caseClause : Parser (Option (List Part)) := do
  if ← eat "\x7d" then return none
  let test ← if ← eatWord "case" then do pure [Part.expression (← withIn (rules .expression))]
    else do
      expectWord "default"
      pure []
  expect ":"
  let body ← many do
    if (← isAtWord "case") || (← isAtWord "default") || (← isAt "\x7d") then return none
    return some (← rules (.statement false))
  return some (test ++ body.map .statement)

/-- A choice among many. -/
def switchStatement : Parser Statement := do
  let start ← here
  advance
  let subject ← condition rules
  expect "\x7b"
  let clauses ← many (caseClause rules)
  foreignStatement start (.expression subject :: clauses.flatten)

/-- A statement with an object's members as names. -/
def withStatement : Parser Statement := do
  let start ← here
  advance
  let subject ← condition rules
  foreignStatement start (.expression subject :: (← bodyPart rules))

/-- A statement that is a word. -/
def wordStatement : Parser Statement := do
  let start ← here
  advance
  semicolon
  foreignStatement start []

/-- An expression, or a label and its statement. -/
def expressionStatement : Parser Statement := do
  let start ← here
  let e ← withIn (rules .expression)
  let label := match e with
    | .name _ => true
    | _ => false
  if label && (← isAt ":") then
    advance
    foreignStatement start (← bodyPart rules)
  else
    semicolon
    return .expression e

/-- What a word begins. In the place of a body nothing may be declared for its block. -/
def wordBegins (w : String) (alone : Bool) : Parser Statement := do
  match w with
  | "var" => variableStatement rules w
  | "const" =>
    require (!alone)
    variableStatement rules w
  | "let" =>
    if ← isDeclaringLet alone then variableStatement rules w else expressionStatement rules
  | "if" => ifStatement rules
  | "for" => forStatement rules
  | "while" => whileStatement rules
  | "do" => doStatement rules
  | "continue" => jumpStatement
  | "break" => jumpStatement
  | "return" => returnStatement rules
  | "with" => withStatement rules
  | "switch" => switchStatement rules
  | "throw" => throwStatement rules
  | "try" => tryStatement rules
  | "debugger" => wordStatement
  | "function" =>
    let isGenerator ← ahead do
      advance
      isAt "*"
    require (!(alone && isGenerator))
    functionStatement rules
  | "class" =>
    require (!alone)
    classStatement rules
  | "async" =>
    if ← isAtAsyncFunction then
      require (!alone)
      functionStatement rules
    else expressionStatement rules
  | _ => expressionStatement rules

/-- A statement. -/
def statement (alone : Bool) : Parser Statement := do
  match ← token with
  | .mark ";" =>
    advance
    return .empty
  | .mark "\x7b" => return .block (← braces rules)
  | .mark "@" => classStatement rules
  | .word w escaped =>
    if !alone && (← isAtUsing) then usingStatement rules
    else if escaped then expressionStatement rules else wordBegins rules w alone
  | _ => expressionStatement rules

/-! ## The table of rules -/

/-- The rules by stages. -/
def stage : Nat → Rules
  | 0, _ => failure
  | n + 1, .expression => expression (stage n)
  | n + 1, .assignment => assignment (stage n)
  | n + 1, .binary level => binary (stage n) level
  | n + 1, .unary => unary (stage n)
  | n + 1, .leftHand => leftHand (stage n)
  | n + 1, .primary => primary (stage n)
  | n + 1, .pattern => pattern (stage n)
  | n + 1, .statement alone => statement (stage n) alone

end Grammar

/-- How a source is begun: `await` is an operator, and nothing can be left. -/
def Cursor.first : Cursor where
  current := ⟨.finish, 0, 0, false⟩
  previousStop := 0
  context := ⟨true, false, true, false⟩
  pending := []
  flawed := false

/-- The expression a source begins with. No token takes as many stages as there are rules. -/
def Syntax.parse? (source : String) : Option Syntax :=
  let src : Source := source.toList.toArray
  let read : Parser Syntax := do
    Parser.install (Source.lexeme? src 0)
    Grammar.stage (8 * (src.size + 2)) .expression
  match read src .first with
  | some (e, c) => if c.flawed || !c.pending.isEmpty then none else some e
  | none => none

end Trellis.Script
