import Trellis.Script.Syntax
import Trellis.Script.Token

/-!
# Reading tokens in turn

A parser reads the tokens of a source one after the other, the next one always at hand. It fails on
anything the grammar does not allow, and a failure that is not caught is the failure of the whole
source. What the grammar allows at a place depends on what is around it, which is the context.
-/

namespace Trellis.Script

/-- What the surroundings allow: `await` and `yield` as operators, `in` as an operator, and leaving
a function. -/
structure Context where
  await : Bool
  yield : Bool
  isIn : Bool
  leave : Bool
  deriving Inhabited

/-- The token at hand, the end of the one before it, the context, the shorthands with defaults that
no pattern has taken up yet, and whether a fault was met that the reading goes on after. -/
structure Cursor where
  current : Lexeme
  previousStop : Nat
  context : Context
  pending : List Nat
  flawed : Bool
  deriving Inhabited

/-- A parser for a source. -/
abbrev Parser (α : Type) := ReaderT Source (StateT Cursor Option) α

namespace Parser

variable {α : Type}

/-- The token at hand. -/
def token : Parser Token := do
  return (← get).current.token

/-- Where the token at hand begins. -/
def here : Parser Nat := do
  return (← get).current.start

/-- The place from a position up to the end of the token before the one at hand. -/
def spanFrom (start : Nat) : Parser Span := do
  return ⟨start, (← get).previousStop⟩

/-- Whether a line ends before the token at hand. -/
def afterBreak : Parser Bool := do
  return (← get).current.afterBreak

/-- Puts a token at hand. -/
def install (lexeme : Option Lexeme) : Parser Unit := do
  match lexeme with
  | some l => modify fun c => { c with current := l }
  | none => failure

/-- Goes on to the next token. -/
def advance : Parser Unit := do
  let src ← read
  let stop := (← get).current.stop
  modify fun c => { c with previousStop := stop }
  install (Source.lexeme? src stop)

/-- Whether the token at hand is a mark. -/
def isAt (mark : String) : Parser Bool := do
  match ← token with
  | .mark m => return m == mark
  | _ => return false

/-- Whether the token at hand is a word without escapes. -/
def isAtWord (word : String) : Parser Bool := do
  match ← token with
  | .word w escaped => return w == word && !escaped
  | _ => return false

/-- Goes past a mark if it is at hand. -/
def eat (mark : String) : Parser Bool := do
  if ← isAt mark then
    advance
    return true
  else return false

/-- Goes past a word if it is at hand. -/
def eatWord (word : String) : Parser Bool := do
  if ← isAtWord word then
    advance
    return true
  else return false

/-- Goes past a mark that has to be at hand. -/
def expect (mark : String) : Parser Unit := do
  unless ← eat mark do failure

/-- Goes past a word that has to be at hand. -/
def expectWord (word : String) : Parser Unit := do
  unless ← eatWord word do failure

/-- Fails unless a condition holds. -/
def require (condition : Bool) : Parser Unit :=
  if condition then pure () else failure

/-- Notes a fault that the reading goes on after, if there is one. -/
def flawIf (fault : Bool) : Parser Unit := do
  if fault then modify fun c => { c with flawed := true }

/-- Whether a parser would say yes here. Nothing is read. -/
def ahead (p : Parser Bool) : Parser Bool := fun src cursor =>
  match p src cursor with
  | some (b, _) => some (b, cursor)
  | none => some (false, cursor)

/-- What a parser reads, or nothing at all if it fails. -/
def attempt (p : Parser α) : Parser (Option α) := fun src cursor =>
  match p src cursor with
  | some (a, next) => some (some a, next)
  | none => some (none, cursor)

/-- Reads in another context. -/
def within (change : Context → Context) (p : Parser α) : Parser α := do
  let outer := (← get).context
  modify fun c => { c with context := change outer }
  let a ← p
  modify fun c => { c with context := outer }
  return a

/-- Reads where `in` is an operator. -/
def withIn (p : Parser α) : Parser α :=
  within (fun c => { c with isIn := true }) p

/-- Repeats a step until it has nothing more to read, at most `fuel` times. -/
def repeatUpTo (step : Parser (Option α)) : Nat → Parser (List α)
  | 0 => failure
  | fuel + 1 => do
    match ← step with
    | some a => return a :: (← repeatUpTo step fuel)
    | none => return []

/-- More steps than any source has tokens. -/
def limit : Parser Nat := do
  return (← read).size + 2

/-- Repeats a step that reads a token each time, until it has nothing more to read. -/
def many (step : Parser (Option α)) : Parser (List α) := do
  repeatUpTo step (← limit)

/-- Items with commas between them, and perhaps one behind the last, up to a closing mark. -/
def delimited (close : String) (item : Parser α) : Parser (List α) :=
  many do
    if ← eat close then return none
    let a ← item
    unless ← isAt close do expect ","
    return some a

/-- Ends a statement: a semicolon, or a place where one may be left out. -/
def semicolon : Parser Unit := do
  unless ← eat ";" do
    let implied ← do
      match ← token with
      | .finish => pure true
      | .mark m => pure (m == "\x7d")
      | _ => pure false
    require (implied || (← afterBreak))

end Parser

/-- Words that are no names. -/
def reservedWords : List String :=
  ["break", "case", "catch", "class", "const", "continue", "debugger", "default", "delete", "do",
    "else", "enum", "export", "extends", "false", "finally", "for", "function", "if", "import",
    "in", "instanceof", "new", "null", "return", "super", "switch", "this", "throw", "true", "try",
    "typeof", "var", "void", "while", "with"]

/-- Whether a word is no name. -/
def isReserved (word : String) : Bool :=
  reservedWords.contains word

end Trellis.Script
