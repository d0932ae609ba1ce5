import Trellis.Decimal.Reader
import Trellis.Text.Category
import Trellis.Text.Quoted

/-!
# Tokens of scripts

The lexical grammar of expressions in JavaScript. A token is read at a position of the source; what
a slash and a closing brace begin depends on where they stand, so the parser asks for a regular
expression or for the next piece of a template.

* `Source.lexeme?`: the token at a position, with blanks and comments in front of it skipped.
* `Source.regex?`, `Source.templatePiece?`: the tokens that only the parser can ask for.

No token is a fault of the source.
-/

namespace Trellis.Script

/-- The characters of a source by their position. -/
abbrev Source := Array Char

/-- A token. A piece of a template is closed if a backtick ends it, and has no text if one of its
escapes is invalid. -/
inductive Token where
  | finish
  | word (text : String) (escaped : Bool)
  | privateWord (text : String)
  | number (x : Float)
  | bigint
  | string (text : String)
  | template (text : Option String) (closed : Bool)
  | regex
  | mark (text : String)
  deriving Inhabited

/-- A token with the place it takes up, and whether a line ends before it. -/
structure Lexeme where
  token : Token
  start : Nat
  stop : Nat
  afterBreak : Bool
  deriving Inhabited

/-- Characters that end a line. -/
def isLineBreak (c : Char) : Bool :=
  c = '\n' || c = '\r' || c.toNat == 0x2028 || c.toNat == 0x2029

/-- Blanks between tokens other than line ends. -/
def isScriptBlank (c : Char) : Bool :=
  let n := c.toNat
  n == 9 || n == 11 || n == 12 || n == 32 || n == 0x85 || n == 0xA0 || n == 0x1680
    || (0x2000 ≤ n && n ≤ 0x200B) || n == 0x202F || n == 0x205F || n == 0x3000 || n == 0xFEFF

namespace Source

variable (src : Source)

/-- The first position from `pos` on whose character fails a test, at most `fuel` further. -/
def skipWhile (src : Source) (test : Char → Bool) : Nat → Nat → Nat
  | 0, pos => pos
  | fuel + 1, pos =>
    match src[pos]? with
    | some c => if test c then skipWhile src test fuel (pos + 1) else pos
    | none => pos

/-- The first position from `pos` on whose character fails a test. -/
def pass (test : Char → Bool) (pos : Nat) : Nat :=
  skipWhile src test (src.size - pos) pos

/-- Whether a text stands at a position. -/
def hasAt (text : List Char) (pos : Nat) : Bool :=
  (src.extract pos (pos + text.length)).toList == text

/-- The end of a comment between stars and whether a line ends in it. -/
def commentEnd? (src : Source) : Nat → Nat → Bool → Option (Nat × Bool)
  | 0, _, _ => none
  | fuel + 1, pos, lines =>
    match src[pos]? with
    | none => none
    | some c =>
      if c = '*' ∧ src[pos + 1]? = some '/' then some (pos + 2, lines)
      else commentEnd? src fuel (pos + 1) (lines || isLineBreak c)

/-- The next position that is neither blank nor comment, and whether a line ends before it. -/
def tokenStart? (src : Source) : Nat → Nat → Bool → Option (Nat × Bool)
  | 0, pos, lines => some (pos, lines)
  | fuel + 1, pos, lines =>
    match src[pos]? with
    | none => some (pos, lines)
    | some c =>
      if isLineBreak c then tokenStart? src fuel (pos + 1) true
      else if isScriptBlank c then tokenStart? src fuel (pos + 1) lines
      else if src.hasAt ['/', '/'] pos then
        tokenStart? src fuel (src.pass (fun c => !isLineBreak c) pos) lines
      else if src.hasAt ['/', '*'] pos then
        match commentEnd? src (src.size - pos) (pos + 2) lines with
        | none => none
        | some (pos, lines) => tokenStart? src fuel pos lines
      else some (pos, lines)

/-! ## Escapes and texts -/

/-- A code point in hexadecimal up to a closing brace, and the position behind it. -/
def bracedPoint? (pos : Nat) : Option (Nat × Nat) :=
  let stop := src.pass (fun c => (Text.hexValue? c).isSome) pos
  let digits := (src.extract pos stop).toList.filterMap Text.hexValue?
  let n := digits.foldl (fun n d => min (16 * n + d) 0x110000) 0
  if digits.isEmpty || 0x10FFFF < n || src[stop]? ≠ some '}' then none else some (n, stop + 1)

/-- Four hexadecimal digits and the position behind them. -/
def quad? (pos : Nat) : Option (Nat × Nat) :=
  match Text.hexQuad? (src.extract pos (pos + 4)).toList with
  | some (n, _) => some (n, pos + 4)
  | none => none

/-- The code point of an escape behind its `u`, and the position behind it. -/
def pointEscape? (pos : Nat) : Option (Nat × Nat) :=
  if src[pos]? = some '{' then src.bracedPoint? (pos + 1) else src.quad? pos

/-- The same, taking two units that make up one character together. -/
def unitEscape? (pos : Nat) : Option (Nat × Nat) :=
  match src.pointEscape? pos with
  | none => none
  | some (high, next) =>
    if Text.isHighUnit high ∧ src[pos]? ≠ some '{' ∧ src.hasAt ['\\', 'u'] next then
      match src.quad? (next + 2) with
      | some (low, stop) =>
        if Text.isLowUnit low then some ((Text.ofUnits high low).toNat, stop)
        else some (high, next)
      | none => some (high, next)
    else some (high, next)

/-- Whether a character is an octal digit. -/
def isOctal (c : Char) : Bool := '0' ≤ c && c ≤ '7'

/-- An octal escape in a text: at most three digits, and at most 255. -/
def octalEscape (pos : Nat) : Nat × Nat :=
  let limit := if src[pos]?.any (· < '4') then 3 else 2
  let stop := min (src.pass isOctal pos) (pos + limit)
  ((src.extract pos stop).toList.foldl (fun n c => 8 * n + (c.toNat - 48)) 0, stop)

/-- The code points of an escape behind its backslash, none if it is invalid, and the position
behind it. -/
def escape (inTemplate : Bool) (pos : Nat) : Option (List Nat) × Nat :=
  match src[pos]? with
  | none => (none, pos)
  | some c =>
    let next := pos + 1
    if c = 'n' then (some [10], next)
    else if c = 't' then (some [9], next)
    else if c = 'r' then (some [13], next)
    else if c = 'b' then (some [8], next)
    else if c = 'v' then (some [11], next)
    else if c = 'f' then (some [12], next)
    else if c = '\r' then (some [], if src[next]? = some '\n' then next + 1 else next)
    else if isLineBreak c then (some [], next)
    else if c = 'x' then
      match (src.extract next (next + 2)).toList.map Text.hexValue? with
      | [some a, some b] => (some [16 * a + b], next + 2)
      | _ => (none, next)
    else if c = 'u' then
      match src.unitEscape? next with
      | some (n, stop) => (some [n], stop)
      | none => (none, next)
    else if Decimal.isDigit c then
      if c = '0' ∧ ¬ (src[next]?.any Decimal.isDigit) then (some [0], next)
      else if inTemplate then (none, next)
      else if isOctal c then
        let (n, stop) := src.octalEscape pos
        (some [n], stop)
      else (some [c.toNat], next)
    else (some [c.toNat], next)

/-- Whether a code point is one half of a character. -/
def isUnit (n : Nat) : Bool := Text.isHighUnit n || Text.isLowUnit n

/-- A half of a character as text: the replacement character and four hexadecimal digits. -/
def unitText (n : Nat) : List Char :=
  [Char.ofNat 0xFFFD, Text.hexDigit (n / 4096), Text.hexDigit (n / 256 % 16),
    Text.hexDigit (n / 16 % 16), Text.hexDigit (n % 16)]

/-- The text of code points. If some are halves of characters, these and the replacement character
are spelt out. -/
def textOf (points : List Nat) : String :=
  if points.any isUnit then
    String.ofList (points.flatMap fun n =>
      if isUnit n || n == 0xFFFD then unitText n else [Char.ofNat n])
  else String.ofList (points.map Char.ofNat)

/-- The text up to the closing quote, `acc` holding the code points before, last one first. -/
def stringFrom (src : Source) (quote : Char) : Nat → Nat → List Nat → Option (String × Nat)
  | 0, _, _ => none
  | fuel + 1, pos, acc =>
    match src[pos]? with
    | none => none
    | some c =>
      if c = quote then some (textOf acc.reverse, pos + 1)
      else if c = '\n' ∨ c = '\r' then none
      else if c = '\\' then
        match src.escape false (pos + 1) with
        | (some points, next) => stringFrom src quote fuel next (points.reverse ++ acc)
        | (none, _) => none
      else stringFrom src quote fuel (pos + 1) (c.toNat :: acc)

/-- A piece of a template up to a backtick or the brace of an expression. -/
def templateFrom (src : Source) :
    Nat → Nat → Option (List Nat) → Option (Option String × Bool × Nat)
  | 0, _, _ => none
  | fuel + 1, pos, acc =>
    match src[pos]? with
    | none => none
    | some c =>
      let text := acc.map fun points => textOf points.reverse
      if c = '\x60' then some (text, true, pos + 1)
      else if c = '$' ∧ src[pos + 1]? = some '{' then some (text, false, pos + 2)
      else if c = '\\' then
        let (points, next) := src.escape true (pos + 1)
        templateFrom src fuel next (do return (← points).reverse ++ (← acc))
      else if c = '\r' then
        let next := if src[pos + 1]? = some '\n' then pos + 2 else pos + 1
        templateFrom src fuel next (acc.map (10 :: ·))
      else templateFrom src fuel (pos + 1) (acc.map (c.toNat :: ·))

/-- The piece of a template behind a backtick or a closing brace. -/
def templatePiece? (start pos : Nat) (afterBreak : Bool) : Option Lexeme :=
  (templateFrom src (src.size - pos + 1) pos (some [])).map fun (text, closed, stop) =>
    ⟨.template text closed, start, stop, afterBreak⟩

/-! ## Regular expressions -/

/-- The end of a regular expression's body. A slash in brackets does not end it. -/
def regexEnd? (src : Source) : Nat → Nat → Bool → Option Nat
  | 0, _, _ => none
  | fuel + 1, pos, inClass =>
    match src[pos]? with
    | none => none
    | some c =>
      if isLineBreak c then none
      else if c = '\\' then
        if src[pos + 1]?.any isLineBreak then none else regexEnd? src fuel (pos + 2) inClass
      else if c = '[' then regexEnd? src fuel (pos + 1) true
      else if c = ']' then regexEnd? src fuel (pos + 1) false
      else if c = '/' ∧ inClass = false then some (pos + 1)
      else regexEnd? src fuel (pos + 1) inClass

/-- The flags of regular expressions. -/
def regexFlags : List Char := ['d', 'g', 'i', 'm', 's', 'u', 'v', 'y']

/-- A regular expression that begins with the slash at a position. Each flag stands at most
once. -/
def regex? (pos : Nat) (afterBreak : Bool) : Option Lexeme := do
  let body ← regexEnd? src (src.size - pos) (pos + 1) false
  let stop := src.pass Text.isIdentifierPart body
  let flags := (src.extract body stop).toList
  if flags.all regexFlags.contains && flags.eraseDups.length == flags.length
      && src[stop]? ≠ some '\\' then
    some ⟨.regex, pos, stop, afterBreak⟩
  else none

/-! ## Numbers -/

/-- The end of a row of digits, single underscores between them. -/
def digitsEnd? (src : Source) (test : Char → Bool) : Nat → Nat → Option Nat
  | 0, _ => none
  | fuel + 1, pos =>
    if src[pos]?.any test then
      let stop := src.pass test pos
      if src[stop]? = some '_' then digitsEnd? src test fuel (stop + 1) else some stop
    else none

/-- The digits between two positions. -/
def digitsBetween (start stop : Nat) : List Char :=
  (src.extract start stop).toList.filter (· ≠ '_')

/-- The number nearest to a row of decimal digits. -/
def decimalNumber (digits : List Char) : Float :=
  Decimal.toFloat false ⟨Decimal.ofDigits digits, 0⟩

/-- A whole number from its digits in a base that is a power of two. Up to `limit` digits it is the
nearest number; beyond that each further digit is added to a number already rounded. -/
def wholeNumber (base limit : Nat) (digits : List Nat) : Float :=
  if digits.length ≤ limit then
    Decimal.toFloat false ⟨digits.foldl (fun n d => base * n + d) 0, 0⟩
  else
    digits.foldl (fun x d =>
      match (Binary.ofFloat? x).bind Binary.integer? with
      | some n => Decimal.toFloat false ⟨base * n + d, 0⟩
      | none => x) 0

/-- What a number ends with: neither a digit nor the beginning of a name may follow. -/
def numberEnd? (token : Token) (start stop : Nat) (afterBreak : Bool) : Option Lexeme :=
  if src[stop]?.any fun c => Text.isIdentifierPart c || c = '\\' then none
  else some ⟨token, start, stop, afterBreak⟩

/-- A number in another base, behind its two leading characters. -/
def basedNumber? (base limit : Nat) (start : Nat) (afterBreak : Bool) : Option Lexeme := do
  let isDigit := fun c => (Text.hexValue? c).any (· < base)
  let stop ← digitsEnd? src isDigit (src.size - start) (start + 2)
  if src[stop]? = some 'n' then src.numberEnd? .bigint start (stop + 1) afterBreak
  else
    let digits := (src.digitsBetween (start + 2) stop).filterMap Text.hexValue?
    src.numberEnd? (.number (wholeNumber base limit digits)) start stop afterBreak

/-- The end of an exponent, the position itself if there is none. -/
def exponentEnd? (pos : Nat) : Option Nat :=
  if src[pos]? = some 'e' ∨ src[pos]? = some 'E' then
    let digits := if src[pos + 1]? = some '+' ∨ src[pos + 1]? = some '-' then pos + 2 else pos + 1
    digitsEnd? src Decimal.isDigit (src.size - pos) digits
  else some pos

/-- A number with a fraction or an exponent. -/
def floatNumber? (start stop : Nat) (afterBreak : Bool) : Option Lexeme := do
  let d ← Decimal.read? (src.digitsBetween start stop)
  src.numberEnd? (.number (d.toFloat false)) start stop afterBreak

/-- A number from its point on. -/
def fraction? (start point : Nat) (afterBreak : Bool) : Option Lexeme := do
  let stop ← if src[point + 1]?.any Decimal.isDigit then
      digitsEnd? src Decimal.isDigit (src.size - point) (point + 1)
    else some (point + 1)
  let stop ← src.exponentEnd? stop
  src.floatNumber? start stop afterBreak

/-- The rest of a decimal number whose whole part ends at a position. -/
def decimalRest? (start whole : Nat) (afterBreak : Bool) : Option Lexeme :=
  if src[whole]? = some '.' then src.fraction? start whole afterBreak
  else if src[whole]? = some 'e' ∨ src[whole]? = some 'E' then do
    let stop ← src.exponentEnd? whole
    src.floatNumber? start stop afterBreak
  else if src[whole]? = some 'n' then src.numberEnd? .bigint start (whole + 1) afterBreak
  else
    src.numberEnd? (.number (decimalNumber (src.digitsBetween start whole))) start whole afterBreak

/-- A number with a leading zero and more digits: octal unless one of them is not. -/
def zeroNumber? (start : Nat) (afterBreak : Bool) : Option Lexeme :=
  let stop := src.pass Decimal.isDigit start
  let digits := src.digitsBetween start stop
  if digits.all isOctal then
    let value := wholeNumber 8 22 (digits.filterMap Text.hexValue?)
    src.numberEnd? (.number value) start stop afterBreak
  else if src[stop]? = some '.' then src.fraction? start stop afterBreak
  else if src[stop]? = some 'e' then do
    let stop ← src.exponentEnd? stop
    src.floatNumber? start stop afterBreak
  else src.numberEnd? (.number (decimalNumber digits)) start stop afterBreak

/-- The number that begins with a digit or a point at a position. -/
def number? (start : Nat) (afterBreak : Bool) : Option Lexeme :=
  if src[start]? = some '.' then src.fraction? start start afterBreak
  else if src[start]? = some '0' then
    match src[start + 1]? with
    | some 'x' | some 'X' => src.basedNumber? 16 16 start afterBreak
    | some 'o' | some 'O' => src.basedNumber? 8 21 start afterBreak
    | some 'b' | some 'B' => src.basedNumber? 2 64 start afterBreak
    | some c =>
      if Decimal.isDigit c then src.zeroNumber? start afterBreak
      else src.decimalRest? start (start + 1) afterBreak
    | none => src.decimalRest? start (start + 1) afterBreak
  else do
    let whole ← digitsEnd? src Decimal.isDigit (src.size - start) start
    src.decimalRest? start whole afterBreak

/-! ## Names and marks -/

/-- A name, `acc` holding the characters before, last one first; also whether any was escaped. -/
def nameFrom (src : Source) : Nat → Nat → List Char → Bool → Option (String × Bool × Nat)
  | 0, _, _, _ => none
  | fuel + 1, pos, acc, escaped =>
    let test := if acc.isEmpty then Text.isIdentifierStart else Text.isIdentifierPart
    let finish := if acc.isEmpty then none else some (String.ofList acc.reverse, escaped, pos)
    match src[pos]? with
    | none => finish
    | some c =>
      if test c then nameFrom src fuel (pos + 1) (c :: acc) escaped
      else if c = '\\' then
        if src[pos + 1]? = some 'u' then
          match src.pointEscape? (pos + 2) with
          | some (n, next) =>
            if test (Char.ofNat n) then nameFrom src fuel next (Char.ofNat n :: acc) true else none
          | none => none
        else none
      else finish

/-- The name at a position. -/
def name? (pos : Nat) : Option (String × Bool × Nat) :=
  nameFrom src (src.size - pos + 1) pos [] false

/-- The marks, none behind a shorter one it begins with. -/
def marks : List String :=
  [">>>=", "...", "===", "!==", "**=", "<<=", ">>=", ">>>", "&&=", "||=", "??=", "=>", "==", "!=",
    "<=", ">=", "&&", "||", "??", "?.", "++", "--", "+=", "-=", "*=", "/=", "%=", "&=", "|=", "^=",
    "<<", ">>", "**", "\x7b", "\x7d", "(", ")", "[", "]", ";", ",", "<", ">", "+", "-", "*", "/",
    "%", "&", "|", "^", "!", "~", "?", ":", "=", ".", "@"]

/-- The mark at a position. A question mark and a point before a digit are two marks. -/
def mark? (pos : Nat) : Option String :=
  marks.find? fun m => src.hasAt m.toList pos
    && !(m == "?." && src[pos + 2]?.any Decimal.isDigit)

/-- The token that begins at a position. -/
def tokenAt? (start : Nat) (afterBreak : Bool) : Option Lexeme :=
  match src[start]? with
  | none => some ⟨.finish, start, start, afterBreak⟩
  | some c =>
    if Text.isIdentifierStart c ∨ c = '\\' then
      (src.name? start).map fun (text, escaped, stop) =>
        ⟨.word text escaped, start, stop, afterBreak⟩
    else if Decimal.isDigit c ∨ (c = '.' ∧ src[start + 1]?.any Decimal.isDigit) then
      src.number? start afterBreak
    else if c = '"' ∨ c = '\'' then
      (stringFrom src c (src.size - start) (start + 1) []).map fun (text, stop) =>
        ⟨.string text, start, stop, afterBreak⟩
    else if c = '\x60' then src.templatePiece? start (start + 1) afterBreak
    else if c = '#' then
      (src.name? (start + 1)).map fun (text, _, stop) =>
        ⟨.privateWord text, start, stop, afterBreak⟩
    else
      (src.mark? start).map fun m => ⟨.mark m, start, start + m.length, afterBreak⟩

/-- The first token from a position on. -/
def lexeme? (pos : Nat) : Option Lexeme := do
  let (start, afterBreak) ← tokenStart? src (src.size + 1) pos false
  src.tokenAt? start afterBreak

end Source

end Trellis.Script
