import ConstFold.Text

/-!
# Words of JSON

Numerals, strings and tokens.  A document is read as a row of tokens with blanks between them, by the characters
that show its units.

A numeral is an optional minus sign, a whole part without needless zeros, an optional fraction and an optional
power of ten.  It denotes the floating-point number nearest to it, whatever its size.

A string stands between quotes and denotes a text, unit by unit.  What stands there unescaped denotes itself; an
escape names a unit by a letter or by its number.  No unit depends on the next one, so a pair may be written as
it is, as two escapes, or half and half.  `Quoted.write` escapes quotes, backslashes, control characters and
halves of pairs that stand alone, and nothing else.
-/

namespace ConstFold.Json

/-! ## Numerals -/

structure Numeral where
  negative : Bool
  whole : List Char
  fraction : List Char
  power : Int

namespace Numeral

/-- Splits off the digits that a text starts with. -/
def digits (s : List Char) : List Char × List Char :=
  (s.takeWhile Char.isDigit, s.dropWhile Char.isDigit)

/-- Some digits, of which only a lone one may be a leading zero. -/
def isWhole : List Char → Bool
  | [] => false
  | d :: rest => d ≠ '0' || rest.isEmpty

/-- The digits after a point, if there is one. -/
def fraction? : List Char → Option (List Char × List Char)
  | '.' :: s =>
    let (ds, rest) := digits s
    if ds.isEmpty then none else some (ds, rest)
  | s => some ([], s)

/-- Splits off a sign. -/
def sign : List Char → Bool × List Char
  | '-' :: s => (true, s)
  | '+' :: s => (false, s)
  | s => (false, s)

/-- The power of ten after its mark, if there is one. -/
def power? : List Char → Option (Int × List Char)
  | [] => some (0, [])
  | c :: s =>
    if c = 'e' ∨ c = 'E' then
      let (negative, s) := sign s
      let (ds, rest) := digits s
      let e : Int := Nat.ofDigitChars 10 ds 0
      if ds.isEmpty then none else some (if negative then -e else e, rest)
    else some (0, c :: s)

/-- Reads the numeral that a text without a sign starts with. -/
def unsigned? (negative : Bool) (s : List Char) : Option (Numeral × List Char) := do
  let (whole, s) := digits s
  if isWhole whole then
    let (fraction, s) ← fraction? s
    let (power, s) ← power? s
    return (⟨negative, whole, fraction, power⟩, s)
  else none

/-- Reads the numeral that a text starts with. -/
def read? : List Char → Option (Numeral × List Char)
  | '-' :: s => unsigned? true s
  | s => unsigned? false s

/-- The floating-point number nearest to a numeral. -/
def value (n : Numeral) : Float :=
  let e : Int := n.power - n.fraction.length
  let magnitude :=
    Float.ofScientific (Nat.ofDigitChars 10 (n.whole ++ n.fraction) 0) (decide (e < 0)) e.natAbs
  if n.negative then -magnitude else magnitude

end Numeral

/-! ## Strings -/

namespace Quoted

def hexDigit? (c : Char) : Option Nat :=
  if '0' ≤ c ∧ c ≤ '9' then some (c.toNat - '0'.toNat)
  else if 'a' ≤ c ∧ c ≤ 'f' then some (c.toNat - 'a'.toNat + 10)
  else if 'A' ≤ c ∧ c ≤ 'F' then some (c.toNat - 'A'.toNat + 10)
  else none

/-- The unit that four hexadecimal digits name. -/
def unit? (a b c d : Char) : Option CodeUnit := do
  let a ← hexDigit? a
  let b ← hexDigit? b
  let c ← hexDigit? c
  let d ← hexDigit? d
  return .ofNat (((a * 16 + b) * 16 + c) * 16 + d)

/-- The character that a letter after a backslash stands for. -/
def escaped? : Char → Option Char
  | '"' => some '"'
  | '\\' => some '\\'
  | '/' => some '/'
  | 'b' => some '\x08'
  | 'f' => some '\x0c'
  | 'n' => some '\n'
  | 'r' => some '\r'
  | 't' => some '\t'
  | _ => none

/-- Control characters may not stand in a string unescaped. -/
def isControl (c : Char) : Bool := c.toNat < 0x20

/-- The units up to the closing quote, and what follows it. -/
def units? : List Char → Option (List CodeUnit × List Char)
  | [] => none
  | c :: s =>
    if c = '"' then some ([], s)
    else if c = '\\' then
      match s with
      | [] => none
      | 'u' :: h₁ :: h₂ :: h₃ :: h₄ :: s => do
        let u ← unit? h₁ h₂ h₃ h₄
        let (units, rest) ← units? s
        return (u :: units, rest)
      | e :: s => do
        let c ← escaped? e
        let (units, rest) ← units? s
        return (.ofChar c :: units, rest)
    else if isControl c then none
    else do
      let (units, rest) ← units? s
      return (.ofChar c :: units, rest)

/-- Reads a string whose opening quote has been read. -/
def read? (s : List Char) : Option (Text × List Char) := (units? s).map fun (units, rest) => (⟨units⟩, rest)

/-- The digits of a number below `0x10000`, in lower case. -/
def fourHexDigits (n : Nat) : List Char :=
  [Nat.digitChar (n / 0x1000), Nat.digitChar (n / 0x100 % 16), Nat.digitChar (n / 16 % 16),
    Nat.digitChar (n % 16)]

/-- A unit that is not part of a pair, as it stands in a string. -/
def escape (u : CodeUnit) : Text :=
  match u.char with
  | '"' => "\\\""
  | '\\' => "\\\\"
  | '\x08' => "\\b"
  | '\t' => "\\t"
  | '\n' => "\\n"
  | '\x0c' => "\\f"
  | '\r' => "\\r"
  | c => if isControl c || u.isHalf then "\\u" ++ String.ofList (fourHexDigits u.number) else ⟨[u]⟩

/-- Units as they stand in a string. -/
def spell : List CodeUnit → Text
  | [] => ""
  | [u] => escape u
  | u :: v :: rest => if u.isHigh && v.isLow then ⟨[u, v]⟩ ++ spell rest else escape u ++ spell (v :: rest)

def write (s : Text) : Text := "\"" ++ spell s.units ++ "\""

end Quoted

/-! ## Tokens -/

inductive Token where
  | null
  | bool (value : Bool)
  | number (value : Float)
  | string (value : Text)
  | openBracket
  | closeBracket
  | openBrace
  | closeBrace
  | comma
  | colon

namespace Token

/-- Blanks are the space, the tab and the two line ends; nothing else may stand between tokens. -/
def isBlank (c : Char) : Bool := c == ' ' || c == '\t' || c == '\n' || c == '\r'

/-- The token that a text starts with. -/
def first? : List Char → Option (Token × List Char)
  | '\x7b' :: s => some (.openBrace, s)
  | '\x7d' :: s => some (.closeBrace, s)
  | '[' :: s => some (.openBracket, s)
  | ']' :: s => some (.closeBracket, s)
  | ',' :: s => some (.comma, s)
  | ':' :: s => some (.colon, s)
  | 'n' :: 'u' :: 'l' :: 'l' :: s => some (.null, s)
  | 't' :: 'r' :: 'u' :: 'e' :: s => some (.bool true, s)
  | 'f' :: 'a' :: 'l' :: 's' :: 'e' :: s => some (.bool false, s)
  | '"' :: s => (Quoted.read? s).map fun (text, rest) => (.string text, rest)
  | s => (Numeral.read? s).map fun (numeral, rest) => (.number numeral.value, rest)

/-- The tokens of a text, at most as many as the first argument says. -/
def upTo : Nat → List Char → Option (List Token)
  | limit, s =>
    match s.dropWhile isBlank with
    | [] => some []
    | c :: rest =>
      match limit with
      | 0 => none
      | limit + 1 => do
        let (token, rest) ← first? (c :: rest)
        let tokens ← upTo limit rest
        return token :: tokens

/-- The tokens of a text.  Each takes up a character, so there are no more than characters. -/
def ofText? (s : List Char) : Option (List Token) := upTo s.length s

end Token

end ConstFold.Json
