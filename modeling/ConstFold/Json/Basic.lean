import ConstFold.Decimal
import ConstFold.Json.Lexer
import ConstFold.Table

/-!
# JSON

An object is a list of members with distinct keys in the order of their first appearance.  Numbers are
floating-point values, strings and keys any texts.

`Json.parse?` reads a document: one value and nothing after it.  `Json.text` writes a value with items and
members on lines of their own, two columns further in than what holds them; what holds none is written without a
break.  A number that is not finite has no numeral and is written as `null`.
-/

namespace ConstFold

inductive Json where
  | null
  | bool (value : Bool)
  | number (value : Float)
  | string (value : Text)
  | array (items : List Json)
  | object (members : List (Text × Json))

namespace Json

def string? : Json → Option Text
  | .string s => some s
  | _ => none

def bool? : Json → Option Bool
  | .bool b => some b
  | _ => none

def array? : Json → Option (List Json)
  | .array items => some items
  | _ => none

def object? : Json → Option (List (Text × Json))
  | .object members => some members
  | _ => none

/-!
## Reading

The readers take tokens from the front of a row and return the rest.  Their first argument bounds the depth of
calls; each token is passed by two calls at most, so twice the number of tokens is always enough.
-/

mutual

def readValue? : Nat → List Token → Option (Json × List Token)
  | 0, _ => none
  | depth + 1, tokens =>
    match tokens with
    | .null :: rest => some (.null, rest)
    | .bool b :: rest => some (.bool b, rest)
    | .number x :: rest => some (.number x, rest)
    | .string s :: rest => some (.string s, rest)
    | .openBracket :: .closeBracket :: rest => some (.array [], rest)
    | .openBracket :: rest => do
      let (items, rest) ← readItems? depth rest
      return (.array items, rest)
    | .openBrace :: .closeBrace :: rest => some (.object [], rest)
    | .openBrace :: rest => do
      let (members, rest) ← readMembers? depth rest
      return (.object (Keyed.ofPairs members), rest)
    | _ => none

/-- One or more values up to the closing bracket. -/
def readItems? : Nat → List Token → Option (List Json × List Token)
  | 0, _ => none
  | depth + 1, tokens => do
    let (item, rest) ← readValue? depth tokens
    match rest with
    | .comma :: rest => do
      let (items, rest) ← readItems? depth rest
      return (item :: items, rest)
    | .closeBracket :: rest => return ([item], rest)
    | _ => none

/-- One or more members up to the closing brace, as written: keys may repeat. -/
def readMembers? : Nat → List Token → Option (List (Text × Json) × List Token)
  | 0, _ => none
  | depth + 1, tokens =>
    match tokens with
    | .string key :: .colon :: rest => do
      let (value, rest) ← readValue? depth rest
      match rest with
      | .comma :: rest => do
        let (members, rest) ← readMembers? depth rest
        return ((key, value) :: members, rest)
      | .closeBrace :: rest => return ([(key, value)], rest)
      | _ => none
    | _ => none

end

/-- The value of a row of tokens. -/
def ofTokens? (tokens : List Token) : Option Json :=
  match readValue? (2 * tokens.length) tokens with
  | some (value, []) => some value
  | _ => none

/-- The value of a document. -/
def parse? (source : Text) : Option Json := (Token.ofText? source.chars).bind ofTokens?

/-! ## Writing -/

def numberText (x : Float) : Text :=
  match Binary64.ofFloat x with
  | .finite negative m q => (Binary64.finite negative m q).text
  | _ => "null"

/-- Lines between an opening and a closing mark, with commas between them. -/
def block (level : Nat) (opening closing : Text) (lines : List Text) : Text :=
  opening ++ "\n" ++ Text.intercalate ",\n" lines ++ "\n" ++ indentation level ++ closing

mutual

def textAt (level : Nat) : Json → Text
  | .null => "null"
  | .bool b => if b then "true" else "false"
  | .number x => numberText x
  | .string s => Quoted.write s
  | .array [] => "[]"
  | .array (item :: items) =>
    block level "[" "]" (itemLines (level + 1) (item :: items))
  | .object [] => "\x7b\x7d"
  | .object (member :: members) =>
    block level "\x7b" "\x7d" (memberLines (level + 1) (member :: members))

def itemLines (level : Nat) : List Json → List Text
  | [] => []
  | item :: items => (indentation level ++ textAt level item) :: itemLines level items

def memberLines (level : Nat) : List (Text × Json) → List Text
  | [] => []
  | (key, value) :: members =>
    (indentation level ++ Quoted.write key ++ ": " ++ textAt level value) :: memberLines level members

end

/-- The text of a value, as it stands at the margin. -/
def text (j : Json) : Text := j.textAt 0

end Json

end ConstFold
