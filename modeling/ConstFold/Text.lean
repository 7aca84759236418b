/-!
# Texts

A text is a row of 16-bit code units.  A character up to `U+FFFF` is one unit.  Any other character is a pair of
units, a high and a low one, from two ranges that number no characters; and since a unit of these ranges may
also stand alone, not every text is a row of characters.

`ofString` gives the text of a row of characters.  `unicode` reads the characters off a text and puts the
replacement character where half of a pair stands alone.  `chars` shows each unit by a character of its own
and loses nothing; this is the view in which texts are taken apart.
-/

namespace ConstFold

/-! ## Code units -/

@[ext] structure CodeUnit where
  number : Nat
  number_lt : number < 0x10000
deriving DecidableEq, Repr

namespace CodeUnit

def ofNat (n : Nat) : CodeUnit := ⟨n % 0x10000, Nat.mod_lt n (by decide)⟩

/-- The first half of a pair. -/
def isHigh (u : CodeUnit) : Bool := 0xD800 ≤ u.number && u.number < 0xDC00

/-- The second half of a pair. -/
def isLow (u : CodeUnit) : Bool := 0xDC00 ≤ u.number && u.number < 0xE000

def isHalf (u : CodeUnit) : Bool := u.isHigh || u.isLow

/-- The character that shows a unit: the one of its number, or the one `0x10000` further on for half of a pair,
whose number is that of no character. -/
def char (u : CodeUnit) : Char := Char.ofNat (if u.isHalf then 0x10000 + u.number else u.number)

/-- The unit that a character shows. -/
def ofChar (c : Char) : CodeUnit := ofNat c.toNat

instance : Coe Char CodeUnit := ⟨ofChar⟩

/-- The units of a character. -/
def unitsOf (c : Char) : List CodeUnit :=
  if c.toNat < 0x10000 then [ofChar c]
  else [ofNat (0xD800 + (c.toNat - 0x10000) / 0x400), ofNat (0xDC00 + (c.toNat - 0x10000) % 0x400)]

/-- The character of a unit that is not part of a pair. -/
def alone (u : CodeUnit) : Char := if u.isHalf then '�' else Char.ofNat u.number

/-- The character of a pair. -/
def ofPair (high low : CodeUnit) : Char :=
  Char.ofNat (0x10000 + (high.number - 0xD800) * 0x400 + (low.number - 0xDC00))

/-- The characters of a row of units. -/
def decode : List CodeUnit → List Char
  | [] => []
  | [u] => [u.alone]
  | u :: v :: rest => if u.isHigh && v.isLow then ofPair u v :: decode rest else u.alone :: decode (v :: rest)

end CodeUnit

/-! ## Texts -/

@[ext] structure Text where
  units : List CodeUnit
deriving DecidableEq, Repr

namespace Text

/-- The text of a row of characters. -/
def ofString (s : String) : Text := ⟨s.toList.flatMap CodeUnit.unitsOf⟩

instance : Coe String Text := ⟨ofString⟩

instance : Inhabited Text := ⟨⟨[]⟩⟩

instance : Append Text := ⟨fun s t => ⟨s.units ++ t.units⟩⟩

/-- Texts one after the other, with another one between them. -/
def intercalate (separator : Text) (texts : List Text) : Text :=
  ⟨separator.units.intercalate (texts.map units)⟩

/-- The characters of a text. -/
def unicode (t : Text) : String := String.ofList (CodeUnit.decode t.units)

/-- The text with the replacement character in place of each half of a pair that stands alone. -/
def toWellFormed (t : Text) : Text := ofString t.unicode

/-- The units of a text, each as the character that shows it. -/
def chars (t : Text) : List Char := t.units.map CodeUnit.char

end Text

/-! ## Rows of texts -/

/-- The blanks at the start of a line, two for each level. -/
def indentation (level : Nat) : Text := ⟨List.replicate (2 * level) ' '⟩

def joinLines (lines : List Text) : Text := Text.intercalate "\n" lines

/-- Texts one after the other, with commas between them. -/
def commaList (texts : List Text) : Text := Text.intercalate ", " texts

end ConstFold
