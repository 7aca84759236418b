import ConstFold.Text

/-!
# Decimals of floating-point numbers

A floating-point number is a sign with a magnitude `mantissa · 2 ^ exponent`, an infinity or no number at all.
Everything the library decides about such numbers (is it an integer, what are its digits) it decides on this
form, in `Nat` and `Int`.  In messages and documents a number is written as its shortest decimal, positional for
moderate sizes and with a signed power of ten beyond them.  Zero has no sign.
-/

namespace ConstFold

/-! ## Numbers -/

inductive Binary64 where
  /-- The number `± mantissa · 2 ^ exponent`. -/
  | finite (negative : Bool) (mantissa : Nat) (exponent : Int)
  | infinite (negative : Bool)
  | notANumber
deriving DecidableEq, Repr, Inhabited

namespace Binary64

/-- The least mantissa of a normal number. -/
def leastNormal : Nat := Nat.pow 2 52

/-- The exponent shared by the subnormal numbers and the smallest normal ones. -/
def leastExponent : Int := -1074

/-- Reads sign, exponent field and fraction off the bit pattern. -/
def ofFloat (x : Float) : Binary64 :=
  let bits := x.toBits.toNat
  let negative := decide (Nat.pow 2 63 ≤ bits)
  let field := bits / leastNormal % 2048
  let fraction := bits % leastNormal
  if field = 2047 then
    if fraction = 0 then .infinite negative else .notANumber
  else if field = 0 then
    .finite negative fraction leastExponent
  else
    .finite negative (leastNormal + fraction) (leastExponent + (field - 1 : Nat))

/-- The integer that a number is, if it is one. -/
def toInt? : Binary64 → Option Int
  | .finite negative m q =>
    let magnitude? : Option Nat :=
      if 0 ≤ q then some (m * Nat.pow 2 q.toNat)
      else if m % Nat.pow 2 (-q).toNat = 0 then some (m / Nat.pow 2 (-q).toNat)
      else none
    magnitude?.map fun n => if negative then -(n : Int) else n
  | _ => none

/-- Integers up to this size are told apart by their floating-point values. -/
def maxSafe : Int := 9007199254740991

/-- The integer that a number is, if it is one and no larger than `maxSafe` on either side. -/
def safeInteger? (x : Binary64) : Option Int :=
  x.toInt?.filter fun z => decide (-maxSafe ≤ z ∧ z ≤ maxSafe)

end Binary64

/-!
## The shortest decimal

Among the decimals that round to a given positive number `m · 2 ^ q`, take those with the fewest digits,
and of these the nearest one, the even one on a tie.  A grid of `n` significant digits holds such a
decimal exactly if one of the two grid points next to the number does, so `n = 1, 2, …` are tried in turn
and seventeen digits always suffice.
-/

namespace Decimal

/-- How many decimal digits a number is written with. -/
def digitCount (n : Nat) : Nat := (Nat.toDigits 10 n).length

/-- The power of ten below `num / den`: `10 ^ p ≤ num / den < 10 ^ (p + 1)`. -/
def leadingPower (num den : Nat) : Int :=
  if den ≤ num then (digitCount (num / den) : Int) - 1
  else -(digitCount ((den - 1) / num) : Int)

/-- The better of the two grid points `d` and `d + 1` around a number, among those that round to it;
`r / b` is the number's distance from `d`. -/
def nearerHit (d r b : Nat) (lowHit highHit : Bool) : Option Nat :=
  match lowHit, highHit with
  | false, false => none
  | true, false => some d
  | false, true => some (d + 1)
  | true, true =>
    if 2 * r < b then some d
    else if b < 2 * r then some (d + 1)
    else some (if d % 2 = 0 then d else d + 1)

/-- The digits `d` and the power `t` of a grid point `d · 10 ^ t` that rounds to `m · 2 ^ q`, on the grid of
`n` significant digits; `p` is the leading power of the number.

In units of `2 ^ (q - 2)` the number is `4 m`, and the decimals that round to it reach up to `4 m + 2` and
down to `4 m - 2`, or to `4 m - 1` where the numbers below lie twice as close.  The two ends round to
the number exactly if its mantissa is even. -/
def onGrid (m : Nat) (q p : Int) (n : Nat) : Option (Nat × Int) :=
  let t := p - n + 1
  let scale := Nat.pow 2 (q - 2).toNat * Nat.pow 10 (-t).toNat
  let b := Nat.pow 2 (2 - q).toNat * Nat.pow 10 t.toNat
  let value := 4 * m * scale
  let below := if m = Binary64.leastNormal ∧ q ≠ Binary64.leastExponent then 1 else 2
  let low := (4 * m - below) * scale
  let high := (4 * m + 2) * scale
  let d := value / b
  let lowHit := if m % 2 = 0 then decide (low ≤ d * b) else decide (low < d * b)
  let highHit := if m % 2 = 0 then decide ((d + 1) * b ≤ high) else decide ((d + 1) * b < high)
  (nearerHit d (value % b) b lowHit highHit).map fun d => (d, t)

/-- The shortest decimal `d · 10 ^ t` that rounds to `m · 2 ^ q`, as `(d, t)`. -/
def shortest (m : Nat) (q : Int) : Nat × Int :=
  let p := leadingPower (m * Nat.pow 2 q.toNat) (Nat.pow 2 (-q).toNat)
  ((List.range 17).findSome? fun i => onGrid m q p (i + 1)).getD (0, 0)

/-! ## Notation -/

/-- Numbers below `10 ^ 21` are written without a power of ten. -/
def positionalBelow : Int := 21

/-- Numbers from `10 ^ (-6)` on are written without a power of ten. -/
def positionalFrom : Int := -6

/-- Drops the zeros at the end. -/
def trimZeros (digits : List Char) : List Char :=
  (digits.reverse.dropWhile (· == '0')).reverse

def zeros (n : Int) : List Char := List.replicate n.toNat '0'

/-- The sign that a power of ten is always written with. -/
def signed (e : Int) : List Char :=
  (if e < 0 then '-' else '+') :: Nat.toDigits 10 e.natAbs

/-- Writes `0.d₁d₂… · 10 ^ point`, where `d₁` and the last digit are not zero. -/
def layout (digits : List Char) (point : Int) : List Char :=
  let count : Int := digits.length
  if count ≤ point ∧ point ≤ positionalBelow then
    digits ++ zeros (point - count)
  else if 0 < point ∧ point ≤ positionalBelow then
    digits.take point.toNat ++ '.' :: digits.drop point.toNat
  else if positionalFrom < point ∧ point ≤ 0 then
    '0' :: '.' :: zeros (-point) ++ digits
  else
    digits.take 1 ++ (if count = 1 then [] else '.' :: digits.drop 1) ++ 'e' :: signed (point - 1)

/-- The text of a magnitude `m · 2 ^ q`. -/
def magnitudeText (m : Nat) (q : Int) : List Char :=
  if m = 0 then ['0']
  else
    let (d, t) := shortest m q
    let digits := Nat.toDigits 10 d
    layout (trimZeros digits) (digits.length + t)

end Decimal

/-- The text of a number. -/
def Binary64.text : Binary64 → Text
  | .notANumber => "NaN"
  | .infinite negative => if negative then "-Infinity" else "Infinity"
  | .finite negative m q =>
    String.ofList ((if negative ∧ m ≠ 0 then ['-'] else []) ++ Decimal.magnitudeText m q)

end ConstFold
