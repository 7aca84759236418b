import ConstFold.Fault

/-!
# Scalars

The elements of the prime field that programs compute in.  A scalar is held as its representative below
the modulus, so two scalars are equal exactly if their representatives are, and the order of
representatives is the order that comparisons use.  It is written as its representative in decimal, and read
from an optional minus sign and one or more digits, of any length and value, and nothing else.
-/

namespace ConstFold

/-- The number of elements of the field. -/
def modulus : Nat :=
  21888242871839275222246405745257275088548364400416034343698204186575808495617

theorem modulus_pos : 0 < modulus := by decide

structure Scalar where
  val : Nat
  val_lt : val < modulus
deriving DecidableEq, Repr

namespace Scalar

/-! ## Construction -/

def ofNat (n : Nat) : Scalar := ⟨n % modulus, Nat.mod_lt n modulus_pos⟩

theorem emod_modulus_lt (z : Int) : (z % modulus).toNat < modulus := by
  have h : (0 : Int) < modulus := by exact_mod_cast modulus_pos
  have := Int.emod_lt_of_pos z h
  have := Int.emod_nonneg z (Int.ne_of_gt h)
  omega

/-- The class of an integer, negative ones included. -/
def ofInt (z : Int) : Scalar := ⟨(z % modulus).toNat, emod_modulus_lt z⟩

/-- The scalar of a number that is an integer of safe size. -/
def ofBinary64 (x : Binary64) : Except Fault Scalar :=
  match x.safeInteger? with
  | some z => .ok (ofInt z)
  | none => .error (.unsafeInteger x)

/-! ## Arithmetic -/

instance : Zero Scalar := ⟨ofNat 0⟩
instance : One Scalar := ⟨ofNat 1⟩
instance : Add Scalar := ⟨fun a b => ofNat (a.val + b.val)⟩
instance : Sub Scalar := ⟨fun a b => ofInt ((a.val : Int) - b.val)⟩
instance : Mul Scalar := ⟨fun a b => ofNat (a.val * b.val)⟩

def isZero (a : Scalar) : Bool := a.val == 0

/-- Square and multiply over the lowest `bits` binary digits of the exponent. -/
def powBits : Nat → Scalar → Nat → Scalar → Scalar
  | 0, _, _, acc => acc
  | bits + 1, base, e, acc =>
    powBits bits (base * base) (e / 2) (if e % 2 = 1 then acc * base else acc)

instance : Pow Scalar Nat := ⟨fun a e => powBits (e.log2 + 1) a e 1⟩

/-- The power with an integer exponent, which must not be negative. -/
def power (a : Scalar) : Int → Except Fault Scalar
  | .ofNat e => .ok (a ^ e)
  | .negSucc e => .error (.negativeExponent (.negSucc e))

/-- The inverse of a scalar: its power to the modulus less two.  Zero has none. -/
def inverse (a : Scalar) : Except Fault (Option Scalar) :=
  if a.isZero then .ok none else (a.power ((modulus : Int) - 2)).map some

def divide (a b : Scalar) : Except Fault (Option Scalar) := b.inverse.map (Option.map (a * ·))

/-- The exponent of an inverse is not negative. -/
theorem inverse_eq (a : Scalar) : a.inverse = .ok (if a.isZero then none else some (a ^ (modulus - 2))) := by
  have hexponent : (modulus : Int) - 2 = (modulus - 2 : Nat) := by decide
  rw [inverse, hexponent]
  split <;> rfl

theorem divide_eq (a b : Scalar) :
    a.divide b = .ok (if b.isZero then none else some (a * b ^ (modulus - 2))) := by
  rw [divide, inverse_eq]
  split <;> rfl

/-! ## Order -/

instance : Ord Scalar := ⟨fun a b => compare a.val b.val⟩
instance : LT Scalar := ⟨fun a b => a.val < b.val⟩
instance : LE Scalar := ⟨fun a b => a.val ≤ b.val⟩
instance (a b : Scalar) : Decidable (a < b) := inferInstanceAs (Decidable (a.val < b.val))
instance (a b : Scalar) : Decidable (a ≤ b) := inferInstanceAs (Decidable (a.val ≤ b.val))

end Scalar

/-! ## Decimal text -/

namespace Decimal

/-- The number that a nonempty row of digits denotes. -/
def natOfDigits? (digits : List Char) : Option Nat :=
  if digits ≠ [] ∧ digits.all Char.isDigit then some (Nat.ofDigitChars 10 digits 0) else none

/-- The integer that digits after an optional minus sign denote. -/
def intOfChars? : List Char → Option Int
  | '-' :: digits => (natOfDigits? digits).map fun n => -(n : Int)
  | digits => (natOfDigits? digits).map Int.ofNat

end Decimal

namespace Scalar

def ofText? (s : Text) : Option Scalar := (Decimal.intOfChars? s.chars).map ofInt

def text (a : Scalar) : Text := toString a.val

end Scalar

end ConstFold
