import ConstFold.Proofs.Representation
import ConstFold.Proofs.Representatives
import Mathlib.Data.Nat.Digits.Defs

/-!
# Numerals of scalars

A numeral is a row of digits, with or without a minus sign before it, and denotes an integer by the places of
its digits (`Decimal.Numeral`).  Reading takes the digits from left to right and comes to the same number
(`Decimal.ofDigitChars_eq_placeValue`).  So a scalar is read from numerals and from nothing else, and then it is
the class of the integer (`Scalar.ofText?_eq_some_iff`).

The text of a scalar is the shortest numeral of its representative, and that is read back
(`Scalar.decimal_exact`).
-/

namespace ConstFold

namespace Decimal

/-- The number that digits denote by their places, of which the last one counts units. -/
def placeValue (ds : List Char) : Nat := Nat.ofDigits 10 (ds.reverse.map fun c => c.toNat - '0'.toNat)

structure Numeral where
  negative : Bool
  digits : List Char
  nonempty : digits ≠ []
  inRange : ∀ c ∈ digits, '0'.toNat ≤ c.toNat ∧ c.toNat ≤ '9'.toNat

namespace Numeral

def chars (n : Numeral) : List Char := if n.negative then '-' :: n.digits else n.digits

def value (n : Numeral) : Int := if n.negative then -(placeValue n.digits : Int) else placeValue n.digits

/-- A first digit zero stands alone. -/
def Shortest (n : Numeral) : Prop := n.digits.head? = some '0' → n.digits = ['0']

end Numeral

/-! ## Reading -/

theorem isDigit_iff {c : Char} : c.isDigit = true ↔ '0'.toNat ≤ c.toNat ∧ c.toNat ≤ '9'.toNat := by
  rw [Char.isDigit, Bool.and_eq_true, decide_eq_true_eq, decide_eq_true_eq, ge_iff_le, UInt32.le_iff_toNat_le,
    UInt32.le_iff_toNat_le]
  rfl

theorem placeValue_cons (c : Char) (ds : List Char) :
    placeValue (c :: ds) = 10 ^ ds.length * (c.toNat - '0'.toNat) + placeValue ds := by
  unfold placeValue
  rw [List.reverse_cons, List.map_append, Nat.ofDigits_append, List.length_map, List.length_reverse, List.map_singleton,
    Nat.ofDigits_singleton, Nat.add_comm]

/-- From left to right each digit multiplies what came before it by ten. -/
theorem ofDigitChars_eq_placeValue (ds : List Char) : Nat.ofDigitChars 10 ds 0 = placeValue ds := by
  induction ds with
  | nil => rfl
  | cons c ds ih =>
    rw [Nat.ofDigitChars_cons, Nat.mul_zero, Nat.zero_add, Nat.ofDigitChars_eq_ofDigitChars_zero, ih, placeValue_cons]

theorem denotes_iff {s : List Char} {z : Int} : Denotes s z ↔ ∃ n : Numeral, s = n.chars ∧ z = n.value := by
  constructor
  · intro h
    cases h with
    | plain hne hds =>
      refine ⟨⟨false, s, hne, fun c hc => isDigit_iff.1 (hds c hc)⟩, rfl, ?_⟩
      rw [ofDigitChars_eq_placeValue]
      rfl
    | @minus ds hne hds =>
      refine ⟨⟨true, ds, hne, fun c hc => isDigit_iff.1 (hds c hc)⟩, rfl, ?_⟩
      rw [ofDigitChars_eq_placeValue]
      rfl
  · rintro ⟨⟨negative, ds, hne, hrange⟩, rfl, rfl⟩
    have hds : ∀ c ∈ ds, c.isDigit = true := fun c hc => isDigit_iff.2 (hrange c hc)
    cases negative with
    | false =>
      have h := Denotes.plain hne hds
      rwa [ofDigitChars_eq_placeValue] at h
    | true =>
      have h := Denotes.minus hne hds
      rwa [ofDigitChars_eq_placeValue] at h

/-! ## Writing -/

namespace Numeral

/-- The numeral of a number, with no digit too many. -/
def ofNat (k : Nat) : Numeral where
  negative := false
  digits := Nat.toDigits 10 k
  nonempty := Nat.toDigits_ne_nil
  inRange c hc := isDigit_iff.1 (allDigits_toDigits k c hc)

theorem value_ofNat (k : Nat) : (ofNat k).value = k := by
  show (placeValue (Nat.toDigits 10 k) : Int) = k
  rw [← ofDigitChars_eq_placeValue, Nat.ofDigitChars_ten_toDigits]

theorem shortest_ofNat (k : Nat) : (ofNat k).Shortest := by
  intro hhead
  by_cases hk : k = 0
  · subst hk
    exact Nat.toDigits_zero 10
  · obtain ⟨c, cs, hcs, hc⟩ := toDigits_head hk
    simp only [ofNat, hcs, List.head?_cons, Option.some.injEq] at hhead
    exact absurd hhead hc

end Numeral

end Decimal

namespace Scalar

open Decimal

theorem ofText?_eq_some_iff {s : Text} {a : Scalar} :
    ofText? s = some a ↔ ∃ n : Numeral, s.chars = n.chars ∧ a = ofInt n.value := by
  rw [ofText?, Option.map_eq_some_iff]
  constructor
  · rintro ⟨z, hz, rfl⟩
    obtain ⟨n, hs, rfl⟩ := denotes_iff.1 (intOfChars?_eq_some_iff.1 hz)
    exact ⟨n, hs, rfl⟩
  · rintro ⟨n, hs, rfl⟩
    exact ⟨n.value, intOfChars?_eq_some_iff.2 (denotes_iff.2 ⟨n, hs, rfl⟩), rfl⟩

theorem chars_text (a : Scalar) : a.text.chars = (Numeral.ofNat a.val).chars := by
  rw [text, Text.chars_toString]
  rfl

/-! ## Top theorem -/

/-- **Scalars and their decimal text.**  A text is read as a scalar exactly if it is a numeral, of whatever length,
and the scalar's representative is then the remainder of the integer that the numeral denotes.  The text of a
scalar is a numeral of its representative, without a sign and without needless zeros, and reads back. -/
theorem decimal_exact :
    (∀ s : Text, (ofText? s).isSome = true ↔ ∃ n : Numeral, s.chars = n.chars) ∧
      (∀ (s : Text) (n : Numeral), s.chars = n.chars → ∃ a, ofText? s = some a ∧ a.toInt = n.value % modulus) ∧
      ∀ a : Scalar, ∃ n : Numeral, a.text.chars = n.chars ∧ n.negative = false ∧ n.Shortest ∧
        n.value = a.toInt ∧ ofText? a.text = some a := by
  refine ⟨fun s => ?_, fun s n hs => ?_, fun a => ?_⟩
  · rw [Option.isSome_iff_exists]
    constructor
    · rintro ⟨a, ha⟩
      obtain ⟨n, hs, -⟩ := ofText?_eq_some_iff.1 ha
      exact ⟨n, hs⟩
    · rintro ⟨n, hs⟩
      exact ⟨ofInt n.value, ofText?_eq_some_iff.2 ⟨n, hs, rfl⟩⟩
  · refine ⟨ofInt n.value, ofText?_eq_some_iff.2 ⟨n, hs, rfl⟩, ?_⟩
    rw [Representative.toInt_ofInt, Representative.reduce_eq]
  · exact ⟨.ofNat a.val, a.chars_text, rfl, Numeral.shortest_ofNat a.val, Numeral.value_ofNat a.val, a.ofText?_text⟩

/-- `-007`, of which the zeros count for nothing. -/
def minusSeven : Numeral := ⟨true, ['0', '0', '7'], by decide, by simp⟩

theorem minusSeven_read :
    ("-007" : Text).chars = minusSeven.chars ∧ ∃ a, ofText? "-007" = some a ∧ a.toInt = minusSeven.value % modulus :=
  ⟨by decide, decimal_exact.2.1 "-007" minusSeven (by decide)⟩

example : minusSeven.value = -7 ∧ ofText? "-007" = some (ofInt (-7)) ∧ ofText? "-" = none ∧ ofText? "+7" = none ∧
    ofText? "7\n" = none ∧ ofText? "٧" = none := by
  decide +kernel

end Scalar

end ConstFold
