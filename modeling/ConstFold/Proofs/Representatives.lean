import ConstFold.Expr
import ConstFold.Proofs.Powers

/-!
# Computing with representatives

The operations on scalars can be carried out on plain integers, each followed by a reduction into the range of
representatives (`Representative.reduce`); only the power reduces as it goes.  A calculation is a row of steps
on registers (`Calculation`).  Step by step, the integers in the registers are the representatives of the
scalars (`Calculation.integers_eq`), so none of them ever leaves the range.

Two integers stand for one scalar exactly if the modulus divides their difference, sums, differences and
products may be taken before or after (`Scalar.ofInt_add`, ...), and comparisons follow the order of
representatives (`Scalar.arithmetic_canonical`).
-/

namespace ConstFold

/-- The representative of a scalar, as an integer. -/
def Scalar.toInt (a : Scalar) : Int := a.val

/-! ## Operations on integers -/

namespace Representative

/-- Brings an integer into range.  The remainder has the sign of the dividend. -/
def reduce (z : Int) : Int :=
  let r := z.tmod modulus
  if r < 0 then r + modulus else r

def power? (v e : Int) : Option Int := if e < 0 then none else some (PowerLoop.start v e).run

def inverse? (v : Int) : Option Int := if v = 0 then none else power? v (modulus - 2)

end Representative

/-! ## Calculations -/

/-- A step of a calculation: a new scalar from a number or a text, or from what is in the registers with the
given numbers. -/
inductive CalculationStep where
  | ofInt (z : Int)
  | ofNumber (x : Binary64)
  | ofText (s : Text)
  | add (i j : Nat)
  | sub (i j : Nat)
  | mul (i j : Nat)
  | divide (i j : Nat)
  | inverse (i : Nat)
  | power (i : Nat) (exponent : Int)

abbrev Calculation := List CalculationStep

namespace CalculationStep

/-- What a step makes of scalars, if it has a result. -/
def scalar? (registers : List Scalar) : CalculationStep → Option Scalar
  | .ofInt z => some (.ofInt z)
  | .ofNumber x => (Scalar.ofBinary64 x).toOption
  | .ofText s => Scalar.ofText? s
  | .add i j => do return (← registers[i]?) + (← registers[j]?)
  | .sub i j => do return (← registers[i]?) - (← registers[j]?)
  | .mul i j => do return (← registers[i]?) * (← registers[j]?)
  | .divide i j => do ((← registers[i]?).divide (← registers[j]?)).toOption.join
  | .inverse i => do (← registers[i]?).inverse.toOption.join
  | .power i e => do ((← registers[i]?).power e).toOption

/-- The same on integers. -/
def integer? (registers : List Int) : CalculationStep → Option Int
  | .ofInt z => some (Representative.reduce z)
  | .ofNumber x => x.safeInteger?.map Representative.reduce
  | .ofText s => (Decimal.intOfChars? s.chars).map Representative.reduce
  | .add i j => do return Representative.reduce ((← registers[i]?) + (← registers[j]?))
  | .sub i j => do return Representative.reduce ((← registers[i]?) - (← registers[j]?))
  | .mul i j => do return Representative.reduce ((← registers[i]?) * (← registers[j]?))
  | .divide i j => do
    let u ← registers[i]?
    let v ← registers[j]?
    return Representative.reduce (u * (← Representative.inverse? v))
  | .inverse i => do Representative.inverse? (← registers[i]?)
  | .power i e => do Representative.power? (← registers[i]?) e

end CalculationStep

namespace Calculation

/-- The registers after a calculation, with zero and one in the first two.  A step without a result leaves
them as they are. -/
def scalars (steps : Calculation) : List Scalar :=
  steps.foldl (fun registers step => registers ++ (step.scalar? registers).toList) [0, 1]

def integers (steps : Calculation) : List Int :=
  steps.foldl (fun registers step => registers ++ (step.integer? registers).toList) [0, 1]

end Calculation

/-! ## Integers and scalars -/

namespace Scalar

theorem toInt_nonneg (a : Scalar) : 0 ≤ a.toInt := Int.natCast_nonneg a.val

theorem toInt_lt (a : Scalar) : a.toInt < modulus := Int.ofNat_lt.2 a.val_lt

theorem toInt_inj {a b : Scalar} : a.toInt = b.toInt ↔ a = b := by
  obtain ⟨a, ha⟩ := a
  obtain ⟨b, hb⟩ := b
  simp [toInt]

end Scalar

namespace Representative

theorem reduce_eq (z : Int) : reduce z = z % modulus := by
  have hpos : (0 : Int) < modulus := by exact_mod_cast modulus_pos
  have hnonneg := Int.emod_nonneg z hpos.ne'
  have hlt := Int.emod_lt_of_pos z hpos
  have habs : (((modulus : Int).natAbs : Nat) : Int) = modulus := Int.natAbs_of_nonneg hpos.le
  simp only [reduce]
  rw [Int.tmod_eq_emod]
  split
  · split <;> omega
  · -- below zero, a remainder other than zero falls short by one modulus
    rename_i hsign
    have hne : z % modulus ≠ 0 := fun h => hsign (.inr (Int.dvd_of_emod_eq_zero h))
    split <;> omega

theorem toInt_ofInt (z : Int) : (Scalar.ofInt z).toInt = reduce z := by
  have hpos : (0 : Int) < modulus := by exact_mod_cast modulus_pos
  rw [reduce_eq]
  exact Int.toNat_of_nonneg (Int.emod_nonneg z hpos.ne')

theorem toInt_ofNat (n : Nat) : (Scalar.ofNat n).toInt = reduce n := by
  rw [reduce_eq]
  exact Int.natCast_emod n modulus

theorem toInt_add (a b : Scalar) : (a + b).toInt = reduce (a.toInt + b.toInt) :=
  (toInt_ofNat (a.val + b.val)).trans (congrArg reduce (Int.natCast_add _ _))

theorem toInt_sub (a b : Scalar) : (a - b).toInt = reduce (a.toInt - b.toInt) := toInt_ofInt (a.toInt - b.toInt)

theorem toInt_mul (a b : Scalar) : (a * b).toInt = reduce (a.toInt * b.toInt) :=
  (toInt_ofNat (a.val * b.val)).trans (congrArg reduce (Int.natCast_mul _ _))

theorem run_toInt (a : Scalar) (e : Nat) : (PowerLoop.start a.toInt e).run = (a ^ e).toInt := by
  rw [PowerLoop.run_start a.toInt_nonneg, Scalar.toInt, Scalar.toInt, a.val_pow]
  push_cast
  rfl

theorem power?_toInt (a : Scalar) (e : Int) : power? a.toInt e = (a.power e).toOption.map Scalar.toInt := by
  unfold power?
  cases e with
  | ofNat n =>
    exact (if_neg (Int.not_lt.2 (Int.natCast_nonneg n))).trans (congrArg some (run_toInt a n))
  | negSucc n =>
    rw [if_pos (Int.negSucc_lt_zero n)]
    rfl

theorem inverse?_toInt (a : Scalar) : inverse? a.toInt = a.inverse.toOption.join.map Scalar.toInt := by
  have hzero : a.toInt = 0 ↔ a.isZero = true := by simp [Scalar.toInt, Scalar.isZero]
  unfold inverse? Scalar.inverse
  by_cases h : a.isZero = true
  · rw [if_pos (hzero.2 h), if_pos h]
    rfl
  · rw [if_neg (fun hval => h (hzero.1 hval)), if_neg h, power?_toInt]
    cases a.power ((modulus : Int) - 2) <;> rfl

end Representative

open Representative

namespace CalculationStep

/-- A step on representatives gives the representative of its result on scalars. -/
theorem integer?_map (registers : List Scalar) (step : CalculationStep) :
    step.integer? (registers.map Scalar.toInt) = (step.scalar? registers).map Scalar.toInt := by
  cases step with
  | ofInt z => simp [integer?, scalar?, toInt_ofInt]
  | ofNumber x =>
    cases h : x.safeInteger? <;> simp [integer?, scalar?, Scalar.ofBinary64, h, toInt_ofInt, Except.toOption]
  | ofText s => simp [integer?, scalar?, Scalar.ofText?, Function.comp_def, toInt_ofInt]
  | add i j =>
    cases hi : registers[i]? <;> cases hj : registers[j]? <;> simp [integer?, scalar?, hi, hj, toInt_add]
  | sub i j =>
    cases hi : registers[i]? <;> cases hj : registers[j]? <;> simp [integer?, scalar?, hi, hj, toInt_sub]
  | mul i j =>
    cases hi : registers[i]? <;> cases hj : registers[j]? <;> simp [integer?, scalar?, hi, hj, toInt_mul]
  | divide i j =>
    cases hi : registers[i]? with
    | none => simp [integer?, scalar?, hi]
    | some a =>
      cases hj : registers[j]? with
      | none => simp [integer?, scalar?, hi, hj]
      | some b =>
        rcases hinv : b.inverse with cause | (_ | v) <;>
          simp [integer?, scalar?, hi, hj, inverse?_toInt, Scalar.divide, hinv, toInt_mul, Except.map, Except.toOption]
  | inverse i => cases hi : registers[i]? <;> simp [integer?, scalar?, hi, inverse?_toInt]
  | power i e => cases hi : registers[i]? <;> simp [integer?, scalar?, hi, power?_toInt]

end CalculationStep

/-- A calculation on integers is the one on scalars, seen through their representatives. -/
theorem Calculation.integers_eq (steps : Calculation) : steps.integers = steps.scalars.map Scalar.toInt := by
  have hstep (registers : List Scalar) (step : CalculationStep) :
      registers.map Scalar.toInt ++ (step.integer? (registers.map Scalar.toInt)).toList =
        (registers ++ (step.scalar? registers).toList).map Scalar.toInt := by
    rw [step.integer?_map, List.map_append]
    cases step.scalar? registers <;> rfl
  have hstart : ([0, 1] : List Int) = [0, 1].map Scalar.toInt := rfl
  unfold integers scalars
  rw [hstart]
  exact List.foldl_hom (List.map Scalar.toInt) hstep

/-! ## Classes of integers -/

namespace Scalar

theorem ofInt_surjective : Function.Surjective ofInt := by
  intro a
  refine ⟨a.toInt, toInt_inj.1 ?_⟩
  rw [toInt_ofInt, reduce_eq, Int.emod_eq_of_lt a.toInt_nonneg a.toInt_lt]

theorem ofInt_add (x y : Int) : ofInt (x + y) = ofInt x + ofInt y := by
  apply residue_injective
  simp

theorem ofInt_sub (x y : Int) : ofInt (x - y) = ofInt x - ofInt y := by
  apply residue_injective
  simp

theorem ofInt_mul (x y : Int) : ofInt (x * y) = ofInt x * ofInt y := by
  apply residue_injective
  simp

theorem ofInt_eq_iff (x y : Int) : ofInt x = ofInt y ↔ (modulus : Int) ∣ x - y := by
  rw [← residue_inj, residue_ofInt, residue_ofInt, eq_comm]
  exact ZMod.intCast_eq_intCast_iff_dvd_sub y x modulus

end Scalar

/-! ## Order -/

/-- How an operator is read off the way in which two scalars compare. -/
def CompareOp.admits : CompareOp → Ordering → Bool
  | .eq, o => o.isEq
  | .lt, o => o.isLT
  | .le, o => o.isLE
  | .gt, o => o.isGT
  | .ge, o => o.isGE

namespace Scalar

theorem compare_eq_lt_iff (a b : Scalar) : compare a b = .lt ↔ a.toInt < b.toInt :=
  Nat.compare_eq_lt.trans Int.ofNat_lt.symm

theorem compare_eq_gt_iff (a b : Scalar) : compare a b = .gt ↔ b.toInt < a.toInt :=
  Nat.compare_eq_gt.trans Int.ofNat_lt.symm

theorem compare_eq_eq_iff (a b : Scalar) : compare a b = .eq ↔ a = b := by
  rw [← toInt_inj]
  exact Nat.compare_eq_eq.trans Int.ofNat_inj.symm

theorem holds_eq_admits (op : CompareOp) (a b : Scalar) : op.holds a b = op.admits (compare a b) := by
  have hlt : a < b ↔ compare a b = .lt := Nat.compare_eq_lt.symm
  have hgt : b < a ↔ compare a b = .gt := Nat.compare_eq_gt.symm
  have hle : a ≤ b ↔ compare a b ≠ .gt := Nat.compare_ne_gt.symm
  have hge : b ≤ a ↔ compare a b ≠ .lt := Nat.compare_ne_lt.symm
  have heq : a = b ↔ compare a b = .eq := (compare_eq_eq_iff a b).symm
  cases op <;> cases hc : compare a b <;> simp_all [CompareOp.holds, CompareOp.admits]

theorem isLinearOrder_le : IsLinearOrder Scalar fun a b => CompareOp.le.holds a b = true where
  refl a := decide_eq_true (Nat.le_refl a.val)
  trans _ _ _ hab hbc := decide_eq_true (Nat.le_trans (of_decide_eq_true hab) (of_decide_eq_true hbc))
  antisymm _ _ hab hba :=
    toInt_inj.1 (Int.le_antisymm (Int.ofNat_le.2 (of_decide_eq_true hab)) (Int.ofNat_le.2 (of_decide_eq_true hba)))
  total a b := (Nat.le_total a.val b.val).imp decide_eq_true decide_eq_true

/-! ## Top theorem -/

/-- **Scalars are the integers modulo the modulus, held as their representatives.**  Whatever is calculated on
plain integers, step by step with reductions, stays in range and is what scalars give.  Integers become scalars
by a surjection that respects sums, differences and products, and two of them become the same scalar exactly
if the modulus divides their difference.  All comparisons follow one total order, that of representatives. -/
theorem arithmetic_canonical :
    (∀ steps : Calculation, steps.integers = steps.scalars.map toInt ∧ ∀ v ∈ steps.integers, 0 ≤ v ∧ v < modulus) ∧
      (Function.Surjective ofInt ∧ ofInt 0 = 0 ∧ ofInt 1 = 1 ∧
        ∀ x y, ofInt x + ofInt y = ofInt (x + y) ∧ ofInt x - ofInt y = ofInt (x - y) ∧
          ofInt x * ofInt y = ofInt (x * y)) ∧
      (∀ x y, CompareOp.eq.holds (ofInt x) (ofInt y) = true ↔ (modulus : Int) ∣ x - y) ∧
      IsLinearOrder Scalar (fun a b => CompareOp.le.holds a b = true) ∧
      ∀ a b : Scalar, (compare a b = .lt ↔ a.toInt < b.toInt) ∧ (compare a b = .gt ↔ b.toInt < a.toInt) ∧
        (compare a b = .eq ↔ CompareOp.eq.holds a b = true) ∧ (CompareOp.eq.holds a b = true ↔ a.toInt = b.toInt) ∧
        ∀ op : CompareOp, op.holds a b = op.admits (compare a b) := by
  refine ⟨fun steps => ⟨steps.integers_eq, ?_⟩, ⟨ofInt_surjective, rfl, rfl, fun x y => ?_⟩, fun x y => ?_,
    isLinearOrder_le, fun a b => ?_⟩
  · intro v hv
    rw [steps.integers_eq] at hv
    obtain ⟨a, -, rfl⟩ := List.mem_map.1 hv
    exact ⟨a.toInt_nonneg, a.toInt_lt⟩
  · exact ⟨(ofInt_add x y).symm, (ofInt_sub x y).symm, (ofInt_mul x y).symm⟩
  · rw [← ofInt_eq_iff]
    exact beq_iff_eq
  · have hequals : CompareOp.eq.holds a b = true ↔ a = b := beq_iff_eq
    refine ⟨compare_eq_lt_iff a b, compare_eq_gt_iff a b, ?_, ?_, fun op => holds_eq_admits op a b⟩
    · rw [hequals]
      exact compare_eq_eq_iff a b
    · rw [hequals, toInt_inj]

/-- Registers 2 to 5: `-7`, `21`, `21 / -7` and the square of that; there is no power to a negative exponent. -/
def belowZero : Calculation := [.ofText "-7", .ofInt 21, .divide 3 2, .power 4 2, .power 1 (-5)]

theorem belowZero_canonical :
    belowZero.integers = [0, 1, (modulus : Int) - 7, 21, (modulus : Int) - 3, 9] ∧
      (modulus : Int) - 3 ∈ belowZero.integers ∧ 0 ≤ (modulus : Int) - 3 ∧ (modulus : Int) - 3 < modulus := by
  have hintegers : belowZero.integers = [0, 1, (modulus : Int) - 7, 21, (modulus : Int) - 3, 9] := by
    rw [Calculation.integers_eq]
    decide +kernel
  have hmem : (modulus : Int) - 3 ∈ belowZero.integers := by simp [hintegers]
  exact ⟨hintegers, hmem, (arithmetic_canonical.1 belowZero).2 _ hmem⟩

end Scalar

end ConstFold
