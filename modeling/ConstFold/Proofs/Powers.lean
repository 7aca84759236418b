import ConstFold.Proofs.Field
import Mathlib.Data.Nat.Size

/-!
# The loop of the power

On representatives a power is a loop over three integers: the result so far, a base that is squared in every
round and what remains of the exponent (`PowerLoop`).  What remains is halved in every round, so the loop ends
after as many rounds as the exponent has binary digits and not before (`PowerLoop.endsAfter_size`).

A round keeps the class of `result * base ^ remaining`, and it keeps the result in range
(`PowerLoop.Keeps.next`).  When nothing remains the result is the representative of the power
(`PowerLoop.run_start`), which is what the power of scalars holds (`Scalar.power_exact`).
-/

namespace ConstFold

/-- The three integers of the loop. -/
structure PowerLoop where
  result : Int
  base : Int
  remaining : Int

namespace PowerLoop

/-! ## Algorithm -/

def start (base exponent : Int) : PowerLoop := ⟨1, base, exponent⟩

/-- A round.  Quotients are rounded towards zero, and remainders have the sign of the dividend. -/
def next (l : PowerLoop) : PowerLoop where
  result := if l.remaining.tmod 2 = 1 then (l.result * l.base).tmod modulus else l.result
  base := (l.base * l.base).tmod modulus
  remaining := l.remaining.tdiv 2

theorem remaining_next (l : PowerLoop) (h : 0 ≤ l.remaining) : l.next.remaining = l.remaining / 2 :=
  Int.tdiv_eq_ediv_of_nonneg h

/-- The result of the loop, which goes on while something remains. -/
def run (l : PowerLoop) : Int := if 0 < l.remaining then l.next.run else l.result
termination_by l.remaining.toNat
decreasing_by
  rw [remaining_next l (by omega)]
  omega

/-- Something remains before each of so many rounds, and nothing after them. -/
def EndsAfter (l : PowerLoop) (rounds : Nat) : Prop := ∀ k, 0 < (next^[k] l).remaining ↔ k < rounds

/-! ## Rounds -/

/-- What every round of the loop for `a ^ e` keeps. -/
structure Keeps (a : Int) (e : Nat) (l : PowerLoop) : Prop where
  result_nonneg : 0 ≤ l.result
  result_lt : l.result < modulus
  base_nonneg : 0 ≤ l.base
  remaining_nonneg : 0 ≤ l.remaining
  power_eq : (l.result : ZMod modulus) * (l.base : ZMod modulus) ^ l.remaining.toNat = (a : ZMod modulus) ^ e

theorem keeps_start {a : Int} (ha : 0 ≤ a) (e : Nat) : Keeps a e (start a e) where
  result_nonneg := by simp [start]
  result_lt := by simp [start, modulus]
  base_nonneg := ha
  remaining_nonneg := by simp [start]
  power_eq := by simp [start]

theorem tmod_modulus {z : Int} (h : 0 ≤ z) :
    0 ≤ z.tmod modulus ∧ z.tmod modulus < modulus ∧ ((z.tmod modulus : Int) : ZMod modulus) = z := by
  have hpos : (0 : Int) < modulus := by exact_mod_cast modulus_pos
  rw [Int.tmod_eq_emod_of_nonneg h]
  exact ⟨Int.emod_nonneg z hpos.ne', Int.emod_lt_of_pos z hpos, ZMod.intCast_mod z modulus⟩

namespace Keeps

variable {a : Int} {e : Nat} {l : PowerLoop}

/-- The class is kept because a square to half the exponent is the base to the even part of the exponent. -/
theorem power_next (h : Keeps a e l) :
    (l.next.result : ZMod modulus) * (l.next.base : ZMod modulus) ^ l.next.remaining.toNat =
      (l.result : ZMod modulus) * (l.base : ZMod modulus) ^ l.remaining.toNat := by
  have hbase : (l.next.base : ZMod modulus) = (l.base : ZMod modulus) ^ 2 := by
    rw [next, (tmod_modulus (Int.mul_nonneg h.base_nonneg h.base_nonneg)).2.2, Int.cast_mul, pow_two]
  have hhalf : l.next.remaining.toNat = l.remaining.toNat / 2 := by
    rw [remaining_next l h.remaining_nonneg]
    omega
  have hnonneg := h.remaining_nonneg
  rw [hbase, hhalf, ← pow_mul]
  by_cases hodd : l.remaining.tmod 2 = 1
  · -- the digit that is dropped has gone into the result
    have hresult : (l.next.result : ZMod modulus) = l.result * l.base := by
      rw [next, if_pos hodd, (tmod_modulus (Int.mul_nonneg h.result_nonneg h.base_nonneg)).2.2, Int.cast_mul]
    rw [Int.tmod_eq_emod_of_nonneg hnonneg] at hodd
    have hsplit : l.remaining.toNat = 2 * (l.remaining.toNat / 2) + 1 := by omega
    conv_rhs => rw [hsplit, pow_succ']
    rw [hresult, mul_assoc]
  · have hresult : l.next.result = l.result := by rw [next, if_neg hodd]
    rw [Int.tmod_eq_emod_of_nonneg hnonneg] at hodd
    have hsplit : 2 * (l.remaining.toNat / 2) = l.remaining.toNat := by omega
    rw [hresult, hsplit]

theorem next (h : Keeps a e l) : Keeps a e l.next where
  result_nonneg := by
    rw [PowerLoop.next]
    split
    · exact (tmod_modulus (Int.mul_nonneg h.result_nonneg h.base_nonneg)).1
    · exact h.result_nonneg
  result_lt := by
    rw [PowerLoop.next]
    split
    · exact (tmod_modulus (Int.mul_nonneg h.result_nonneg h.base_nonneg)).2.1
    · exact h.result_lt
  base_nonneg := (tmod_modulus (Int.mul_nonneg h.base_nonneg h.base_nonneg)).1
  remaining_nonneg := by
    have := h.remaining_nonneg
    rw [remaining_next l this]
    omega
  power_eq := by rw [h.power_next, h.power_eq]

theorem iterate (h : Keeps a e l) (k : Nat) : Keeps a e (PowerLoop.next^[k] l) := by
  induction k with
  | zero => exact h
  | succ k ih =>
    rw [Function.iterate_succ_apply']
    exact ih.next

/-- When nothing remains, the result is the representative of the power. -/
theorem result_eq (h : Keeps a e l) (hdone : ¬ 0 < l.remaining) : l.result = a ^ e % modulus := by
  have hzero : l.remaining.toNat = 0 := by omega
  have hpower := h.power_eq
  rw [hzero, pow_zero, mul_one, ← Int.cast_pow, ZMod.intCast_eq_intCast_iff] at hpower
  rw [← hpower, Int.emod_eq_of_lt h.result_nonneg h.result_lt]

/-- The loop ends, and with that result. -/
theorem run_eq (h : Keeps a e l) : l.run = a ^ e % modulus := by
  fun_induction run l with
  | case1 l _ ih => exact ih h.next
  | case2 l hdone => exact h.result_eq hdone

end Keeps

/-! ## Runs -/

theorem run_start {a : Int} (ha : 0 ≤ a) (e : Nat) : (start a e).run = a ^ e % modulus := (keeps_start ha e).run_eq

theorem remaining_iterate {a : Int} (ha : 0 ≤ a) (e k : Nat) :
    (next^[k] (start a e)).remaining = (e / 2 ^ k : Nat) := by
  induction k with
  | zero => simp [start]
  | succ k ih =>
    have hkeeps := (keeps_start ha e).iterate k
    rw [Function.iterate_succ_apply', remaining_next _ hkeeps.remaining_nonneg, ih, pow_succ, ← Nat.div_div_eq_div_mul]
    rfl

/-- There are as many rounds as binary digits. -/
theorem endsAfter_size {a : Int} (ha : 0 ≤ a) (e : Nat) : (start a e).EndsAfter e.size := by
  intro k
  rw [remaining_iterate ha, Nat.lt_size, Int.natCast_pos, Nat.div_pos_iff]
  exact and_iff_right (Nat.two_pow_pos k)

end PowerLoop

/-! ## Top theorem -/

namespace Scalar

theorem val_pow (a : Scalar) (e : Nat) : (a ^ e).val = a.val ^ e % modulus := by
  rw [← val_residue, residue_pow, residue, ← Nat.cast_pow, ZMod.val_natCast]

/-- **Powers are exact.**  The power to an exponent that is not negative is the scalar whose representative is
that of the base's to this exponent; the loop on representatives ends with it, after as many rounds as the
exponent has binary digits.  There is no power to a negative exponent. -/
theorem power_exact (a : Scalar) (e : Int) :
    (0 ≤ e → ∃ b, a.power e = .ok b ∧ b.val = a.val ^ e.toNat % modulus ∧
      (PowerLoop.start a.val e).EndsAfter e.toNat.size ∧ (PowerLoop.start a.val e).run = b.val) ∧
    (e < 0 → a.power e = .error (.negativeExponent e)) := by
  constructor
  · intro he
    obtain ⟨n, rfl⟩ := Int.eq_ofNat_of_zero_le he
    have hbase : (0 : Int) ≤ a.val := Int.natCast_nonneg _
    refine ⟨a ^ n, rfl, a.val_pow n, PowerLoop.endsAfter_size hbase n, ?_⟩
    rw [PowerLoop.run_start hbase, a.val_pow]
    push_cast
    rfl
  · intro he
    obtain ⟨n, rfl⟩ := Int.eq_negSucc_of_lt_zero he
    rfl

/-- Zero to the power of zero is one. -/
example : (0 : Scalar).power 0 = .ok 1 ∧ (0 : Scalar).power 5 = .ok 0 ∧
    (0 : Scalar).power (-5) = .error (.negativeExponent (-5)) := by
  decide +kernel

/-- The square of minus one, in two rounds, and no inverse of three by way of powers. -/
theorem minusOne_squared :
    (∃ b, (ofInt (-1)).power 2 = .ok b ∧ b.val = (ofInt (-1)).val ^ 2 % modulus ∧
      (PowerLoop.start (ofInt (-1)).val 2).EndsAfter 2 ∧ (PowerLoop.start (ofInt (-1)).val 2).run = b.val) ∧
    (ofInt 3).power (-1) = .error (.negativeExponent (-1)) :=
  ⟨(power_exact (ofInt (-1)) 2).1 (by decide), (power_exact (ofInt 3) (-1)).2 (by decide)⟩

end Scalar

end ConstFold
