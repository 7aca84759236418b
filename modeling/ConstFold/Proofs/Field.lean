import ConstFold.Scalar
import Mathlib.Algebra.BigOperators.Associated
import Mathlib.FieldTheory.Finite.Basic
import Mathlib.NumberTheory.LucasPrimality
import Mathlib.Tactic.NormNum.Prime
import Mathlib.Tactic.ReduceModChar

/-!
# Scalars form a field

A scalar stands for the residue class of its representative (`Scalar.residue`).  No two scalars stand for the
same class, and the operations on scalars are those of the ring of residues; the loop of the power keeps the
product of the accumulator and the power still to be taken (`Scalar.residue_powBits`).

The modulus is prime (`modulus_prime`): 5 is of order `modulus - 1`, by Lucas's test on the prime factors of
that number, and the large ones among these are prime by the same test.  So the power that `inverse?` takes is
an inverse, and there is exactly one quotient by a scalar other than zero (`Scalar.division_exact`).
-/

namespace ConstFold

/-! ## Residues -/

instance : NeZero modulus := ⟨modulus_pos.ne'⟩

namespace Scalar

/-- The residue class that a scalar stands for. -/
def residue (a : Scalar) : ZMod modulus := a.val

@[simp] theorem val_residue (a : Scalar) : a.residue.val = a.val := ZMod.val_cast_of_lt a.val_lt

theorem residue_injective : Function.Injective residue := by
  intro a b h
  have hval := congrArg ZMod.val h
  rw [val_residue, val_residue] at hval
  cases a
  cases b
  cases hval
  rfl

theorem residue_inj {a b : Scalar} : a.residue = b.residue ↔ a = b := residue_injective.eq_iff

@[simp] theorem residue_ofNat (n : Nat) : (ofNat n).residue = n := ZMod.natCast_mod n modulus

@[simp] theorem residue_ofInt (z : Int) : (ofInt z).residue = z := by
  have hpos : (0 : Int) ≤ z % modulus := Int.emod_nonneg z (Int.natCast_ne_zero.2 modulus_pos.ne')
  calc (ofInt z).residue = (((z % modulus).toNat : Int) : ZMod modulus) := (Int.cast_natCast _).symm
    _ = ((z % modulus : Int) : ZMod modulus) := by rw [Int.toNat_of_nonneg hpos]
    _ = z := ZMod.intCast_mod z modulus

@[simp] theorem residue_zero : (0 : Scalar).residue = 0 := by
  show (ofNat 0).residue = 0
  simp

@[simp] theorem residue_one : (1 : Scalar).residue = 1 := by
  show (ofNat 1).residue = 1
  simp

@[simp] theorem residue_add (a b : Scalar) : (a + b).residue = a.residue + b.residue := by
  show (ofNat (a.val + b.val)).residue = _
  rw [residue_ofNat, Nat.cast_add]
  rfl

@[simp] theorem residue_sub (a b : Scalar) : (a - b).residue = a.residue - b.residue := by
  show (ofInt ((a.val : Int) - b.val)).residue = _
  rw [residue_ofInt, Int.cast_sub, Int.cast_natCast, Int.cast_natCast]
  rfl

@[simp] theorem residue_mul (a b : Scalar) : (a * b).residue = a.residue * b.residue := by
  show (ofNat (a.val * b.val)).residue = _
  rw [residue_ofNat, Nat.cast_mul]
  rfl

/-! ## Powers -/

/-- The loop multiplies the accumulator by the power, if it looks at all digits of the exponent. -/
theorem residue_powBits (bits : Nat) (base : Scalar) (e : Nat) (acc : Scalar) (h : e < 2 ^ bits) :
    (powBits bits base e acc).residue = acc.residue * base.residue ^ e := by
  induction bits generalizing base e acc with
  | zero =>
    have he : e = 0 := by simpa using h
    simp [powBits, he]
  | succ bits ih =>
    have hhalf : e / 2 < 2 ^ bits := by
      rw [pow_succ] at h
      omega
    have hsquares : (base * base).residue ^ (e / 2) = base.residue ^ (2 * (e / 2)) := by
      rw [residue_mul, ← pow_two, ← pow_mul]
    unfold powBits
    rw [ih _ _ _ hhalf, hsquares]
    -- an odd digit has gone into the accumulator
    by_cases hodd : e % 2 = 1
    · have he : e = 2 * (e / 2) + 1 := by omega
      rw [if_pos hodd, residue_mul]
      conv_rhs => rw [he, pow_succ']
      rw [mul_assoc]
    · have he : 2 * (e / 2) = e := by omega
      rw [if_neg hodd, he]

@[simp] theorem residue_pow (a : Scalar) (e : Nat) : (a ^ e).residue = a.residue ^ e := by
  show (powBits (e.log2 + 1) a e 1).residue = _
  rw [residue_powBits _ _ _ _ Nat.lt_log2_self, residue_one, one_mul]

/-! ## Zero -/

theorem isZero_iff {a : Scalar} : a.isZero = true ↔ a = 0 := by
  constructor
  · intro h
    apply residue_injective
    rw [residue_zero, residue, eq_of_beq h, Nat.cast_zero]
  · rintro rfl
    rfl

theorem residue_eq_zero_iff {a : Scalar} : a.residue = 0 ↔ a = 0 := by
  rw [← residue_zero, residue_inj]

end Scalar

/-! ## The modulus -/

/-- Lucas's test on a row of primes whose product is the order to be shown. -/
theorem prime_of_order {p : Nat} (a : ZMod p) (factors : List Nat) (hprime : ∀ q ∈ factors, q.Prime)
    (hprod : factors.prod = p - 1) (hfull : a ^ (p - 1) = 1)
    (hpart : ∀ q ∈ factors, a ^ ((p - 1) / q) ≠ 1) : p.Prime := by
  apply lucas_primality p a hfull
  intro q hq hdvd
  rw [← hprod, Prime.dvd_prod_iff hq.prime] at hdvd
  obtain ⟨f, hf, hqf⟩ := hdvd
  rw [(Nat.prime_dvd_prime_iff_eq hq (hprime f hf)).1 hqf]
  exact hpart f hf

theorem modulus_prime : modulus.Prime := by
  -- trial division settles the small factors; each large one stands first in its row, with its own proof
  have h405928799 : Nat.Prime 405928799 :=
    prime_of_order 22 [2, 11, 3691, 4999] (by norm_num) (by norm_num) (by norm_num; reduce_mod_char)
      (by norm_num; reduce_mod_char; decide)
  have h12048837557 : Nat.Prime 12048837557 :=
    prime_of_order 2 [2, 2, 7, 7, 661, 93001] (by norm_num) (by norm_num) (by norm_num; reduce_mod_char)
      (by norm_num; reduce_mod_char; decide)
  have h5156902474397 : Nat.Prime 5156902474397 :=
    prime_of_order 2 [12048837557, 2, 2, 107] (List.forall_mem_cons.2 ⟨h12048837557, by norm_num⟩)
      (by norm_num) (by norm_num; reduce_mod_char) (by norm_num; reduce_mod_char; decide)
  have h1670836401704629 : Nat.Prime 1670836401704629 :=
    prime_of_order 2 [5156902474397, 2, 2, 3, 3, 3, 3] (List.forall_mem_cons.2 ⟨h5156902474397, by norm_num⟩)
      (by norm_num) (by norm_num; reduce_mod_char) (by norm_num; reduce_mod_char; decide)
  have h639533339 : Nat.Prime 639533339 :=
    prime_of_order 2 [2, 229, 853, 1637] (by norm_num) (by norm_num) (by norm_num; reduce_mod_char)
      (by norm_num; reduce_mod_char; decide)
  have h65865678001877903 : Nat.Prime 65865678001877903 :=
    prime_of_order 5 [639533339, 2, 83, 379, 1637] (List.forall_mem_cons.2 ⟨h639533339, by norm_num⟩)
      (by norm_num) (by norm_num; reduce_mod_char) (by norm_num; reduce_mod_char; decide)
  have h13818364434197438864469338081 : Nat.Prime 13818364434197438864469338081 :=
    prime_of_order 3 [65865678001877903, 2, 2, 2, 2, 2, 5, 823, 1593227]
      (List.forall_mem_cons.2 ⟨h65865678001877903, by norm_num⟩)
      (by norm_num) (by norm_num; reduce_mod_char) (by norm_num; reduce_mod_char; decide)
  unfold modulus
  apply prime_of_order 5 ([13818364434197438864469338081, 1670836401704629, 405928799, 237073, 11003, 983, 29,
    13, 3, 3] ++ List.replicate 28 2)
  · rw [List.forall_mem_append]
    constructor
    · repeat rw [List.forall_mem_cons]
      refine ⟨h13818364434197438864469338081, h1670836401704629, h405928799, ?_⟩
      norm_num
    · intro q hq
      rw [List.eq_of_mem_replicate hq]
      exact Nat.prime_two
  · norm_num
  · norm_num
    reduce_mod_char
  · norm_num
    reduce_mod_char
    decide

instance : Fact modulus.Prime := ⟨modulus_prime⟩

/-! ## Division -/

namespace Scalar

/-- The power to the modulus less two is the inverse, by Fermat's little theorem. -/
theorem residue_pow_modulus_sub_two {a : Scalar} (ha : a ≠ 0) :
    (a ^ (modulus - 2)).residue = a.residue⁻¹ := by
  have hne : a.residue ≠ 0 := fun h => ha (residue_eq_zero_iff.1 h)
  have hexp : modulus - 1 = modulus - 2 + 1 := by
    have := modulus_prime.two_le
    omega
  have hfermat := ZMod.pow_card_sub_one_eq_one hne
  rw [hexp, pow_succ] at hfermat
  rw [residue_pow]
  exact eq_inv_of_mul_eq_one_left hfermat

/-- Inverses are taken without a fault. -/
theorem exists_inverse (a : Scalar) :
    ∃ r, a.inverse = .ok r ∧ r.map residue = if a.residue = 0 then none else some a.residue⁻¹ := by
  refine ⟨_, inverse_eq a, ?_⟩
  by_cases ha : a = 0
  · rw [if_pos (isZero_iff.2 ha), if_pos (residue_eq_zero_iff.2 ha)]
    rfl
  · rw [if_neg (fun h => ha (isZero_iff.1 h)), if_neg (fun h => ha (residue_eq_zero_iff.1 h)),
      Option.map_some, residue_pow_modulus_sub_two ha]

theorem exists_quotient (a b : Scalar) :
    ∃ r, a.divide b = .ok r ∧ r.map residue = if b.residue = 0 then none else some (a.residue / b.residue) := by
  obtain ⟨r, hr, hres⟩ := exists_inverse b
  have hmul : residue ∘ (a * ·) = (a.residue * ·) ∘ residue := funext (residue_mul a)
  refine ⟨r.map (a * ·), by rw [divide, hr, Except.map], ?_⟩
  rw [Option.map_map, hmul, ← Option.map_map, hres]
  split
  · rfl
  · rw [Option.map_some, div_eq_mul_inv]

/-- **Scalars are divided as in a field.**  The modulus is prime.  Zero alone has no inverse, and the product of
any other scalar with its inverse is one; there is no quotient by zero alone, and the quotient by any other
scalar is the one scalar whose product with the divisor is the dividend.  Neither ever ends in a fault. -/
theorem division_exact :
    modulus = 21888242871839275222246405745257275088548364400416034343698204186575808495617 ∧
      modulus.Prime ∧
      (∀ a : Scalar, (a.inverse = .ok none ↔ a = 0) ∧ (a ≠ 0 → ∃ b, a.inverse = .ok (some b) ∧ a * b = 1)) ∧
      ∀ a b : Scalar, (a.divide b = .ok none ↔ b = 0) ∧
        (b ≠ 0 → ∃ q, a.divide b = .ok (some q) ∧ ∀ q', q' * b = a ↔ q' = q) := by
  refine ⟨rfl, modulus_prime, fun a => ?_, fun a b => ?_⟩
  · obtain ⟨r, hr, hres⟩ := exists_inverse a
    rw [hr]
    constructor
    · rw [Except.ok.injEq, ← Option.map_eq_none_iff, hres, ← residue_eq_zero_iff]
      simp
    · intro ha
      have hne : a.residue ≠ 0 := fun h => ha (residue_eq_zero_iff.1 h)
      rw [if_neg hne, Option.map_eq_some_iff] at hres
      obtain ⟨b, rfl, hb⟩ := hres
      refine ⟨b, rfl, residue_injective ?_⟩
      rw [residue_mul, hb, residue_one, mul_inv_cancel₀ hne]
  · obtain ⟨r, hr, hres⟩ := exists_quotient a b
    rw [hr]
    constructor
    · rw [Except.ok.injEq, ← Option.map_eq_none_iff, hres, ← residue_eq_zero_iff]
      simp
    · intro hb
      have hne : b.residue ≠ 0 := fun h => hb (residue_eq_zero_iff.1 h)
      rw [if_neg hne, Option.map_eq_some_iff] at hres
      obtain ⟨q, rfl, hq⟩ := hres
      refine ⟨q, rfl, fun q' => ?_⟩
      rw [← residue_inj, ← residue_inj, residue_mul, hq]
      exact (eq_div_iff hne).symm

/-- Seven thirds. -/
theorem seven_div_three :
    (ofNat 3) ≠ 0 ∧ (∃ b, (ofNat 3).inverse = .ok (some b) ∧ ofNat 3 * b = 1) ∧
      ∃ q, (ofNat 7).divide (ofNat 3) = .ok (some q) ∧ ∀ q', q' * ofNat 3 = ofNat 7 ↔ q' = q :=
  ⟨by decide, (division_exact.2.2.1 (ofNat 3)).2 (by decide),
    (division_exact.2.2.2 (ofNat 7) (ofNat 3)).2 (by decide)⟩

end Scalar

end ConstFold
