import Mathlib.GroupTheory.OrderOfElement
import Mathlib.Tactic.IntervalCases
import Curve25519.Proofs.Curve.Params
import Curve25519.Proofs.Scalar

/-! The base point, its order, and the multiples of it that private keys lead to.
The ladder itself shows that the prime l takes the base point to the neutral element. A clamped
integer is a multiple of eight below 8 l, so that l never divides it; l divides the integer after
it in one case alone, which is 5 l - 1. Two clamped integers have the same multiple only if they are
equal, and opposite ones if they add up to 8 l. -/

namespace Curve25519.Curve
open Limbs (Denotes)
open Montgomery

def baseVElement : Element := baseV.element

theorem baseV_denotes : Denotes 1 baseVElement baseV :=
  ⟨(show baseV.Below (2 ^ 51) by decide).mono (by decide), rfl⟩

theorem base_onCurve : montgomery.OnCurve 9 baseVElement := by
  change 1 * baseVElement ^ 2 = 9 ^ 3 + a * 9 ^ 2 + 9
  decide +kernel

def basePoint : montgomery.Point := point 9 baseVElement base_onCurve

theorem u_basePoint : u basePoint = 9 := u_point _ _ _

theorem v_basePoint : v basePoint = baseVElement := v_point _ _ _

theorem u_basePoint_ne_zero : u basePoint ≠ 0 := by
  rw [u_basePoint]
  decide +kernel

theorem v_basePoint_ne_zero : v basePoint ≠ 0 := by
  rw [v_basePoint]
  decide +kernel

theorem basePointOrder_nsmul : basePointOrder • basePoint = 0 := by
  have holds := Rungs.climb_holds u_basePoint_ne_zero
    ((Bytes32.ofNat basePointOrder).lowBits 253)
  have spelled : bitsToNat ((Bytes32.ofNat basePointOrder).lowBits 253) = basePointOrder := by
    rw [Bytes32.bitsToNat_lowBits, Bytes32.toNat_ofNat_of_lt (by decide)]
    decide
  rw [spelled, u_basePoint, doublingFactor_montgomery] at holds
  exact holds.first.infinite.mp (by decide +kernel)

theorem addOrderOf_basePoint : addOrderOf basePoint = basePointOrder := by
  have : Fact basePointOrder.Prime := ⟨basePointOrder_prime⟩
  exact addOrderOf_eq_prime basePointOrder_nsmul (point_ne_zero _ _ _)

theorem nsmul_basePoint_eq_zero_iff (n : Nat) : n • basePoint = 0 ↔ basePointOrder ∣ n := by
  rw [← addOrderOf_basePoint, addOrderOf_dvd_iff_nsmul_eq_zero]

theorem coprime_eight_basePointOrder : Nat.Coprime 8 basePointOrder := by decide +kernel

theorem eq_eight_mul_basePointOrder {value : Nat} (positive : value ≠ 0) (eight : 8 ∣ value)
    (order : basePointOrder ∣ value) (below : value < 2 * (8 * basePointOrder)) :
    value = 8 * basePointOrder := by
  have both := coprime_eight_basePointOrder.mul_dvd_of_dvd_of_dvd eight order
  exact Nat.eq_of_dvd_of_lt_two_mul positive both below

section Clamped
variable (key : Bytes32)

theorem not_dvd_clampedNat : ¬basePointOrder ∣ Scalar.clampedNat key :=
  Scalar.not_dvd_clampedNat coprime_eight_basePointOrder (by decide) key

theorem clampedNat_lt_order : Scalar.clampedNat key < 8 * basePointOrder :=
  (Scalar.clampedNat_lt key).trans (by decide)

theorem dvd_clampedNat_succ_iff :
    basePointOrder ∣ Scalar.clampedNat key + 1 ↔
      Scalar.clampedNat key = 5 * basePointOrder - 1 := by
  constructor
  · rintro ⟨quotient, product⟩
    obtain ⟨eighth, multiple⟩ := Scalar.eight_dvd_clampedNat key
    have bound := Scalar.clampedNat_lt key
    have size : 2 ^ 255 + 1 ≤ basePointOrder * 8 := by decide
    have small : basePointOrder * quotient < basePointOrder * 8 := by omega
    replace small := lt_of_mul_lt_mul_left small (Nat.zero_le _)
    rw [multiple] at product ⊢
    -- Five is the one residue whose product with the order is one more than a multiple of eight.
    interval_cases quotient
    all_goals
      unfold basePointOrder at *
      omega
  · intro same
    rw [same]
    exact ⟨5, by decide⟩

theorem clamped_nsmul_ne_zero : Scalar.clampedNat key • basePoint ≠ 0 := by
  rw [Ne, nsmul_basePoint_eq_zero_iff]
  exact not_dvd_clampedNat key

theorem eight_nsmul_clamped_ne_zero : 8 • Scalar.clampedNat key • basePoint ≠ 0 := by
  rw [Ne, ← mul_nsmul', nsmul_basePoint_eq_zero_iff, basePointOrder_prime.dvd_mul]
  rintro (eight | clamped)
  · exact absurd (Nat.le_of_dvd (by decide) eight) (by decide)
  · exact not_dvd_clampedNat key clamped

/-- The multiple after that of a clamped integer is the neutral element for one integer alone, and
then the multiple itself is opposite to the base point. -/
theorem clamped_succ_nsmul_eq_zero_iff :
    (Scalar.clampedNat key + 1) • basePoint = 0 ↔
      Scalar.clampedNat key = 5 * basePointOrder - 1 := by
  rw [nsmul_basePoint_eq_zero_iff, dvd_clampedNat_succ_iff]

theorem clamped_nsmul_of_exception (exception : Scalar.clampedNat key = 5 * basePointOrder - 1) :
    Scalar.clampedNat key • basePoint = -basePoint := by
  have zero := (clamped_succ_nsmul_eq_zero_iff key).mpr exception
  rw [succ_nsmul] at zero
  exact eq_neg_of_add_eq_zero_left zero

theorem v_clamped_of_exception (exception : Scalar.clampedNat key = 5 * basePointOrder - 1) :
    v (Scalar.clampedNat key • basePoint) = -baseVElement := by
  rw [clamped_nsmul_of_exception key exception, v_neg, v_basePoint]

end Clamped

section Pairs
variable (a b : Bytes32)

/-- Clamped integers are told apart by their multiples, since modulo eight they are all alike and
they are below eight times the order. -/
theorem clamped_nsmul_eq_iff :
    Scalar.clampedNat a • basePoint = Scalar.clampedNat b • basePoint ↔
      Scalar.clampedNat a = Scalar.clampedNat b := by
  constructor
  · intro same
    rw [nsmul_eq_nsmul_iff_modEq, addOrderOf_basePoint] at same
    have first := Nat.modEq_zero_iff_dvd.mpr (Scalar.eight_dvd_clampedNat a)
    have second := Nat.modEq_zero_iff_dvd.mpr (Scalar.eight_dvd_clampedNat b)
    have both := (Nat.modEq_and_modEq_iff_modEq_mul coprime_eight_basePointOrder).mp
      ⟨first.trans second.symm, same⟩
    exact both.eq_of_lt_of_lt (clampedNat_lt_order a) (clampedNat_lt_order b)
  · intro same
    rw [same]

/-- Two clamped integers are together below sixteen times the order, and their sum is a multiple of
eight. -/
theorem clamped_nsmul_eq_neg_iff :
    Scalar.clampedNat a • basePoint = -(Scalar.clampedNat b • basePoint) ↔
      Scalar.clampedNat a + Scalar.clampedNat b = 8 * basePointOrder := by
  rw [eq_neg_iff_add_eq_zero, ← add_nsmul, nsmul_basePoint_eq_zero_iff]
  constructor
  · intro divides
    have eight := Nat.dvd_add (Scalar.eight_dvd_clampedNat a) (Scalar.eight_dvd_clampedNat b)
    have positive := Scalar.clampedNat_pos a
    have bound := clampedNat_lt_order a
    have bound' := clampedNat_lt_order b
    exact eq_eight_mul_basePointOrder (by omega) eight divides (by omega)
  · intro same
    rw [same]
    exact Nat.dvd_mul_left _ _

theorem u_clamped_eq_iff :
    u (Scalar.clampedNat a • basePoint) = u (Scalar.clampedNat b • basePoint) ↔
      Scalar.clampedNat a = Scalar.clampedNat b ∨
        Scalar.clampedNat a + Scalar.clampedNat b = 8 * basePointOrder := by
  rw [u_eq_iff (clamped_nsmul_ne_zero a) (clamped_nsmul_ne_zero b), clamped_nsmul_eq_iff,
    clamped_nsmul_eq_neg_iff]

end Pairs

def exceptionalKey : Bytes32 := .ofNat (5 * basePointOrder - 1)

theorem clampedNat_exceptionalKey :
    Scalar.clampedNat exceptionalKey = 5 * basePointOrder - 1 :=
  Scalar.clampedNat_ofNat (by decide) (by decide) (by decide)

end Curve25519.Curve
