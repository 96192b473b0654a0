import Curve25519.Representative.Inverse
import Curve25519.Proofs.Limbs.Negative
import Curve25519.Proofs.Representative.Direct

/-! From points to representatives, and back again.
The relation of a coordinate to its representative fixes the square of the representative, and so
the representative itself once it is to be low. The direct map undoes either of the two relations:
one leads to u and the other to -u - A, and of these two just one belongs to the curve. -/

namespace Curve25519
open Limbs (Denotes)

namespace Representative

/-- What has to be a square other than zero for the coordinate to have a representative. -/
def encodability (u : Element) : Element := -2 * u * (u + Curve.a)

/-- The element is a representative of the point with this coordinate and a high or low v. -/
def StandsFor (u : Element) (high : Bool) (r : Element) : Prop :=
  if high then 2 * u * r ^ 2 = -(u + Curve.a) else 2 * (u + Curve.a) * r ^ 2 = -u

section Relation
variable {u r : Element} {high : Bool}

theorem ne_zero_of_encodability (nonzero : encodability u ≠ 0) : u ≠ 0 ∧ u + Curve.a ≠ 0 := by
  unfold encodability at nonzero
  exact ⟨right_ne_zero_of_mul (left_ne_zero_of_mul nonzero), right_ne_zero_of_mul nonzero⟩

theorem StandsFor.sq_eq {other : Element} (nonzero : encodability u ≠ 0)
    (stands : StandsFor u high r) (stands' : StandsFor u high other) : r ^ 2 = other ^ 2 := by
  obtain ⟨first, second⟩ := ne_zero_of_encodability nonzero
  cases high with
  | true => exact mul_left_cancel₀ (mul_ne_zero two_ne_zero first) (stands.trans stands'.symm)
  | false => exact mul_left_cancel₀ (mul_ne_zero two_ne_zero second) (stands.trans stands'.symm)

theorem StandsFor.unique {other : Element} (nonzero : encodability u ≠ 0)
    (stands : StandsFor u high r) (stands' : StandsFor u high other) (low : IsLow r)
    (low' : IsLow other) : r = other :=
  eq_of_sq_eq (stands.sq_eq nonzero stands') low low'

theorem ratio_eq {x : Element} (product : x * (1 + 2 * r ^ 2) = -Curve.a) : ratio r = x := by
  rw [ratio, ← product, mul_inv_cancel_right₀ (denominator_ne_zero r)]

theorem StandsFor.ratio (stands : StandsFor u high r) :
    ratio r = if high then u else -(u + Curve.a) := by
  apply ratio_eq
  cases high with
  | true =>
    change 2 * u * r ^ 2 = -(u + Curve.a) at stands
    change u * (1 + 2 * r ^ 2) = -Curve.a
    linear_combination stands
  | false =>
    change 2 * (u + Curve.a) * r ^ 2 = -u at stands
    change -(u + Curve.a) * (1 + 2 * r ^ 2) = -Curve.a
    linear_combination -stands

/-- Of the two candidates of a coordinate that can be represented, just one is on the curve. -/
theorem isSquare_cubic_iff (nonzero : encodability u ≠ 0) (square : IsSquare (encodability u)) :
    IsSquare (Curve.cubic (-(u + Curve.a))) ↔ ¬IsSquare (Curve.cubic u) := by
  obtain ⟨first, second⟩ := ne_zero_of_encodability nonzero
  have factor (x : Element) : Curve.cubic x = x * (x ^ 2 + Curve.a * x + 1) := by
    rw [Curve.cubic]
    ring
  have quadratic : u ^ 2 + Curve.a * u + 1 ≠ 0 := Curve.quadratic_ne_zero u
  have cubic : Curve.cubic u ≠ 0 := by
    rw [factor]
    exact mul_ne_zero first quadratic
  have half : ¬IsSquare (-u * (u + Curve.a)) := by
    have split : encodability u = 2 * (-u * (u + Curve.a)) := by
      rw [encodability]
      ring
    rw [split, isSquare_mul_iff_not two_not_isSquare
      (mul_ne_zero (neg_ne_zero.mpr first) second)] at square
    exact square
  have product : Curve.cubic u ^ 2 * Curve.cubic (-(u + Curve.a)) =
      (u ^ 2 + Curve.a * u + 1) ^ 2 * (-u * (u + Curve.a) * Curve.cubic u) := by
    rw [Curve.cubic, Curve.cubic]
    ring
  rw [← isSquare_mul_iff (IsSquare.sq _) (pow_ne_zero 2 cubic), product,
    isSquare_mul_iff (IsSquare.sq _) (pow_ne_zero 2 quadratic),
    isSquare_mul_iff_not half cubic]

theorem StandsFor.image (nonzero : encodability u ≠ 0) (square : IsSquare (encodability u))
    (stands : StandsFor u high r) (onCurve : IsSquare (Curve.cubic u)) : image r = u := by
  have value := stands.ratio
  rw [Representative.image, value]
  cases high with
  | true => exact if_pos onCurve
  | false =>
    have other : ¬IsSquare (Curve.cubic (-(u + Curve.a))) := by
      rw [isSquare_cubic_iff nonzero square, not_not]
      exact onCurve
    rw [if_neg Bool.false_ne_true, if_neg other]
    ring

end Relation

section Procedure
variable {x : Element} {u : Limbs}

/-- The limbs are small enough for a factor, and so are those of u + A, where A adds to the lowest
limb alone. Each element has such limbs, and so do all sums of up to six reduced ones. -/
def Admissible (u : Limbs) : Prop :=
  u.Below Limbs.factorBound ∧ u.l0.toNat + Curve.coefficient.l0.toNat < Limbs.factorBound

theorem admissible_of_denotes {terms : Nat} (denotes : Denotes terms x u) (few : terms ≤ 6) :
    Admissible u := by
  have lowest : u.l0.toNat < terms * Limbs.reducedBound := denotes.below.1
  have size : terms * Limbs.reducedBound ≤ 6 * Limbs.reducedBound := Nat.mul_le_mul_right _ few
  have room : 6 * Limbs.reducedBound + Curve.coefficient.l0.toNat < Limbs.factorBound := by decide
  exact ⟨denotes.factor (by omega), by omega⟩

theorem exists_admissible (x : Element) : ∃ u : Limbs, Admissible u ∧ u.element = x := by
  have denotes := Limbs.ofNat_val_denotes x
  exact ⟨.ofNat x.val, admissible_of_denotes denotes (by decide), denotes.element⟩

theorem add_coefficient_returns (admissible : Admissible u) :
    Returns (fun _ => Limbs.add u Curve.coefficient) (fun sum =>
      sum.Below Limbs.factorBound ∧ sum.element = u.element + Curve.a) := by
  obtain ⟨below, lowest⟩ := admissible
  have size : Limbs.factorBound < UInt64.size := by decide
  have rest : Curve.coefficient.l1.toNat = 0 ∧ Curve.coefficient.l2.toNat = 0 ∧
      Curve.coefficient.l3.toNat = 0 ∧ Curve.coefficient.l4.toNat = 0 := by decide
  simp only [Limbs.Below] at below ⊢
  have fits : Limbs.SumsFit u Curve.coefficient := by
    unfold Limbs.SumsFit
    omega
  apply (Limbs.add_returns u Curve.coefficient fits).mono
  intro sum given
  obtain ⟨limbs, value⟩ := given
  rw [value, Curve.coefficient_denotes.element]
  exact ⟨by omega, rfl⟩

theorem inverseRoot_returns {uPlusA : Limbs} (below : u.Below Limbs.factorBound)
    (below' : uPlusA.Below Limbs.factorBound) (value : u.element = x)
    (sum : uPlusA.element = x + Curve.a) :
    Returns (fun _ => inverseRoot u uPlusA) (fun root => ∃ s, Denotes 1 s root.root ∧
      (root.isSquare = true ↔ encodability x ≠ 0 ∧ IsSquare (encodability x)) ∧
      (root.isSquare = true → encodability x * s ^ 2 = 1)) := by
  have one := Limbs.one_denotes
  unfold inverseRoot
  refine (one.add one (by decide)).bind fun two h2 => ?_
  refine (Limbs.mul_returns u uPlusA below below').bind fun product ⟨small, element⟩ => ?_
  have hp := Denotes.of_product small element
  refine (hp.mul h2 (by decide) (by decide)).bind fun twice ht => ?_
  refine (ht.neg (by decide)).bind fun opposite ho => ?_
  have same : -(u.element * uPlusA.element * (1 + 1)) = encodability x := by
    rw [value, sum, encodability]
    ring
  rw [same] at ho
  exact Limbs.invSqrt_returns (ho.isFactor (by decide))

/-- A coordinate has a representative just where its encodability is a square other than zero, and then
a low element that stands for it is written, with the top bit of the tweak. -/
theorem ofPoint?_returns (value : u.element = x) (admissible : Admissible u) (high : Bool)
    (tweak : UInt8) :
    Returns (fun _ => ofPoint? u high tweak) (fun result =>
      (¬(encodability x ≠ 0 ∧ IsSquare (encodability x)) → result = none) ∧
      (encodability x ≠ 0 ∧ IsSquare (encodability x) → ∃ r, IsLow r ∧ StandsFor x high r ∧
        result = some ⟨(encoding r).addTop tweak⟩)) := by
  have below := admissible.1
  unfold ofPoint?
  refine (add_coefficient_returns admissible).bind fun uPlusA ⟨below', sum⟩ => ?_
  rw [value] at sum
  refine (inverseRoot_returns below below' value sum).bind fun root ⟨s, hs, square, inverse⟩ => ?_
  have chosen : (Limbs.select high u uPlusA).Below Limbs.factorBound := by
    cases high
    · exact below
    · exact below'
  refine (Limbs.mul_returns _ _ chosen (hs.factor (by decide))).bind fun r ⟨small, product⟩ => ?_
  have hr := Denotes.of_product small product
  refine (Limbs.isHigh_returns r (hr.below.mono (by decide))).bind fun isHigh high' => ?_
  rw [hr.element] at high'
  refine (hr.negIf isHigh le_rfl (by decide)).bind fun low hl => ?_
  refine hl.encode.bind fun bytes written => ?_
  refine .pure _ ⟨fun obstructed => ?_, fun free => ?_⟩
  · rw [if_neg (fun isSquare => obstructed (square.mp isSquare))]
  · have isSquare := square.mpr free
    refine ⟨_, ?_, ?_, by rw [if_pos isSquare, written]⟩
    · rw [high']
      exact low_of_negIf _
    · have unit := inverse isSquare
      rw [encodability] at unit
      rw [StandsFor, Limbs.sq_negIf, hs.element]
      cases high with
      | true =>
        change 2 * x * (uPlusA.element * s) ^ 2 = -(x + Curve.a)
        rw [sum]
        linear_combination -(x + Curve.a) * unit
      | false =>
        change 2 * (x + Curve.a) * (u.element * s) ^ 2 = -x
        rw [value]
        linear_combination -x * unit

end Procedure

section Octets
variable (r : Element) (tweak : UInt8)

theorem toNat_addTop_encoding :
    ((encoding r).addTop tweak).toNat = r.val + 2 ^ 255 * (tweak.toNat / 2 ^ 7) := by
  have clear : (encoding r).toNat < 2 ^ 255 := (toNat_encoding r).trans_lt (val_lt_two_pow r)
  rw [Bytes32.toNat_addTop _ _ clear, toNat_encoding]

theorem low_addTop_encoding : ((encoding r).addTop tweak).toNat % 2 ^ 255 = r.val := by
  rw [toNat_addTop_encoding, Nat.add_mul_mod_self_left, Nat.mod_eq_of_lt (val_lt_two_pow r)]

theorem element_addTop_encoding : element ⟨(encoding r).addTop tweak⟩ = r := by
  rw [element, low_addTop_encoding]
  exact ZMod.natCast_zmod_val r

theorem bit_addTop_encoding : ((encoding r).addTop tweak).bit 255 = tweak.toNat.testBit 7 := by
  rw [Bytes32.bit_eq, toNat_addTop_encoding, Nat.testBit_eq_decide_div_mod_eq,
    Nat.testBit_eq_decide_div_mod_eq, Nat.add_mul_div_left _ _ (by decide),
    Nat.div_eq_of_lt (val_lt_two_pow r), Nat.zero_add]

end Octets

end Representative
end Curve25519
