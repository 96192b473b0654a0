import Curve25519.Representative.Direct
import Curve25519.Proofs.Squares
import Curve25519.Proofs.UPoint

/-! From representatives to points: the values of the direct map.
Of d and -d - A one always belongs to the curve, and the map takes d where it does. -/

namespace Curve25519
open Limbs (Denotes)

namespace Representative

def ratio (r : Element) : Element := -Curve.a * (1 + 2 * r ^ 2)⁻¹

theorem two_mul_sq_not_isSquare {r : Element} (nonzero : r ≠ 0) : ¬IsSquare (2 * r ^ 2) := by
  rw [mul_comm, isSquare_mul_iff (IsSquare.sq r) (pow_ne_zero 2 nonzero)]
  exact two_not_isSquare

/-- Were the denominator zero, two would be a square, as minus one is. -/
theorem denominator_ne_zero (r : Element) : 1 + 2 * r ^ 2 ≠ 0 := by
  intro zero
  have nonzero : r ≠ 0 := by
    rintro rfl
    rw [zero_pow two_ne_zero, mul_zero, add_zero] at zero
    exact one_ne_zero zero
  have minusOne : 2 * r ^ 2 = -1 := by linear_combination zero
  apply two_mul_sq_not_isSquare nonzero
  rw [minusOne]
  exact neg_one_isSquare

theorem ratio_mul (r : Element) : ratio r * (1 + 2 * r ^ 2) = -Curve.a := by
  rw [ratio, inv_mul_cancel_right₀ (denominator_ne_zero r)]

theorem ratio_ne_zero (r : Element) : ratio r ≠ 0 := by
  intro zero
  have product := ratio_mul r
  rw [zero, zero_mul] at product
  exact Curve.a_ne_zero (neg_eq_zero.mp product.symm)

open Classical in
noncomputable def image (r : Element) : Element :=
  if IsSquare (Curve.cubic (ratio r)) then ratio r else -(ratio r + Curve.a)

def element (representative : Representative) : Element :=
  (representative.bytes.toNat % 2 ^ 255 : Nat)

theorem directMap_returns (limbs : Limbs) (below : limbs.Below Limbs.factorBound) :
    Returns (fun _ => directMap limbs) (Denotes 2 (image limbs.element)) := by
  have a := Curve.coefficient_denotes
  have one := Limbs.one_denotes
  unfold directMap
  refine (Limbs.twiceSquare_returns limbs below).bind fun twice h2 => ?_
  refine (one.add h2 (by decide)).bind fun denominator hd => ?_
  refine (hd.invert (by decide)).bind fun inverse hi => ?_
  refine (Curve.negCoefficient_denotes.mul hi (by decide) (by decide)).bind fun d hratio => ?_
  change Denotes 1 (ratio limbs.element) d at hratio
  refine (hratio.square (by decide)).bind fun square hs => ?_
  refine (hratio.mul a (by decide) (by decide)).bind fun linear hl => ?_
  refine (hs.add hl (by decide)).bind fun sum hsum => ?_
  refine (hsum.add one (by decide)).bind fun inner hinner => ?_
  refine (hratio.mul hinner (by decide) (by decide)).bind fun product hp => ?_
  refine (Limbs.isSquare_returns (hp.isFactor (by decide))).bind fun onCurve isSquare => ?_
  have same : ratio limbs.element * (ratio limbs.element ^ 2 + ratio limbs.element * Curve.a + 1) =
      Curve.cubic (ratio limbs.element) := by
    rw [Curve.cubic]
    ring
  rw [same] at isSquare
  have shift := Limbs.denotes_select onCurve a Limbs.zero_denotes
  refine (hratio.add shift (by decide)).bind fun shifted hshifted => ?_
  have result := hshifted.negIf (!onCurve) (by decide) (by decide)
  rw [image]
  cases onCurve with
  | true =>
    rw [if_pos (isSquare.mp rfl)]
    simpa using result
  | false =>
    rw [if_neg (fun square => Bool.false_ne_true (isSquare.mpr square))]
    simpa using result

theorem hasSmallOrder_returns (limbs : Limbs) :
    Returns (fun _ => hasSmallOrder limbs)
      (fun small => small = true ↔ encoding limbs.element ∈ Curve.smallOrder) := by
  unfold hasSmallOrder
  refine (Limbs.encode_returns limbs).bind fun bytes written => ?_
  apply Returns.pure
  rw [written, List.any_eq_true]
  simp

theorem toPoint?_returns (representative : Representative) :
    Returns (fun _ => representative.toPoint?) (fun point? => point? =
      if encoding (image representative.element) ∈ Curve.smallOrder then none
      else some ⟨encoding (image representative.element)⟩) := by
  have decoded := Limbs.decode_denotes representative.bytes.clearTop
  rw [Bytes32.toNat_clearTop, Nat.mod_mod] at decoded
  change Denotes 1 representative.element _ at decoded
  unfold toPoint?
  refine (directMap_returns _ (decoded.factor (by decide))).bind fun u hu => ?_
  rw [decoded.element] at hu
  refine hu.encode.bind fun bytes written => ?_
  refine (hasSmallOrder_returns u).bind fun small listed => ?_
  apply Returns.pure
  rw [hu.element] at listed
  rw [written]
  cases small with
  | true => rw [if_pos rfl, if_pos (listed.mp rfl)]
  | false =>
    rw [if_neg Bool.false_ne_true, if_neg fun member => Bool.false_ne_true (listed.mpr member)]

end Representative
end Curve25519
