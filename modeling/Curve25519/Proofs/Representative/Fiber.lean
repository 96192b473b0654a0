import Curve25519.Proofs.Representative.Image

/-! The elements that lead to one coordinate.
An element stands for its image with one of the two signs of v, and an element s stands for it with
the other sign just where (2 r s)^2 = 1. So the direct map takes r, -r and the two s with 2 r s = 1 or
2 r s = -1 to the same coordinate, and no other element. These are four, unless r is zero, because
2 r^2 is no square while one and minus one are. -/

namespace Curve25519

namespace Representative

section Signs
variable {u r s : Element} {high : Bool}

theorem standsFor_image (onCurve : high = true ↔ IsSquare (Curve.cubic (ratio r))) :
    StandsFor (image r) high r := by
  have product := ratio_mul r
  cases high with
  | true =>
    rw [image, if_pos (onCurve.mp rfl)]
    change 2 * ratio r * r ^ 2 = -(ratio r + Curve.a)
    linear_combination product
  | false =>
    rw [image, if_neg fun square => Bool.false_ne_true (onCurve.mpr square)]
    change 2 * (-(ratio r + Curve.a) + Curve.a) * r ^ 2 = - -(ratio r + Curve.a)
    linear_combination -product

theorem exists_standsFor_image (r : Element) : ∃ high, StandsFor (image r) high r := by
  by_cases onCurve : IsSquare (Curve.cubic (ratio r))
  · exact ⟨true, standsFor_image (iff_of_true rfl onCurve)⟩
  · exact ⟨false, standsFor_image (iff_of_false Bool.false_ne_true onCurve)⟩

theorem StandsFor.product_sq (nonzero : encodability u ≠ 0) (stands : StandsFor u high r)
    (opposite : StandsFor u (!high) s) : (2 * r * s) ^ 2 = 1 := by
  obtain ⟨first, second⟩ := ne_zero_of_encodability nonzero
  apply mul_left_cancel₀ (mul_ne_zero first second)
  cases high with
  | true =>
    change 2 * u * r ^ 2 = -(u + Curve.a) at stands
    change 2 * (u + Curve.a) * s ^ 2 = -u at opposite
    linear_combination 2 * (u + Curve.a) * s ^ 2 * stands - (u + Curve.a) * opposite
  | false =>
    change 2 * (u + Curve.a) * r ^ 2 = -u at stands
    change 2 * u * s ^ 2 = -(u + Curve.a) at opposite
    linear_combination 2 * u * s ^ 2 * stands - u * opposite

theorem StandsFor.of_product_sq (stands : StandsFor u high r) (product : (2 * r * s) ^ 2 = 1) :
    StandsFor u (!high) s := by
  cases high with
  | true =>
    change 2 * u * r ^ 2 = -(u + Curve.a) at stands
    change 2 * (u + Curve.a) * s ^ 2 = -u
    linear_combination 2 * s ^ 2 * stands - u * product
  | false =>
    change 2 * (u + Curve.a) * r ^ 2 = -u at stands
    change 2 * u * s ^ 2 = -(u + Curve.a)
    linear_combination 2 * s ^ 2 * stands - (u + Curve.a) * product

/-- No element stands for a coordinate with both signs, as twice its square would be a square. -/
theorem two_mul_mul_self_sq_ne_one (r : Element) : (2 * r * r) ^ 2 ≠ 1 := by
  intro one
  have nonzero : r ≠ 0 := by
    intro zero
    rw [zero, mul_zero, zero_pow two_ne_zero] at one
    exact zero_ne_one one
  apply two_mul_sq_not_isSquare nonzero
  rw [sq r, ← mul_assoc]
  rcases sq_eq_one_iff.mp one with plus | minus
  · rw [plus]
    exact IsSquare.one
  · rw [minus]
    exact neg_one_isSquare

theorem lesser_ne_of_product_sq (product : (2 * r * s) ^ 2 = 1) : lesser r ≠ lesser s := by
  intro same
  have squares : r ^ 2 = s ^ 2 := by rw [← lesser_sq, same, lesser_sq]
  apply two_mul_mul_self_sq_ne_one r
  calc
    (2 * r * r) ^ 2 = 4 * r ^ 2 * r ^ 2 := by ring
    _ = 4 * r ^ 2 * s ^ 2 := by rw [squares]
    _ = (2 * r * s) ^ 2 := by ring
    _ = 1 := product

end Signs

section Images
variable {r : Element}

theorem image_neg (r : Element) : image (-r) = image r := by
  have same : ratio (-r) = ratio r := by rw [ratio, ratio, neg_sq]
  rw [image, image, same]

theorem image_eq_image_iff (r s : Element) :
    image s = image r ↔ s = r ∨ s = -r ∨ 2 * r * s = 1 ∨ 2 * r * s = -1 := by
  by_cases zero : r = 0
  · simp [zero, image_zero, image_eq_zero_iff]
  have nonzero := encodability_image_ne_zero zero
  obtain ⟨high, stands⟩ := exists_standsFor_image r
  constructor
  · intro same
    obtain ⟨high', stands'⟩ := exists_standsFor_image s
    rw [same] at stands'
    by_cases signs : high' = high
    · rw [signs] at stands'
      have squares := sq_eq_sq_iff_eq_or_eq_neg.mp (stands'.sq_eq nonzero stands)
      exact squares.elim .inl fun opposite => .inr (.inl opposite)
    · rw [Bool.eq_not.mpr signs] at stands'
      exact .inr (.inr (sq_eq_one_iff.mp (stands.product_sq nonzero stands')))
  · rintro (rfl | rfl | product)
    · rfl
    · exact image_neg r
    · have other := stands.of_product_sq (sq_eq_one_iff.mpr product)
      exact other.image nonzero encodability_image_isSquare (cubic_image_isSquare r)

section Fiber
variable {t : Element} (inverse : 2 * r * t = 1)
include inverse

theorem fiber_image : {s | image s = image r} = ({r, -r, t, -t} : Finset Element) := by
  have unit : 2 * r ≠ 0 := left_ne_zero_of_mul (inverse ▸ one_ne_zero)
  ext s
  rw [Set.mem_ofPred_eq, image_eq_image_iff, ← inverse, ← mul_neg, mul_right_inj' unit,
    mul_right_inj' unit]
  simp

/-- Exactly four elements have the same image, if it is not zero. -/
theorem ncard_fiber_image : {s | image s = image r}.ncard = 4 := by
  have square := two_mul_mul_self_sq_ne_one r
  have odd : Odd prime := ⟨_, prime_eq_twice_half⟩
  have nonzero : r ≠ 0 := right_ne_zero_of_mul (left_ne_zero_of_mul (inverse ▸ one_ne_zero))
  have nonzero' : t ≠ 0 := right_ne_zero_of_mul (inverse ▸ one_ne_zero)
  have other : r ≠ t := by
    rintro rfl
    exact square (by rw [inverse, one_pow])
  have other' : r ≠ -t := by
    intro same
    apply square
    nth_rewrite 2 [same]
    rw [mul_neg, inverse, neg_sq, one_pow]
  have other'' : -r ≠ t := fun same => other' (neg_eq_iff_eq_neg.mp same)
  rw [fiber_image inverse, Set.ncard_coe_finset, Finset.card_insert_of_notMem,
    Finset.card_insert_of_notMem, Finset.card_pair (ZMod.ne_neg_self odd nonzero')]
  · simp [other, other'']
  · simp [ZMod.ne_neg_self odd nonzero, other, other']

end Fiber

end Images

section One

theorem ratio_one : ratio 1 =
    38597363079105398474523661669562635951089994888546854679819194669304376384412 :=
  ratio_eq (by decide +kernel)

theorem cubic_ratio_one_isSquare : IsSquare (Curve.cubic (ratio 1)) := by
  rw [ratio_one]
  exact ⟨30992548688866185731160829815745906339026709887328719897407902247730032325131,
    by decide +kernel⟩

end One

end Representative
end Curve25519
