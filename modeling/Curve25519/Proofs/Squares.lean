import Mathlib.NumberTheory.LegendreSymbol.QuadraticChar.Basic
import Curve25519.Proofs.Curve.Params
import Curve25519.Proofs.Limbs.SquareRoot

/-! Which elements are squares.
Two elements that are not squares have a product that is one. Minus one is a square; two, A and
A^2 - 4 are not. -/

namespace Curve25519

theorem isSquare_mul_of_not {x y : Element} (first : ¬IsSquare x) (second : ¬IsSquare y) :
    IsSquare (x * y) := by
  have nonzero {z : Element} (square : ¬IsSquare z) : z ≠ 0 := by
    rintro rfl
    exact square IsSquare.zero
  rw [← quadraticChar_one_iff_isSquare (mul_ne_zero (nonzero first) (nonzero second)), map_mul,
    quadraticChar_neg_one_iff_not_isSquare.mpr first,
    quadraticChar_neg_one_iff_not_isSquare.mpr second]
  norm_num

theorem isSquare_mul_iff {x y : Element} (square : IsSquare x) (nonzero : x ≠ 0) :
    IsSquare (x * y) ↔ IsSquare y := by
  constructor
  · intro product
    have quotient := product.div square
    rwa [mul_div_cancel_left₀ _ nonzero] at quotient
  · exact square.mul

theorem isSquare_mul_iff_not {x y : Element} (square : ¬IsSquare x) (nonzero : y ≠ 0) :
    IsSquare (x * y) ↔ ¬IsSquare y := by
  constructor
  · intro product inner
    have quotient := product.div inner
    rw [mul_div_cancel_right₀ _ nonzero] at quotient
    exact square quotient
  · exact isSquare_mul_of_not square

theorem neg_one_isSquare : IsSquare (-1 : Element) :=
  ⟨Limbs.rootI, by rw [← sq, Limbs.rootI_sq]⟩

theorem isSquare_neg_iff (x : Element) : IsSquare (-x) ↔ IsSquare x := by
  rw [← neg_one_mul]
  exact isSquare_mul_iff neg_one_isSquare (neg_ne_zero.mpr one_ne_zero)

namespace Curve

theorem a_not_isSquare : ¬IsSquare a := not_isSquare_of_powerMod a (by decide +kernel)

theorem a_sq_sub_four_not_isSquare : ¬IsSquare (a ^ 2 - 4) :=
  not_isSquare_of_powerMod (a ^ 2 - 4) (by decide +kernel)

theorem a_ne_zero : a ≠ 0 := by
  intro zero
  exact a_not_isSquare (by rw [zero]; exact IsSquare.zero)

theorem quadratic_ne_zero (x : Element) : x ^ 2 + a * x + 1 ≠ 0 := by
  intro root
  refine a_sq_sub_four_not_isSquare ⟨2 * x + a, ?_⟩
  linear_combination -4 * root

/-- Every coordinate belongs to a point of the curve or to one of its twist by two. -/
theorem exists_point (x : Element) :
    (∃ P : montgomery.Point, Montgomery.u P = x) ∨
      (∃ P : (twisted 2 two_ne_zero).Point, Montgomery.u P = x) := by
  rw [montgomery, exists_point_iff, exists_point_iff, one_mul]
  by_cases square : IsSquare (cubic x)
  · exact .inl square
  · exact .inr (isSquare_mul_of_not two_not_isSquare square)

theorem u_eq_zero_of_shared {P : montgomery.Point} {Q : (twisted 2 two_ne_zero).Point}
    (same : Montgomery.u P = Montgomery.u Q) : Montgomery.u P = 0 := by
  have onCurve := (exists_point_iff one_ne_zero (Montgomery.u P)).mp ⟨P, rfl⟩
  have onTwist := (exists_point_iff two_ne_zero (Montgomery.u P)).mp ⟨Q, same.symm⟩
  rw [one_mul] at onCurve
  by_contra nonzero
  have factors : cubic (Montgomery.u P) =
      Montgomery.u P * (Montgomery.u P ^ 2 + a * Montgomery.u P + 1) := by
    rw [cubic]
    ring
  have value : cubic (Montgomery.u P) ≠ 0 := by
    rw [factors]
    exact mul_ne_zero nonzero (quadratic_ne_zero _)
  exact (isSquare_mul_iff_not two_not_isSquare value).mp onTwist onCurve

end Curve
end Curve25519
