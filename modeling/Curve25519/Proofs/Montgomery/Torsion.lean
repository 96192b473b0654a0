import Curve25519.Proofs.Montgomery.Curve

/-! Points whose order divides two, four or eight, by their u-coordinates.
Where u^2 + A u + 1 has no root, (0, 0) is the one point of order two. The law of doubling then says
which coordinates lead to it in one doubling and in two: those with u^2 = 1, and the roots of one
equation of degree four for each of the two signs of u in u^2 = 1. -/

namespace Curve25519.Montgomery

variable {F : Type} [Field F] {M : Montgomery F}

section Coordinates
variable (rootless : ∀ x : F, x ^ 2 + M.coefficient * x + 1 ≠ 0)
include rootless

theorem v_eq_zero_iff (P : M.Point) : v P = 0 ↔ u P = 0 := by
  refine ⟨fun zero => ?_, v_eq_zero_of_u_eq_zero⟩
  have equation := onCurve P
  unfold OnCurve at equation
  have factor : u P * (u P ^ 2 + M.coefficient * u P + 1) = M.twist * v P ^ 2 := by
    linear_combination -equation
  rw [zero, zero_pow (by decide), mul_zero] at factor
  exact (mul_eq_zero.mp factor).resolve_right (rootless (u P))

variable [DecidableEq F]

theorem two_nsmul_eq_zero_iff (P : M.Point) : 2 • P = 0 ↔ u P = 0 := by
  rw [two_nsmul, add_self_eq_zero_iff, v_eq_zero_iff rootless]

theorem u_two_nsmul_eq_iff {P : M.Point} (nonzero : u P ≠ 0) (x : F) :
    u (2 • P) = x ↔ (u P ^ 2 - 1) ^ 2 = 4 * (u P ^ 3 + M.coefficient * u P ^ 2 + u P) * x := by
  have point : v P ≠ 0 := fun zero => nonzero ((v_eq_zero_iff rootless P).mp zero)
  have equation := onCurve P
  unfold OnCurve at equation
  have law := double_law point
  have scale : 4 * (M.twist * v P ^ 2) ≠ 0 :=
    mul_ne_zero M.four_ne_zero (mul_ne_zero M.twist_ne_zero (pow_ne_zero 2 point))
  rw [← equation, ← law, two_nsmul, mul_assoc 4, mul_right_inj' scale]

theorem u_two_nsmul_eq_zero_iff (P : M.Point) :
    u (2 • P) = 0 ↔ u P = 0 ∨ u P ^ 2 = 1 := by
  by_cases zero : u P = 0
  · rw [(two_nsmul_eq_zero_iff rootless P).mpr zero, u_zero]
    exact iff_of_true rfl (.inl zero)
  · rw [u_two_nsmul_eq_iff rootless zero, mul_zero, sq_eq_zero_iff, sub_eq_zero, or_iff_right zero]

theorem four_nsmul_eq_zero_iff (P : M.Point) : 4 • P = 0 ↔ u P = 0 ∨ u P ^ 2 = 1 := by
  rw [show 4 = 2 * 2 from rfl, mul_nsmul, two_nsmul_eq_zero_iff rootless,
    u_two_nsmul_eq_zero_iff rootless]

theorem eight_nsmul_eq_zero_iff (P : M.Point) :
    8 • P = 0 ↔ u P = 0 ∨ u P ^ 2 = 1 ∨
      ((u P - 1) ^ 2) ^ 2 = (M.coefficient + 2) * (2 * u P) ^ 2 ∨
      ((u P + 1) ^ 2) ^ 2 = (2 - M.coefficient) * (2 * u P) ^ 2 := by
  rw [show 8 = 2 * 4 from rfl, mul_nsmul, four_nsmul_eq_zero_iff rootless,
    u_two_nsmul_eq_zero_iff rootless, sq_eq_one_iff (a := u (2 • P)), or_assoc]
  by_cases zero : u P = 0
  · exact iff_of_true (.inl zero) (.inl zero)
  · rw [u_two_nsmul_eq_iff rootless zero, u_two_nsmul_eq_iff rootless zero]
    refine or_congr_right (or_congr_right (or_congr ?_ ?_))
    · constructor <;> intro quartic <;> linear_combination quartic
    · constructor <;> intro quartic <;> linear_combination quartic

end Coordinates
end Curve25519.Montgomery
