import Curve25519.Proofs.Montgomery.Kummer

/-! The v-coordinate of a multiple from its ladder.
The law of the chord gives the product of the v-coordinates of two points from the u-coordinates of
the two and of their sum. The quotient below clears the denominators of the fractions; these leave
it zero where one of the rungs is the neutral element. -/

namespace Curve25519.Montgomery.Rungs

section Formulas
variable {R : Type} [CommRing R]

/-- What the chord law says of twice the product of the v-coordinates, over the denominators. -/
def chordNumerator (coefficient pointU : R) (rungs : Rungs R) : R :=
  let q := rungs.first
  let sum := rungs.second
  ((q.u + pointU * q.w + 2 * coefficient * q.w) * (pointU * q.u + q.w)
    - 2 * coefficient * q.w * q.w) * sum.w - (q.u - pointU * q.w) ^ 2 * sum.u

def chordDenominator (pointV : R) (rungs : Rungs R) : R :=
  2 * pointV * rungs.first.w * rungs.second.w * rungs.first.w

end Formulas

variable {F : Type} [Field F] [DecidableEq F] {M : Montgomery F} {P : M.Point}

theorem Holds.recover {n : Nat} {rungs : Rungs F} (given : Holds P n rungs) (nonzero : v P ≠ 0) :
    rungs.chordNumerator M.coefficient (u P) * (rungs.chordDenominator (v P))⁻¹ =
      if n • P = 0 ∨ (n + 1) • P = 0 then 0 else M.twist * v (n • P) := by
  by_cases degenerate : n • P = 0 ∨ (n + 1) • P = 0
  · have denominator : rungs.chordDenominator (v P) = 0 := by
      rw [← given.first.infinite, ← given.second.infinite] at degenerate
      rcases degenerate with zero | zero <;> simp [chordDenominator, zero]
    rw [if_pos degenerate, denominator, inv_zero, mul_zero]
  obtain ⟨first, second⟩ := not_or.mp degenerate
  have lower : rungs.first.w ≠ 0 := fun zero => first (given.first.infinite.mp zero)
  have lower' : rungs.second.w ≠ 0 := fun zero => second (given.second.infinite.mp zero)
  have point : P ≠ 0 := by
    rintro rfl
    exact nonzero v_zero
  have two := M.two_ne_zero
  rw [succ_nsmul] at second
  have law := chord first point second
  have numerator : rungs.chordNumerator M.coefficient (u P) =
      rungs.first.w ^ 2 * rungs.second.w * (2 * M.twist * v (n • P) * v P) := by
    rw [chordNumerator, given.first.finite first, given.second.finite (by rwa [succ_nsmul]),
      succ_nsmul]
    linear_combination -rungs.first.w ^ 2 * rungs.second.w * law
  rw [if_neg degenerate, numerator, chordDenominator]
  field_simp

end Curve25519.Montgomery.Rungs
