import Mathlib.NumberTheory.LegendreSymbol.QuadraticChar.Basic
import Curve25519.Proofs.Montgomery.Curve

/-! How many points a curve over a finite field and its quadratic twist have together.
A u-coordinate has as many points as its cubic, divided by the twist, has square roots. What one of
the two curves has more than one of them, the other has less, so that the two have two points for
each coordinate and the two neutral elements. -/

namespace Curve25519.Montgomery

variable {F : Type} [Field F]

section Points
variable (M : Montgomery F)

def ofCoordinates : Option ((u : F) × {v : F // M.OnCurve u v}) → M.Point
  | none => 0
  | some ⟨u, v, onCurve⟩ => point u v onCurve

theorem ofCoordinates_bijective : Function.Bijective (ofCoordinates M) := by
  constructor
  · rintro (_ | ⟨u₁, v₁, first⟩) (_ | ⟨u₂, v₂, second⟩) same
    · rfl
    · exact absurd same.symm (point_ne_zero u₂ v₂ second)
    · exact absurd same (point_ne_zero u₁ v₁ first)
    · have coordinate := congrArg u same
      have coordinate' := congrArg v same
      simp only [ofCoordinates, u_point, v_point] at coordinate coordinate'
      subst coordinate coordinate'
      rfl
  · intro P
    rcases zero_or_point P with rfl | ⟨u, v, onCurve, rfl⟩
    · exact ⟨none, rfl⟩
    · exact ⟨some ⟨u, v, onCurve⟩, rfl⟩

variable [Fintype F]

instance : Finite M.Point := Finite.of_surjective _ (ofCoordinates_bijective M).surjective

theorem card_point : Nat.card M.Point = ∑ u : F, Nat.card {v : F // M.OnCurve u v} + 1 := by
  rw [← Nat.card_congr (Equiv.ofBijective _ (ofCoordinates_bijective M)), Finite.card_option,
    Nat.card_sigma]

variable [DecidableEq F]

theorem card_onCurve (u : F) :
    (Nat.card {v : F // M.OnCurve u v} : ℤ) =
      quadraticChar F M.twist * quadraticChar F (u ^ 3 + M.coefficient * u ^ 2 + u) + 1 := by
  have odd : ringChar F ≠ 2 := by
    intro two
    apply M.two_ne_zero
    have zero := ringChar.Nat.cast_ringChar (R := F)
    rwa [two, Nat.cast_ofNat] at zero
  have roots := quadraticChar_card_sqrts odd ((u ^ 3 + M.coefficient * u ^ 2 + u) / M.twist)
  have same (v : F) : M.OnCurve u v ↔
      v ∈ {v : F | v ^ 2 = (u ^ 3 + M.coefficient * u ^ 2 + u) / M.twist} := by
    rw [Set.mem_ofPred_eq, eq_div_iff M.twist_ne_zero, mul_comm (v ^ 2), OnCurve]
  have quotient : (u ^ 3 + M.coefficient * u ^ 2 + u) / M.twist =
      M.twist * (u ^ 3 + M.coefficient * u ^ 2 + u) * M.twist⁻¹ ^ 2 := by
    have twist := M.twist_ne_zero
    field_simp
  have square := quadraticChar_sq_one (inv_ne_zero M.twist_ne_zero)
  rw [Nat.card_congr (Equiv.subtypeEquivRight same), Nat.card_eq_card_toFinset, roots, quotient,
    map_mul, map_mul, map_pow, square, mul_one]

end Points

/-- A curve and its twist by a factor that is no square have two points for each element of the field
and two more. -/
theorem card_add_card [Fintype F] [DecidableEq F] {M N : Montgomery F}
    (same : M.coefficient = N.coefficient)
    (opposite : quadraticChar F N.twist = -quadraticChar F M.twist) :
    Nat.card M.Point + Nat.card N.Point = 2 * Fintype.card F + 2 := by
  have pair (u : F) :
      Nat.card {v : F // M.OnCurve u v} + Nat.card {v : F // N.OnCurve u v} = 2 := by
    have first := card_onCurve M u
    have second := card_onCurve N u
    rw [opposite, ← same] at second
    zify
    rw [first, second]
    ring
  calc
    Nat.card M.Point + Nat.card N.Point =
        ∑ u : F, (Nat.card {v : F // M.OnCurve u v} + Nat.card {v : F // N.OnCurve u v}) + 2 := by
      rw [card_point, card_point, Finset.sum_add_distrib]
      ring
    _ = 2 * Fintype.card F + 2 := by
      simp only [pair, Finset.sum_const, Finset.card_univ, smul_eq_mul]
      ring

end Curve25519.Montgomery
