import Curve25519.Curve.Params
import Curve25519.Proofs.Limbs.Linear
import Curve25519.Proofs.Montgomery.Kummer

/-! The curve and its twists over the field of the limbs. -/

namespace Curve25519

namespace Curve
open Limbs (Denotes ofNat_denotes)

def a : Element := 486662

theorem coefficient_denotes : Denotes 1 a coefficient := by
  have denotes := ofNat_denotes (n := 486662) (by decide)
  rw [Nat.cast_ofNat] at denotes
  exact denotes

theorem negCoefficient_denotes : Denotes 1 (-a) negCoefficient := by
  have denotes := ofNat_denotes (n := prime - 486662) (by decide)
  rw [Nat.cast_sub (by decide), ZMod.natCast_self, zero_sub, Nat.cast_ofNat] at denotes
  exact denotes

/-- The curve d v^2 = u^3 + A u^2 + u: the curve itself for d = 1, and its quadratic twist for a d
that is not a square. -/
def twisted (d : Element) (nonzero : d ≠ 0) : Montgomery Element where
  coefficient := a
  twist := d
  two_ne_zero := two_ne_zero
  twist_ne_zero := nonzero
  smooth := by
    have gap := natCast_ne_zero (n := 486662 ^ 2 - 4) (by decide) (by decide)
    rw [Nat.cast_sub (by decide), sub_ne_zero] at gap
    exact_mod_cast gap

def montgomery : Montgomery Element := twisted 1 one_ne_zero

theorem doublingFactor_montgomery : montgomery.doublingFactor = 121666 := by
  refine mul_left_cancel₀ montgomery.four_ne_zero (montgomery.four_mul_doublingFactor.trans ?_)
  change a + 2 = 4 * 121666
  rw [a]
  norm_num

theorem doublingFactor_denotes : Denotes 1 montgomery.doublingFactor doublingFactor := by
  have denotes := ofNat_denotes (n := 121666) (by decide)
  rw [Nat.cast_ofNat, ← doublingFactor_montgomery] at denotes
  exact denotes

def cubic (x : Element) : Element := x ^ 3 + a * x ^ 2 + x

theorem exists_point_iff {d : Element} (nonzero : d ≠ 0) (x : Element) :
    (∃ P : (twisted d nonzero).Point, Montgomery.u P = x) ↔ IsSquare (d * cubic x) := by
  constructor
  · rintro ⟨P, rfl⟩
    have equation := Montgomery.onCurve P
    change d * Montgomery.v P ^ 2 = cubic (Montgomery.u P) at equation
    exact ⟨d * Montgomery.v P, by rw [← equation]; ring⟩
  · rintro ⟨root, square⟩
    have onCurve : (twisted d nonzero).OnCurve x (root / d) := by
      change d * (root / d) ^ 2 = cubic x
      field_simp
      linear_combination -square
    exact ⟨Montgomery.point x (root / d) onCurve, Montgomery.u_point _ _ _⟩

end Curve
end Curve25519
