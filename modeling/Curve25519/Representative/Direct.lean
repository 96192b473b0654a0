import Curve25519.Limbs.SquareRoot
import Curve25519.Representative
import Curve25519.UPoint

/-! From representatives to points.
Every field element is mapped to the u-coordinate of a point of the curve. With
d = -A / (1 + 2r^2), either d or -d - A is one, and the map takes d where it is. -/

namespace Curve25519.Representative

variable {m : Type → Type} [Monad m] [MonadRequire m]

@[specialize] def directMap (r : Limbs) : m Limbs := do
  let denominator ← Limbs.add .one (← Limbs.twiceSquare r)
  let d ← Limbs.mul Curve.negCoefficient (← Limbs.invert denominator)
  let inner ← Limbs.add
    (← Limbs.add (← Limbs.square d) (← Limbs.mul d Curve.coefficient)) .one
  let onCurve ← Limbs.isSquare (← Limbs.mul d inner)
  let shifted ← Limbs.add d (Limbs.select onCurve Curve.coefficient .zero)
  Limbs.negIf (!onCurve) shifted

@[specialize] def hasSmallOrder (u : Limbs) : m Bool := do
  let bytes ← Limbs.encode u
  return Curve.smallOrder.any (bytes == ·)

/-- The point that a representative stands for, unless it has small order. Bit 255 is
ignored. -/
@[specialize] def toPoint? (representative : Representative) : m (Option UPoint) := do
  let u ← directMap (.decode representative.bytes.clearTop)
  let point : UPoint := ⟨← Limbs.encode u⟩
  return if ← hasSmallOrder u then none else some point

end Curve25519.Representative
