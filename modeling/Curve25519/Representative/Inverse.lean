import Curve25519.Representative.Direct

/-! From points to representatives.
A point has a representative where -2u(u + A) is a square other than zero. The square of the
representative is -u / (2(u + A)) if v is low and -(u + A) / (2u) if v is high; the low one of
the two roots is taken, so that bits 254 and 255 stay free. -/

namespace Curve25519.Representative

variable {m : Type → Type} [Monad m] [MonadRequire m]

@[specialize] def inverseRoot (u uPlusA : Limbs) : m Limbs.Root := do
  let two ← Limbs.add .one .one
  Limbs.invSqrt (← Limbs.neg (← Limbs.mul (← Limbs.mul u uPlusA) two))

/-- The representative of the point with this u-coordinate and a high or low v-coordinate, if
it has one. Bit 255 is that of the tweak. -/
@[specialize] def ofPoint? (u : Limbs) (vIsHigh : Bool) (tweak : UInt8) :
    m (Option Representative) := do
  let uPlusA ← Limbs.add u Curve.coefficient
  let inverse ← inverseRoot u uPlusA
  let r ← Limbs.mul (Limbs.select vIsHigh u uPlusA) inverse.root
  let r ← Limbs.negIf (← Limbs.isHigh r) r
  let representative : Representative := ⟨(← Limbs.encode r).addTop tweak⟩
  return if inverse.isSquare then some representative else none

end Curve25519.Representative
