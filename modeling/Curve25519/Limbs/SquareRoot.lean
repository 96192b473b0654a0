import Curve25519.Limbs.Encoding
import Curve25519.Limbs.Power

/-! Square roots of quotients.
One power gives both a candidate for the root of u / v and the test whether there is one: the
candidate's square times v is u times one of the four fourth roots of one. Where it is the
wrong sign, a root of minus one puts it right; the root returned is the even one. -/

namespace Curve25519.Limbs

variable {m : Type → Type} [Monad m] [MonadRequire m]

def sqrtMinusOne : Limbs :=
  ofNat 19681161376707505956807079304988542015446066515923890162744021073123829784752

structure Root where
  isSquare : Bool
  root : Limbs

/-- Whether u / v is a square, and the even root of it, or of the root of minus one times it.
A zero u counts as the square of zero; over a zero v any other u is no square and has root
zero. -/
@[specialize] def sqrtRatio (u v : Limbs) : m Root := do
  let v3 ← mul (← square v) v
  let v7 ← mul (← square v3) v
  let r ← mul (← mul u v3) (← rootPower (← mul u v7))
  let check ← mul v (← square r)
  let correct ← equal check u
  let flipped ← equal check (← neg u)
  let flippedByRoot ← equal check (← mul (← neg u) sqrtMinusOne)
  let turned ← mul sqrtMinusOne r
  let r := select (flipped || flippedByRoot) r turned
  let r ← negIf (← isNegative r) r
  return ⟨correct || flipped, r⟩

@[specialize] def invSqrt (x : Limbs) : m Root := sqrtRatio one x

@[specialize] def isSquare (x : Limbs) : m Bool := do
  return (← sqrtRatio x one).isSquare

end Curve25519.Limbs
