import Curve25519.Curve.Ladder

/-! The v-coordinate of a multiple.
The ladder ends with the u-coordinates of a multiple of a point and of that multiple plus the
point; with both coordinates of the point itself they fix the v-coordinate of the multiple. -/

namespace Curve25519.LadderState

variable {m : Type → Type} [Monad m] [MonadRequire m]

/-- The v-coordinate of the first point, where the second is the first plus the point with the
coordinates given; zero if either of them is the neutral element. -/
@[specialize] def vCoordinate (pointU pointV : Limbs) (state : LadderState) : m Limbs := do
  let ⟨q, sum⟩ := state
  let twoA ← Limbs.add Curve.coefficient Curve.coefficient
  let scaledU ← Limbs.mul pointU q.w
  let uPlus ← Limbs.add q.u scaledU
  let uMinus ← Limbs.sub q.u scaledU
  let chordTerm ← Limbs.mul (← Limbs.square uMinus) sum.u
  let twoAW ← Limbs.mul twoA q.w
  let left ← Limbs.add uPlus twoAW
  let right ← Limbs.add (← Limbs.mul pointU q.u) q.w
  let bracket ← Limbs.sub (← Limbs.mul left right) (← Limbs.mul twoAW q.w)
  let numerator ← Limbs.sub (← Limbs.mul bracket sum.w) chordTerm
  let scale ← Limbs.mul (← Limbs.mul (← Limbs.add pointV pointV) q.w) sum.w
  let denominator ← Limbs.mul scale q.w
  Limbs.mul numerator (← Limbs.invert denominator)

end Curve25519.LadderState
