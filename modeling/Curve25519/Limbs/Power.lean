import Curve25519.Limbs.Product

/-! Powers with the two fixed exponents of the field: the inverse, and the root candidate.
Both exponents end in a long run of ones, which one chain of squarings and products builds. -/

namespace Curve25519.Limbs

variable {m : Type → Type} [Monad m] [MonadRequire m]

/-- Powers of an element with exponents 2^250 - 1 and 11. The exponent of a run of ones of
length 2n is that of length n, moved up n bits, plus itself. -/
@[specialize] def powOnes (x : Limbs) : m (Limbs × Limbs) := do
  let x2 ← square x
  let x8 ← square (← square x2)
  let x9 ← mul x x8
  let x11 ← mul x2 x9
  let ones5 ← mul x9 (← square x11)
  let ones10 ← mul (← squareTimes ones5 5) ones5
  let ones20 ← mul (← squareTimes ones10 10) ones10
  let ones40 ← mul (← squareTimes ones20 20) ones20
  let ones50 ← mul (← squareTimes ones40 10) ones10
  let ones100 ← mul (← squareTimes ones50 50) ones50
  let ones200 ← mul (← squareTimes ones100 100) ones100
  let ones250 ← mul (← squareTimes ones200 50) ones50
  return (ones250, x11)

/-- The power with exponent p - 2 = 2^255 - 21: the inverse, and zero for zero. -/
@[specialize] def invert (x : Limbs) : m Limbs := do
  let (ones250, x11) ← powOnes x
  mul (← squareTimes ones250 5) x11

@[specialize] def rootPower (x : Limbs) : m Limbs := do
  let (ones250, _) ← powOnes x
  mul x (← squareTimes ones250 2)

end Curve25519.Limbs
