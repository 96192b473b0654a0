import Curve25519.Limbs.Linear
import Curve25519.Word.Double

/-! Products and repeated squares of field elements.
The twenty-five products of limbs are summed in five columns; a product that would land above
the fifth column lands nineteenfold five columns lower. Limbs below 2^54 keep every column
within 128 bits and every carry within 64. -/

namespace Curve25519.Limbs
open DoubleWord (product ofSum)

variable {m : Type → Type} [Monad m] [MonadRequire m]

def factorBound : Nat := 0x40000000000000

/-- Five columns carried from the lowest up. The carry out of the top re-enters at the bottom
nineteenfold, and what that leaves above 51 bits moves one limb up. -/
@[specialize] def ofColumns (c0 c1 c2 c3 c4 : DoubleWord) : m Limbs := do
  let c1 ← c1.addCarry (← c0.carry)
  let c2 ← c2.addCarry (← c1.carry)
  let c3 ← c3.addCarry (← c2.carry)
  let c4 ← c4.addCarry (← c3.carry)
  let bottom ← Word.add c0.low51 (← Word.mul (← c4.carry) 19)
  return ⟨Word.low51 bottom, ← Word.add c1.low51 (Word.high51 bottom), c2.low51, c3.low51,
    c4.low51⟩

@[specialize] def mul (a b : Limbs) : m Limbs := do
  require (a.Below factorBound)
  require (b.Below factorBound)
  let b1w ← Word.mul b.l1 19
  let b2w ← Word.mul b.l2 19
  let b3w ← Word.mul b.l3 19
  let b4w ← Word.mul b.l4 19
  let c0 ← ofSum (product a.l0 b.l0 + product a.l4 b1w + product a.l3 b2w + product a.l2 b3w
    + product a.l1 b4w)
  let c1 ← ofSum (product a.l1 b.l0 + product a.l0 b.l1 + product a.l4 b2w + product a.l3 b3w
    + product a.l2 b4w)
  let c2 ← ofSum (product a.l2 b.l0 + product a.l1 b.l1 + product a.l0 b.l2 + product a.l4 b3w
    + product a.l3 b4w)
  let c3 ← ofSum (product a.l3 b.l0 + product a.l2 b.l1 + product a.l1 b.l2 + product a.l0 b.l3
    + product a.l4 b4w)
  let c4 ← ofSum (product a.l4 b.l0 + product a.l3 b.l1 + product a.l2 b.l2 + product a.l1 b.l3
    + product a.l0 b.l4)
  ofColumns c0 c1 c2 c3 c4

@[specialize] def square (a : Limbs) : m Limbs := do
  require (a.Below factorBound)
  let a3w ← Word.mul a.l3 19
  let a4w ← Word.mul a.l4 19
  -- A product of two different limbs counts twice.
  let c0 ← ofSum (product a.l0 a.l0 + 2 * (product a.l1 a4w + product a.l2 a3w))
  let c1 ← ofSum (product a.l3 a3w + 2 * (product a.l0 a.l1 + product a.l2 a4w))
  let c2 ← ofSum (product a.l1 a.l1 + 2 * (product a.l0 a.l2 + product a.l4 a3w))
  let c3 ← ofSum (product a.l4 a4w + 2 * (product a.l0 a.l3 + product a.l1 a.l2))
  let c4 ← ofSum (product a.l2 a.l2 + 2 * (product a.l0 a.l4 + product a.l1 a.l3))
  ofColumns c0 c1 c2 c3 c4

@[specialize] def iterSquare (a : Limbs) : Nat → m Limbs
  | 0 => return a
  | count + 1 => do iterSquare (← square a) count

@[specialize] def squareTimes (a : Limbs) (count : Nat) : m Limbs := do
  require (0 < count)
  iterSquare a count

@[specialize] def twiceSquare (a : Limbs) : m Limbs := do
  let s ← square a
  add s s

end Curve25519.Limbs
