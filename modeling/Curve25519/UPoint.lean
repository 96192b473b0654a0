import Curve25519.Curve.VCoordinate
import Curve25519.Scalar

/-! Points of the curve or its twist by their u-coordinate.
The octets are kept as they came: bit 255 counts for nothing, and an integer from the modulus
up stands for its remainder. Equality and hashing see the coordinate and not the octets. -/

namespace Curve25519

structure UPoint where
  bytes : Bytes32

namespace UPoint

def base : UPoint := ⟨Curve.baseU⟩

def coordinate (point : UPoint) : Limbs := .decode point.bytes

variable {m : Type → Type} [Monad m] [MonadRequire m]

@[specialize] def equal (a b : UPoint) : m Bool := Limbs.equal a.coordinate b.coordinate

@[specialize] def hashInput (point : UPoint) : m Bytes32 := Limbs.encode point.coordinate

/-- The coordinate is zero, as that of the neutral element and of the point of order two. -/
@[specialize] def isNeutral (point : UPoint) : m Bool := Limbs.isZero point.coordinate

@[specialize] def mulBits (point : UPoint) (bits : List Bool) : m UPoint := do
  return ⟨← (← ladder point.coordinate bits).first.affine⟩

@[specialize] def mulClamped (point : UPoint) (key : Bytes32) : m UPoint :=
  point.mulBits (Scalar.bits (Scalar.clamp key))

@[specialize] def baseMultiple (key : Bytes32) : m UPoint := base.mulClamped key

@[specialize] def baseMultipleWithV (key : Bytes32) : m (UPoint × Limbs) := do
  let state ← ladder base.coordinate (Scalar.bits (Scalar.clamp key))
  let v ← state.vCoordinate base.coordinate Curve.baseV
  return (⟨← state.first.affine⟩, v)

end UPoint

/-- The key agreement function on octets: the u-coordinate of the multiple of the point u by
the clamped key k. -/
@[specialize] def x25519 {m : Type → Type} [Monad m] [MonadRequire m] (k u : Bytes32) :
    m Bytes32 := do
  return (← UPoint.mulClamped ⟨u⟩ k).bytes

/-- The function repeated: each output is the next key, and each key the next point. -/
@[specialize] def x25519Repeated {m : Type → Type} [Monad m] [MonadRequire m] (k u : Bytes32) :
    (count : Nat) → m Bytes32
  | 0 => return k
  | count + 1 => do x25519Repeated (← x25519 k u) k count

end Curve25519
