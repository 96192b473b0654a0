import Curve25519.Limbs
import Curve25519.Word.Single

/-! Sums and differences of field elements, limb by limb.
A difference first adds sixteen times the modulus, so that no limb goes below zero as long as
the subtrahend's limbs are at most those of that multiple, and then reduces the limbs weakly. -/

namespace Curve25519.Limbs

variable {m : Type → Type} [Monad m] [MonadRequire m]

@[inline] def zipWith (f : UInt64 → UInt64 → m UInt64) (a b : Limbs) : m Limbs := do
  return ⟨← f a.l0 b.l0, ← f a.l1 b.l1, ← f a.l2 b.l2, ← f a.l3 b.l3, ← f a.l4 b.l4⟩

def sixteenPrimes : Limbs :=
  ⟨0x7ffffffffffed0, 0x7ffffffffffff0, 0x7ffffffffffff0, 0x7ffffffffffff0, 0x7ffffffffffff0⟩

/-- One parallel carry: each limb keeps its low 51 bits and takes what its neighbour below has
above them; what leaves the top comes back nineteenfold at the bottom, as 2^255 is 19. -/
@[specialize] def weakReduce (a : Limbs) : m Limbs := do
  return ⟨← Word.add (Word.low51 a.l0) (← Word.mul (Word.high51 a.l4) 19),
    ← Word.add (Word.low51 a.l1) (Word.high51 a.l0),
    ← Word.add (Word.low51 a.l2) (Word.high51 a.l1),
    ← Word.add (Word.low51 a.l3) (Word.high51 a.l2),
    ← Word.add (Word.low51 a.l4) (Word.high51 a.l3)⟩

@[specialize] def add (a b : Limbs) : m Limbs := zipWith Word.add a b

@[specialize] def sub (a b : Limbs) : m Limbs := do
  require (b.AtMost sixteenPrimes)
  weakReduce (← zipWith Word.sub (← zipWith Word.add a sixteenPrimes) b)

@[specialize] def neg (a : Limbs) : m Limbs := do
  require (a.AtMost sixteenPrimes)
  weakReduce (← zipWith Word.sub sixteenPrimes a)

@[specialize] def negIf (choice : Bool) (a : Limbs) : m Limbs := do
  return select choice a (← neg a)

end Curve25519.Limbs
