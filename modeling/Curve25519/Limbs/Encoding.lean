import Curve25519.Bytes32
import Curve25519.Limbs.Linear

/-! Field elements as octets.
Any thirty-two octets decode, by their low 255 bits; encoding writes the one integer below the
modulus, whatever limbs stand for the element. Tests of equality, sign and size look at the
encoding, so that they see the element and not its limbs. -/

namespace Curve25519.Limbs

def load (bytes : Bytes32) (offset : Nat) : (count : Nat) → UInt64
  | 0 => 0
  | count + 1 => (bytes.octet offset).toUInt64 ||| (load bytes (offset + 1) count <<< 8)

/-- The low 255 bits, 51 to a limb. Each limb is cut from a word of eight octets. -/
def decode (bytes : Bytes32) : Limbs :=
  ⟨Word.low51 (load bytes 0 8), Word.low51 (load bytes 6 8 >>> 3),
    Word.low51 (load bytes 12 8 >>> 6), Word.low51 (load bytes 19 8 >>> 1),
    Word.low51 (load bytes 24 8 >>> 12)⟩

def limb (a : Limbs) : (index : Nat) → UInt64
  | 0 => a.l0
  | 1 => a.l1
  | 2 => a.l2
  | 3 => a.l3
  | 4 => a.l4
  | _ => 0

/-- Eight bits from the bit of weight 2^(8 index) on, of limbs below 2^51. They may lie across
two limbs. -/
def octet (a : Limbs) (index : Nat) : UInt8 :=
  let low := 8 * index / 51
  let shift := 8 * index % 51
  ((a.limb low >>> .ofNat shift) ||| (a.limb (low + 1) <<< .ofNat (51 - shift))).toUInt8

variable {m : Type → Type} [Monad m] [MonadRequire m]

/-- How often the modulus fits into weakly reduced limbs, which are below twice the modulus:
the carry out of 255 bits when nineteen is added. -/
@[specialize] def quotient (a : Limbs) : m UInt64 := do
  let q := Word.high51 (← Word.add a.l0 19)
  let q := Word.high51 (← Word.add a.l1 q)
  let q := Word.high51 (← Word.add a.l2 q)
  let q := Word.high51 (← Word.add a.l3 q)
  return Word.high51 (← Word.add a.l4 q)

/-- The limbs below 2^51 of the least integer that stands for the same element. The quotient
times the modulus is taken off by adding nineteenfold the quotient and dropping 2^255. -/
@[specialize] def canonical (a : Limbs) : m Limbs := do
  let a ← weakReduce a
  let l0 ← Word.add a.l0 (← Word.mul 19 (← quotient a))
  let l1 ← Word.add a.l1 (Word.high51 l0)
  let l2 ← Word.add a.l2 (Word.high51 l1)
  let l3 ← Word.add a.l3 (Word.high51 l2)
  let l4 ← Word.add a.l4 (Word.high51 l3)
  return ⟨Word.low51 l0, Word.low51 l1, Word.low51 l2, Word.low51 l3, Word.low51 l4⟩

@[specialize] def encode (a : Limbs) : m Bytes32 := do
  let c ← canonical a
  let bytes : Bytes32 := Vector.ofFn fun index => c.octet index.val
  require (bytes.octet 31 &&& Bytes32.topMask = 0)
  return bytes

@[specialize] def equal (a b : Limbs) : m Bool := do
  return (← encode a) == (← encode b)

@[specialize] def isZero (a : Limbs) : m Bool := do
  return (← encode a) == Bytes32.zero

@[specialize] def isNegative (a : Limbs) : m Bool := do
  return (← encode a).octet 0 &&& 1 == 1

/-- The least integer for the element exceeds half the modulus. Twice such an integer is odd
once it is reduced, and twice any other is even. -/
@[specialize] def isHigh (a : Limbs) : m Bool := do
  isNegative (← add a a)

end Curve25519.Limbs
