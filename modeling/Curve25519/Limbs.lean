import Curve25519.Word.Single

/-! Elements of the field of integers modulo 2^255 - 19, as five limbs in radix 2^51.
A limb may exceed 51 bits, so one element has many limb vectors: `toNat` is the integer the
limbs spell, `value` the element, and `Below` the size of the limbs. -/

namespace Curve25519

def prime : Nat :=
  0x7fffffffffffffffffffffffffffffffffffffffffffffffffffffffffffffed

structure Limbs where
  l0 : UInt64
  l1 : UInt64
  l2 : UInt64
  l3 : UInt64
  l4 : UInt64

namespace Limbs

def radix : Nat := 0x8000000000000

def toNat (a : Limbs) : Nat :=
  a.l0.toNat + radix * (a.l1.toNat + radix * (a.l2.toNat + radix * (a.l3.toNat
    + radix * a.l4.toNat)))

def value (a : Limbs) : Nat := a.toNat % prime

def Below (bound : Nat) (a : Limbs) : Prop :=
  a.l0.toNat < bound ∧ a.l1.toNat < bound ∧ a.l2.toNat < bound ∧ a.l3.toNat < bound
    ∧ a.l4.toNat < bound

instance (bound : Nat) (a : Limbs) : Decidable (a.Below bound) :=
  inferInstanceAs (Decidable (_ ∧ _))

def AtMost (a b : Limbs) : Prop :=
  a.l0 ≤ b.l0 ∧ a.l1 ≤ b.l1 ∧ a.l2 ≤ b.l2 ∧ a.l3 ≤ b.l3 ∧ a.l4 ≤ b.l4

instance (a b : Limbs) : Decidable (a.AtMost b) :=
  inferInstanceAs (Decidable (_ ∧ _))

def ofNat (n : Nat) : Limbs :=
  ⟨Word.low51 (.ofNat n), Word.low51 (.ofNat (n >>> 51)), Word.low51 (.ofNat (n >>> 102)),
    Word.low51 (.ofNat (n >>> 153)), Word.low51 (.ofNat (n >>> 204))⟩

def zero : Limbs := ofNat 0
def one : Limbs := ofNat 1
def minusOne : Limbs := ofNat (prime - 1)

/-- The second element if the choice is made, the first if not. -/
@[inline] def select (choice : Bool) (a b : Limbs) : Limbs := if choice then b else a

@[inline] def swapIf (choice : Bool) (a b : Limbs) : Limbs × Limbs :=
  (select choice a b, select choice b a)

end Limbs
end Curve25519
