import Curve25519.Word.Single

/-! A double word of 128 bits holds a column of a long multiplication: a sum of products of
64-bit words, of which the low 51 bits stay and the rest is carried into the next column. -/

namespace Curve25519

abbrev DoubleWord := BitVec 128

namespace DoubleWord

variable {m : Type → Type} [Monad m] [MonadRequire m]

def size : Nat := 0x100000000000000000000000000000000

@[inline] def product (x y : UInt64) : Nat := x.toNat * y.toNat

@[inline] def ofSum (sum : Nat) : m DoubleWord := do
  require (sum < size)
  return BitVec.ofNat 128 sum

@[inline] def carry (column : DoubleWord) : m UInt64 := do
  require (column.toNat >>> 51 < UInt64.size)
  return UInt64.ofNat (column.toNat >>> 51)

@[inline] def addCarry (column : DoubleWord) (carried : UInt64) : m DoubleWord :=
  ofSum (column.toNat + carried.toNat)

@[inline] def low51 (column : DoubleWord) : UInt64 :=
  Word.low51 (UInt64.ofNat column.toNat)

variable [LawfulMonad m] [LawfulMonadRequire m]

theorem ofSum_of_fits {sum : Nat} (fits : sum < size) :
    (ofSum sum : m DoubleWord) = pure (BitVec.ofNat 128 sum) := by
  rw [ofSum, LawfulMonadRequire.require_of fits, pure_bind]

theorem carry_of_fits {column : DoubleWord} (fits : column.toNat >>> 51 < UInt64.size) :
    (carry column : m UInt64) = pure (UInt64.ofNat (column.toNat >>> 51)) := by
  rw [carry, LawfulMonadRequire.require_of fits, pure_bind]

end DoubleWord
end Curve25519
