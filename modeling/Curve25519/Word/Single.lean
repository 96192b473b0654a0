import Curve25519.Word.Require

/-! Sums, differences and products of 64-bit words, each stating that it does not wrap. Where
it does not, the operation has no effect but its result. -/

namespace Curve25519.Word

variable {m : Type → Type} [Monad m] [MonadRequire m]

@[inline] def add (x y : UInt64) : m UInt64 := do
  require (x.toNat + y.toNat < UInt64.size)
  return x + y

@[inline] def sub (x y : UInt64) : m UInt64 := do
  require (y ≤ x)
  return x - y

@[inline] def mul (x y : UInt64) : m UInt64 := do
  require (x.toNat * y.toNat < UInt64.size)
  return x * y

@[inline] def low51 (x : UInt64) : UInt64 := x &&& 0x7ffffffffffff

@[inline] def high51 (x : UInt64) : UInt64 := x >>> 51

variable [LawfulMonad m] [LawfulMonadRequire m]

theorem add_of_fits {x y : UInt64} (fits : x.toNat + y.toNat < UInt64.size) :
    (add x y : m UInt64) = pure (x + y) := by
  rw [add, LawfulMonadRequire.require_of fits, pure_bind]

theorem sub_of_le {x y : UInt64} (le : y ≤ x) : (sub x y : m UInt64) = pure (x - y) := by
  rw [sub, LawfulMonadRequire.require_of le, pure_bind]

theorem mul_of_fits {x y : UInt64} (fits : x.toNat * y.toNat < UInt64.size) :
    (mul x y : m UInt64) = pure (x * y) := by
  rw [mul, LawfulMonadRequire.require_of fits, pure_bind]

end Curve25519.Word
