import Curve25519.Key.Public
import Curve25519.Representative.Inverse

/-! Secrets, the public keys and representatives derived from them, and key agreement.
A secret is a clamped scalar. The ladder for its public key runs once, and yields the sign
that selects the representative as well. -/

namespace Curve25519

structure Secret where
  scalar : Bytes32
  clamped : Scalar.clamp scalar = scalar

structure SharedSecret where
  point : UPoint

namespace SharedSecret

def bytes (shared : SharedSecret) : Bytes32 := shared.point.bytes

/-- The other party's key had a part of large order, so that the result depends on the
secret. -/
@[specialize] def isContributory {m : Type → Type} [Monad m] [MonadRequire m]
    (shared : SharedSecret) : m Bool := do
  return !(← shared.point.isNeutral)

end SharedSecret

namespace Secret

def ofKey (key : Bytes32) : Secret := ⟨Scalar.clamp key, Scalar.clamp_clamp key⟩

variable {m : Type → Type} [Monad m] [MonadRequire m]

@[specialize] def publicKey (secret : Secret) : m PublicKey := do
  return ⟨← UPoint.baseMultiple secret.scalar⟩

@[specialize] def agree (secret : Secret) (theirs : PublicKey) : m SharedSecret := do
  return ⟨← theirs.point.mulClamped secret.scalar⟩

@[specialize] def publicKeyWithRepresentative (secret : Secret) (tweak : UInt8) :
    m (PublicKey × Except Rejection Representative) := do
  let (point, v) ← UPoint.baseMultipleWithV secret.scalar
  match ← Representative.ofPoint? point.coordinate (← Limbs.isHigh v) tweak with
  | some representative => return (⟨point⟩, .ok representative)
  | none => return (⟨point⟩, .error .notRepresentable)

@[specialize] def representative (secret : Secret) (tweak : UInt8) :
    m (Except Rejection Representative) := do
  return (← secret.publicKeyWithRepresentative tweak).2

end Secret
end Curve25519
