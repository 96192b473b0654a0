import Curve25519.Key.Rejection
import Curve25519.Representative.Direct

/-! Public keys, and the ways to read one: as it comes, by the canonical octets of its
coordinate only, or from a representative. -/

namespace Curve25519

structure PublicKey where
  point : UPoint

namespace PublicKey

def ofBytes (bytes : Bytes32) : PublicKey := ⟨⟨bytes⟩⟩

def bytes (key : PublicKey) : Bytes32 := key.point.bytes

def ofOctets (octets : List UInt8) : Except Rejection PublicKey :=
  ofBytes <$> KeyKind.publicKey.read octets

variable {m : Type → Type} [Monad m] [MonadRequire m]

/-- Bit 255 is cleared, and the rest has to be the encoding of what it decodes to. -/
@[specialize] def ofCanonicalOctets (octets : List UInt8) : m (Except Rejection PublicKey) := do
  match KeyKind.publicKey.read octets with
  | .error rejection => return .error rejection
  | .ok bytes =>
      let bytes := bytes.clearTop
      let canonical ← Limbs.encode (.decode bytes)
      return if canonical == bytes then .ok (ofBytes bytes) else .error .notCanonical

@[specialize] def equal (a b : PublicKey) : m Bool := UPoint.equal a.point b.point

@[specialize] def hashInput (key : PublicKey) : m Bytes32 := UPoint.hashInput key.point

end PublicKey

namespace Representative

def ofOctets (octets : List UInt8) : Except Rejection Representative :=
  .mk <$> KeyKind.representative.read octets

variable {m : Type → Type} [Monad m] [MonadRequire m]

@[specialize] def toPublicKey (representative : Representative) :
    m (Except Rejection PublicKey) := do
  match ← representative.toPoint? with
  | some point => return .ok ⟨point⟩
  | none => return .error .smallOrder

end Representative

@[specialize] def PublicKey.ofRepresentativeOctets {m : Type → Type} [Monad m] [MonadRequire m]
    (octets : List UInt8) : m (Except Rejection PublicKey) := do
  match Representative.ofOctets octets with
  | .error rejection => return .error rejection
  | .ok representative => representative.toPublicKey

end Curve25519
