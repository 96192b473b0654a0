import Curve25519.Key.Secret

/-! Keys derived from the octets of a private key: a pair of secret and public key, or such a
pair together with a representative. About half of all private keys have none, so there is a
search that counts on from a first key until one does. -/

namespace Curve25519

structure KeyPair where
  secret : Secret
  publicKey : PublicKey

structure HiddenKeyPair extends KeyPair where
  representative : Representative

variable {m : Type → Type} [Monad m] [MonadRequire m]

@[specialize] def KeyPair.ofOctets (octets : List UInt8) : m (Except Rejection KeyPair) := do
  match KeyKind.privateKey.read octets with
  | .error rejection => return .error rejection
  | .ok key =>
      let secret := Secret.ofKey key
      return .ok ⟨secret, ← secret.publicKey⟩

namespace HiddenKeyPair

@[specialize] def ofKey (key : Bytes32) (tweak : UInt8) :
    m (Except Rejection HiddenKeyPair) := do
  let secret := Secret.ofKey key
  match ← secret.publicKeyWithRepresentative tweak with
  | (publicKey, .ok representative) => return .ok ⟨⟨secret, publicKey⟩, representative⟩
  | (_, .error rejection) => return .error rejection

@[specialize] def ofOctets (octets : List UInt8) (tweak : UInt8) :
    m (Except Rejection HiddenKeyPair) := do
  match KeyKind.privateKey.read octets with
  | .error rejection => return .error rejection
  | .ok key => ofKey key tweak

/-- The key with one added to its lowest octet, without a carry. -/
def nextKey (key : Bytes32) : Bytes32 := key.modify 0 (· + 1)

structure Search where
  rejections : List Rejection
  result : Except Rejection (Bytes32 × HiddenKeyPair)

def Search.tries (search : Search) : Nat :=
  match search.result with
  | .ok _ => search.rejections.length + 1
  | .error _ => search.rejections.length

/-- The first key with a representative, from the one given on, within so many keys more. -/
@[specialize] def search (tweak : UInt8) : (more : Nat) → (key : Bytes32) → m Search
  | more, key => do
      match ← ofKey key tweak with
      | .ok pair => return ⟨[], .ok (key, pair)⟩
      | .error rejection =>
          match more with
          | 0 => return ⟨[rejection], .error rejection⟩
          | more + 1 => do
              let rest ← search tweak more (nextKey key)
              return ⟨rejection :: rest.rejections, rest.result⟩

end HiddenKeyPair
end Curve25519
