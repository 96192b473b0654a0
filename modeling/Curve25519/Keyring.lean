import Curve25519.Key.Pair
import Curve25519.NameTable

/-! A keyring keeps secrets, public keys, representatives and shared secrets by name. Each kind
has names of its own. -/

namespace Curve25519

structure Keyring where
  secrets : NameTable Secret
  publics : NameTable PublicKey
  representatives : NameTable Representative
  shareds : NameTable SharedSecret

namespace Keyring

def empty : Keyring := ⟨.empty, .empty, .empty, .empty⟩

def putSecret (ring : Keyring) (name : String) (secret : Secret) : Keyring :=
  { ring with secrets := ring.secrets.put name secret }

def putPublic (ring : Keyring) (name : String) (key : PublicKey) : Keyring :=
  { ring with publics := ring.publics.put name key }

def putRepresentative (ring : Keyring) (name : String) (representative : Representative) :
    Keyring :=
  { ring with representatives := ring.representatives.put name representative }

def putShared (ring : Keyring) (name : String) (shared : SharedSecret) : Keyring :=
  { ring with shareds := ring.shareds.put name shared }

def putPair (ring : Keyring) (name : String) (pair : KeyPair) : Keyring :=
  (ring.putSecret name pair.secret).putPublic name pair.publicKey

def putHidden (ring : Keyring) (name : String) (pair : HiddenKeyPair) : Keyring :=
  (ring.putPair name pair.toKeyPair).putRepresentative name pair.representative

end Keyring
end Curve25519
