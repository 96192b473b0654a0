import Curve25519.Keyring

/-! Steps on a keyring.
A step reads names, stores what it makes under a name, and answers with it. A step that is
refused, because a name is unknown or a key is rejected, stores nothing. -/

namespace Curve25519.Keyring

/-- A step gives the octets or the names that it reads and, last, the name that it stores
under. A search tries so many keys more than the one given; the name of an erased key stays, with
zero octets. -/
inductive Step
  | secret (key : Bytes32) (target : String)
  | keyPair (key : List UInt8) (target : String)
  | hiddenKeyPair (key : List UInt8) (tweak : UInt8) (target : String)
  | search (key : Bytes32) (tweak : UInt8) (more : Nat) (target : String)
  | publicKey (secret target : String)
  | loadPublic (octets : List UInt8) (target : String)
  | loadCanonicalPublic (octets : List UInt8) (target : String)
  | loadRepresentative (octets : List UInt8) (target : String)
  | represent (secret : String) (tweak : UInt8) (target : String)
  | decode (representative target : String)
  | agree (secret publicKey target : String)
  | sharedAsSecret (shared target : String)
  | sharedAsPublic (shared target : String)
  | sharedAsRepresentative (shared target : String)
  | publicAsRepresentative (publicKey target : String)
  | equalPublic (a b : String)
  | equalRepresentative (a b : String)
  | equalShared (a b : String)
  | erasePublic (publicKey : String)

inductive Answer
  | secret (secret : Secret)
  | keyPair (pair : KeyPair)
  | hiddenKeyPair (pair : HiddenKeyPair)
  | found (key : Bytes32) (tries : Nat) (pair : HiddenKeyPair)
  | publicKey (key : PublicKey)
  | representative (representative : Representative)
  | shared (shared : SharedSecret) (contributory : Bool)
  | equality (equal : Bool)

inductive Refusal
  | unknownName
  | rejected (rejection : Rejection)

structure Outcome where
  keyring : Keyring
  answer : Except Refusal Answer
  rejections : List Rejection

def refuse (ring : Keyring) (refusal : Refusal) (rejections : List Rejection) : Outcome :=
  ⟨ring, .error refusal, rejections⟩

def unknownName (ring : Keyring) : Outcome := ring.refuse .unknownName []

def settle {α : Type} (ring : Keyring) (result : Except Rejection α)
    (keep : α → Keyring × Answer) : Outcome :=
  match result with
  | .error rejection => ring.refuse (.rejected rejection) [rejection]
  | .ok value =>
      let (ring, answer) := keep value
      ⟨ring, .ok answer, []⟩

variable {m : Type → Type} [Monad m] [MonadRequire m]

@[specialize] def withName {α : Type} (ring : Keyring) (table : NameTable α) (name : String)
    (outcome : α → m Outcome) : m Outcome :=
  match table.get? name with
  | some value => outcome value
  | none => return ring.unknownName

@[specialize] def convert {α : Type} (ring : Keyring) (table : NameTable α) (name : String)
    (keep : α → Keyring × Answer) : m Outcome :=
  ring.withName table name fun value => return ring.settle (.ok value) keep

@[specialize] def compare {α : Type} (ring : Keyring) (table : NameTable α) (a b : String)
    (equal : α → α → m Bool) : m Outcome :=
  ring.withName table a fun first => ring.withName table b fun second => do
    return ⟨ring, .ok (.equality (← equal first second)), []⟩

@[specialize] def step (ring : Keyring) : Step → m Outcome
  | .secret key target =>
      let secret := Secret.ofKey key
      return ⟨ring.putSecret target secret, .ok (.secret secret), []⟩
  | .keyPair key target => do
      return ring.settle (← KeyPair.ofOctets key) fun pair =>
        (ring.putPair target pair, .keyPair pair)
  | .hiddenKeyPair key tweak target => do
      return ring.settle (← HiddenKeyPair.ofOctets key tweak) fun pair =>
        (ring.putHidden target pair, .hiddenKeyPair pair)
  | .search key tweak more target => do
      let search ← HiddenKeyPair.search tweak more key
      match search.result with
      | .ok (found, pair) =>
          return ⟨ring.putHidden target pair, .ok (.found found search.tries pair),
            search.rejections⟩
      | .error rejection => return ring.refuse (.rejected rejection) search.rejections
  | .publicKey secret target =>
      ring.withName ring.secrets secret fun secret => do
        let key ← secret.publicKey
        return ⟨ring.putPublic target key, .ok (.publicKey key), []⟩
  | .loadPublic octets target =>
      return ring.settle (PublicKey.ofOctets octets) fun key =>
        (ring.putPublic target key, .publicKey key)
  | .loadCanonicalPublic octets target => do
      return ring.settle (← PublicKey.ofCanonicalOctets octets) fun key =>
        (ring.putPublic target key, .publicKey key)
  | .loadRepresentative octets target =>
      return ring.settle (Representative.ofOctets octets) fun representative =>
        (ring.putRepresentative target representative, .representative representative)
  | .represent secret tweak target =>
      ring.withName ring.secrets secret fun secret => do
        return ring.settle (← secret.representative tweak) fun representative =>
          (ring.putRepresentative target representative, .representative representative)
  | .decode representative target =>
      ring.withName ring.representatives representative fun representative => do
        return ring.settle (← representative.toPublicKey) fun key =>
          (ring.putPublic target key, .publicKey key)
  | .agree secret publicKey target =>
      ring.withName ring.secrets secret fun secret =>
        ring.withName ring.publics publicKey fun key => do
          let shared ← secret.agree key
          let answer := Answer.shared shared (← shared.isContributory)
          return ⟨ring.putShared target shared, .ok answer, []⟩
  | .sharedAsSecret shared target =>
      ring.convert ring.shareds shared fun shared =>
        let secret := Secret.ofKey shared.bytes
        (ring.putSecret target secret, .secret secret)
  | .sharedAsPublic shared target =>
      ring.convert ring.shareds shared fun shared =>
        let key := PublicKey.ofBytes shared.bytes
        (ring.putPublic target key, .publicKey key)
  | .sharedAsRepresentative shared target =>
      ring.convert ring.shareds shared fun shared =>
        let representative : Representative := ⟨shared.bytes⟩
        (ring.putRepresentative target representative, .representative representative)
  | .publicAsRepresentative key target =>
      ring.convert ring.publics key fun key =>
        let representative : Representative := ⟨key.bytes⟩
        (ring.putRepresentative target representative, .representative representative)
  | .equalPublic a b => ring.compare ring.publics a b PublicKey.equal
  | .equalRepresentative a b => ring.compare ring.representatives a b fun x y => return x == y
  | .equalShared a b => ring.compare ring.shareds a b fun x y => return x.bytes == y.bytes
  | .erasePublic key =>
      ring.convert ring.publics key fun _ =>
        let erased := PublicKey.ofBytes Bytes32.zero
        (ring.putPublic key erased, .publicKey erased)

@[specialize] def run (ring : Keyring) : List Step → m (List Outcome)
  | [] => return []
  | first :: rest => do
      let outcome ← ring.step first
      return outcome :: (← outcome.keyring.run rest)

end Curve25519.Keyring
