import Curve25519.Keyring.Step
import Curve25519.Proofs.Key.Agreement
import Curve25519.Proofs.Limbs.Checked

/-! No call breaks a requirement of the arithmetic.
Private keys, public keys and representatives may come in any number of octets and a multiple in any
number of bits, and a keyring may hold whatever it does: the checked run ends, as the plain run
does. -/

namespace Curve25519

theorem UPoint.mulBits_safe (point : UPoint) (bits : List Bool) :
    Safe (fun _ => point.mulBits bits) :=
  (mulBits_returns_climb point bits).safe

theorem x25519_safe (key theirs : Bytes32) : Safe (fun _ => x25519 key theirs) :=
  (x25519_returns_zero_iff key theirs).safe

namespace Secret

theorem ofKey_scalar (secret : Secret) : ofKey secret.scalar = secret := by
  obtain ⟨scalar, clamped⟩ := secret
  simp only [ofKey, clamped]

variable (secret : Secret)

theorem publicKey_safe : Safe (fun _ => secret.publicKey) := by
  rw [← secret.ofKey_scalar]
  exact (publicKey_returns secret.scalar).safe

theorem representative_safe (tweak : UInt8) : Safe (fun _ => secret.representative tweak) := by
  rw [← secret.ofKey_scalar]
  exact (representative_returns secret.scalar tweak).safe

theorem agree_safe (theirs : PublicKey) : Safe (fun _ => secret.agree theirs) := by
  rw [← secret.ofKey_scalar]
  exact (agree_returns_zero_iff secret.scalar theirs).safe

end Secret

section Octets
variable (octets : List UInt8) (tweak : UInt8)

theorem KeyPair.ofOctets_safe : Safe (fun _ => ofOctets octets) := by
  unfold ofOctets
  cases KeyKind.privateKey.read octets with
  | error rejection => exact .pure _
  | ok key => exact (Secret.ofKey key).publicKey_safe.bind fun _ => .pure _

theorem HiddenKeyPair.ofOctets_safe : Safe (fun _ => ofOctets octets tweak) := by
  unfold ofOctets
  cases KeyKind.privateKey.read octets with
  | error rejection => exact .pure _
  | ok key => exact (ofKey_returns key tweak).safe

theorem PublicKey.ofCanonicalOctets_safe : Safe (fun _ => ofCanonicalOctets octets) := by
  unfold ofCanonicalOctets
  cases KeyKind.publicKey.read octets with
  | error rejection => exact .pure _
  | ok bytes => exact (Limbs.encode_returns (.decode bytes.clearTop)).safe.bind fun _ => .pure _

theorem PublicKey.ofRepresentativeOctets_safe : Safe (fun _ => ofRepresentativeOctets octets) := by
  unfold ofRepresentativeOctets
  cases Representative.ofOctets octets with
  | error rejection => exact .pure _
  | ok representative => exact representative.toPublicKey_returns.safe

theorem HiddenKeyPair.search_safe (more : Nat) (key : Bytes32) :
    Safe (fun _ => search tweak more key) := by
  induction more generalizing key with
  | zero =>
    unfold search
    refine (ofKey_returns key tweak).safe.bind fun outcome => ?_
    cases outcome with
    | ok pair => exact .pure _
    | error rejection => exact .pure _
  | succ more ih =>
    unfold search
    refine (ofKey_returns key tweak).safe.bind fun outcome => ?_
    cases outcome with
    | ok pair => exact .pure _
    | error rejection => exact (ih (nextKey key)).bind fun rest => .pure _

end Octets

/-- The arithmetic is safe just where no limb is too large for it and no word wraps, and all calls
are safe. -/
theorem arithmetic_safe :
    ((∀ x y, Safe (fun _ => Word.add x y) ↔ x.toNat + y.toNat < 2 ^ 64) ∧
      (∀ x y, Safe (fun _ => Word.sub x y) ↔ y.toNat ≤ x.toNat) ∧
      (∀ x y, Safe (fun _ => Word.mul x y) ↔ x.toNat * y.toNat < 2 ^ 64) ∧
      ∀ sum, Safe (fun _ => DoubleWord.ofSum sum) ↔ sum < 2 ^ 128) ∧
    ((∀ a b, Safe (fun _ => Limbs.add a b) ↔ Limbs.SumsFit a b) ∧
      (∀ a b, Safe (fun _ => Limbs.sub a b) ↔
        b.AtMost Limbs.sixteenPrimes ∧ Limbs.SumsFit a Limbs.sixteenPrimes) ∧
      (∀ a, Safe (fun _ => Limbs.neg a) ↔ a.AtMost Limbs.sixteenPrimes) ∧
      (∀ a b, Safe (fun _ => Limbs.mul a b) ↔ a.Below (2 ^ 54) ∧ b.Below (2 ^ 54)) ∧
      (∀ a, Safe (fun _ => Limbs.square a) ↔ a.Below (2 ^ 54)) ∧
      (∀ a, Safe (fun _ => Limbs.twiceSquare a) ↔ a.Below (2 ^ 54)) ∧
      ∀ a count, Safe (fun _ => Limbs.squareTimes a count) ↔ 0 < count ∧ a.Below (2 ^ 54)) ∧
    (∀ octets, Safe (fun _ => KeyPair.ofOctets octets)) ∧
    (∀ octets tweak, Safe (fun _ => HiddenKeyPair.ofOctets octets tweak)) ∧
    (∀ octets, Safe (fun _ => PublicKey.ofRepresentativeOctets octets)) ∧
    (∀ octets, Safe (fun _ => PublicKey.ofCanonicalOctets octets)) ∧
    (∀ (secret : Secret) theirs, Safe (fun _ => secret.agree theirs)) ∧
    (∀ key theirs, Safe (fun _ => x25519 key theirs)) ∧
    ∀ (point : UPoint) bits, Safe (fun _ => point.mulBits bits) :=
  ⟨⟨Word.add_safe_iff, Word.sub_safe_iff, Word.mul_safe_iff, DoubleWord.ofSum_safe_iff⟩,
    ⟨Limbs.add_safe_iff, Limbs.sub_safe_iff, Limbs.neg_safe_iff, Limbs.mul_safe_iff,
      Limbs.square_safe_iff, Limbs.twiceSquare_safe_iff, Limbs.squareTimes_safe_iff⟩,
    KeyPair.ofOctets_safe, HiddenKeyPair.ofOctets_safe, PublicKey.ofRepresentativeOctets_safe,
    PublicKey.ofCanonicalOctets_safe, Secret.agree_safe, x25519_safe, UPoint.mulBits_safe⟩

namespace Keyring
variable (ring : Keyring)

theorem withName_safe {α : Type} (table : NameTable α) (name : String)
    {outcome : α → Procedure Outcome} (safe : ∀ value, Safe (outcome value)) :
    Safe (fun m => ring.withName table name fun value => outcome value m) := by
  unfold withName
  cases table.get? name with
  | none => exact .pure _
  | some value => exact safe value

theorem convert_safe {α : Type} (table : NameTable α) (name : String)
    (keep : α → Keyring × Answer) : Safe (fun _ => ring.convert table name keep) :=
  ring.withName_safe table name fun _ => .pure _

theorem compare_safe {α : Type} (table : NameTable α) (a b : String)
    {equal : α → α → Procedure Bool} (safe : ∀ x y, Safe (equal x y)) :
    Safe (fun m => ring.compare table a b fun x y => equal x y m) :=
  ring.withName_safe table a fun x => ring.withName_safe table b fun y =>
    (safe x y).bind fun _ => .pure _

theorem step_safe (step : Step) : Safe (fun _ => ring.step step) := by
  cases step with
  | secret key target => exact .pure _
  | keyPair key target => exact (KeyPair.ofOctets_safe key).bind fun _ => .pure _
  | hiddenKeyPair key tweak target =>
    exact (HiddenKeyPair.ofOctets_safe key tweak).bind fun _ => .pure _
  | search key tweak more target =>
    refine (HiddenKeyPair.search_safe tweak more key).bind fun search => ?_
    cases search.result with
    | ok found => exact .pure _
    | error rejection => exact .pure _
  | publicKey secret target =>
    exact ring.withName_safe _ _ fun secret => secret.publicKey_safe.bind fun _ => .pure _
  | loadPublic octets target => exact .pure _
  | loadCanonicalPublic octets target =>
    exact (PublicKey.ofCanonicalOctets_safe octets).bind fun _ => .pure _
  | loadRepresentative octets target => exact .pure _
  | represent secret tweak target =>
    exact ring.withName_safe _ _ fun secret =>
      (secret.representative_safe tweak).bind fun _ => .pure _
  | decode representative target =>
    exact ring.withName_safe _ _ fun representative =>
      representative.toPublicKey_returns.safe.bind fun _ => .pure _
  | agree secret publicKey target =>
    exact ring.withName_safe _ _ fun secret => ring.withName_safe _ _ fun key =>
      (secret.agree_safe key).bind fun shared =>
        shared.isContributory_returns_element.safe.bind fun _ => .pure _
  | sharedAsSecret shared target => exact ring.convert_safe _ _ _
  | sharedAsPublic shared target => exact ring.convert_safe _ _ _
  | sharedAsRepresentative shared target => exact ring.convert_safe _ _ _
  | publicAsRepresentative publicKey target => exact ring.convert_safe _ _ _
  | equalPublic a b =>
    exact ring.compare_safe _ a b fun x y => (PublicKey.equal_returns x y).safe
  | equalRepresentative a b => exact ring.compare_safe _ a b fun _ _ => .pure _
  | equalShared a b => exact ring.compare_safe _ a b fun _ _ => .pure _
  | erasePublic publicKey => exact ring.convert_safe _ _ _

/-- A whole run breaks no requirement, whatever the keyring it starts from holds. -/
theorem run_safe (steps : List Step) : Safe (fun _ => ring.run steps) := by
  induction steps generalizing ring with
  | nil => exact .pure _
  | cons first rest ih =>
    unfold run
    refine (ring.step_safe first).bind fun outcome => ?_
    exact (ih outcome.keyring).bind fun _ => .pure _

end Keyring
end Curve25519
