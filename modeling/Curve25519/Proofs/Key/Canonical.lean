import Curve25519.Proofs.Key.Agreement

/-! Canonical public keys.
A peer's octets are decoded, written again and compared, which lets through just the integers below
the modulus, once bit 255 is cleared. The keys and the shared secrets that are made here are all
written from an element of the field, by whichever way it was computed, and so pass unchanged. -/

namespace Curve25519

theorem Bytes32.clearTop_eq_ofNat (bytes : Bytes32) :
    bytes.clearTop = ofNat (bytes.toNat % 2 ^ 255) := by
  apply toNat_injective
  have fits : bytes.toNat % 2 ^ 255 < 2 ^ 256 :=
    (Nat.mod_lt _ (by decide)).trans (by decide)
  rw [toNat_clearTop, toNat_ofNat_of_lt fits]

namespace PublicKey

def canonicalOutcome (octets : List UInt8) : Except Rejection PublicKey :=
  if octets.length = 32 then
    if littleEndian octets % 2 ^ 255 < prime then
      .ok (ofBytes (.ofNat (littleEndian octets % 2 ^ 255)))
    else .error .notCanonical
  else .error (.wrongLength .publicKey octets.length)

theorem ofCanonicalOctets_returns_outcome (octets : List UInt8) :
    Returns (fun _ => ofCanonicalOctets octets)
      (fun result => result = canonicalOutcome octets) := by
  by_cases length : octets.length = 32
  · obtain ⟨bytes, rfl⟩ := Bytes32.exists_toList_eq length
    apply (ofCanonicalOctets_returns bytes).mono
    intro result given
    rw [given, Bytes32.clearTop_eq_ofNat, canonicalOutcome, if_pos length]
    rfl
  · unfold ofCanonicalOctets
    rw [KeyKind.read_of_length_ne .publicKey length]
    apply Returns.pure
    rw [canonicalOutcome, if_neg length]

section Outcome
variable {octets : List UInt8}

theorem canonicalOutcome_eq_ok_iff {key : PublicKey} :
    canonicalOutcome octets = .ok key ↔ octets.length = 32 ∧
      littleEndian octets % 2 ^ 255 < prime ∧
      key = ofBytes (.ofNat (littleEndian octets % 2 ^ 255)) := by
  unfold canonicalOutcome
  split_ifs with length below
  · simp [-Nat.reducePow, length, below, eq_comm]
  · simp [-Nat.reducePow, below]
  · simp [length]

theorem canonicalOutcome_eq_wrongLength_iff :
    canonicalOutcome octets = .error (.wrongLength .publicKey octets.length) ↔
      octets.length ≠ 32 := by
  unfold canonicalOutcome
  split_ifs with length below
  · simp [length]
  · simp [length]
  · simp [length]

theorem canonicalOutcome_eq_notCanonical_iff :
    canonicalOutcome octets = .error .notCanonical ↔ octets.length = 32 ∧
      prime ≤ littleEndian octets % 2 ^ 255 := by
  unfold canonicalOutcome
  split_ifs with length below
  · simp [-Nat.reducePow, below]
  · simp [-Nat.reducePow, length, not_lt.mp below]
  · simp [length]

end Outcome

def IsCanonical (key : PublicKey) : Prop :=
  Returns (fun _ => ofCanonicalOctets key.bytes.toList) (fun result => result = .ok key)

theorem isCanonical_iff (key : PublicKey) : key.IsCanonical ↔ key.bytes.toNat < prime := by
  have given := ofCanonicalOctets_returns key.bytes
  constructor
  · intro accepted
    have same := accepted.run.symm.trans given.run
    by_cases below : key.bytes.toNat % 2 ^ 255 < prime
    · rw [if_pos below] at same
      have bytes : key.bytes = key.bytes.clearTop := congrArg PublicKey.bytes (Except.ok.inj same)
      rw [bytes, Bytes32.toNat_clearTop]
      exact below
    · rw [if_neg below] at same
      cases same
  · intro below
    have small : key.bytes.toNat < 2 ^ 255 := below.trans (by decide)
    have unchanged : key.bytes.clearTop = key.bytes := by
      apply Bytes32.toNat_injective
      rw [Bytes32.toNat_clearTop, Nat.mod_eq_of_lt small]
    rw [Nat.mod_eq_of_lt small, if_pos below, unchanged] at given
    exact given

theorem ofElement_isCanonical (x : Element) : (ofElement x).IsCanonical := by
  rw [isCanonical_iff, bytes_ofElement, toNat_encoding]
  exact ZMod.val_lt x

end PublicKey

section Made

def GivesCanonical {α : Type} (key : α → PublicKey) (result : Except Rejection α) : Prop :=
  ∀ made, result = .ok made → (key made).IsCanonical

theorem givesCanonical_error {α : Type} (key : α → PublicKey) (rejection : Rejection) :
    GivesCanonical key (.error rejection) := nofun

theorem givesCanonical_ok {α : Type} {key : α → PublicKey} {made : α} {x : Element}
    (same : key made = .ofElement x) : GivesCanonical key (.ok made) := by
  intro other equal
  cases equal
  rw [same]
  exact PublicKey.ofElement_isCanonical x

theorem KeyPair.ofOctets_givesCanonical (octets : List UInt8) :
    Returns (fun _ => ofOctets octets) (GivesCanonical KeyPair.publicKey) := by
  by_cases length : octets.length = 32
  · obtain ⟨key, rfl⟩ := Bytes32.exists_toList_eq length
    apply (ofOctets_returns key).mono
    intro result given
    rw [given]
    exact givesCanonical_ok rfl
  · unfold ofOctets
    rw [KeyKind.read_of_length_ne .privateKey length]
    exact .pure _ (givesCanonical_error _ _)

theorem HiddenKeyPair.ofOctets_givesCanonical (octets : List UInt8) (tweak : UInt8) :
    Returns (fun _ => ofOctets octets tweak)
      (GivesCanonical fun pair => pair.publicKey) := by
  by_cases length : octets.length = 32
  · obtain ⟨key, rfl⟩ := Bytes32.exists_toList_eq length
    apply (ofOctets_returns key tweak).mono
    intro result given
    obtain ⟨outcome, _, rfl⟩ := given
    cases outcome with
    | error rejection => exact givesCanonical_error _ rejection
    | ok representative => exact givesCanonical_ok rfl
  · unfold ofOctets
    rw [KeyKind.read_of_length_ne .privateKey length]
    exact .pure _ (givesCanonical_error _ _)

theorem PublicKey.ofRepresentativeOctets_givesCanonical (octets : List UInt8) :
    Returns (fun _ => ofRepresentativeOctets octets) (GivesCanonical id) := by
  by_cases length : octets.length = 32
  · obtain ⟨bytes, rfl⟩ := Bytes32.exists_toList_eq length
    apply (ofRepresentativeOctets_returns ⟨bytes⟩).mono
    intro result given
    rw [given]
    split
    · exact givesCanonical_error _ _
    · exact givesCanonical_ok rfl
  · unfold ofRepresentativeOctets Representative.ofOctets
    rw [KeyKind.read_of_length_ne .representative length]
    exact .pure _ (givesCanonical_error _ _)

theorem Secret.agree_isCanonical (secret : Secret) (theirs : PublicKey) :
    Returns (fun _ => secret.agree theirs)
      (fun shared => (PublicKey.ofBytes shared.bytes).IsCanonical) := by
  apply (secret.agree_returns_climb theirs).mono
  intro shared written
  rw [written]
  exact PublicKey.ofElement_isCanonical _

end Made

/-- Octets are accepted where they are thirty-two and their low 255 bits spell an integer below the
modulus, and as the key of this integer; the two rejections tell the two ways to fail apart. All keys
that are made here, and all shared secrets, are accepted and left unchanged. -/
theorem PublicKey.ofCanonicalOctets_exact :
    (∀ octets : List UInt8,
      let value := littleEndian octets % 2 ^ 255
      Returns (fun _ => ofCanonicalOctets octets) (fun result =>
        ((∃ key, result = .ok key) ↔ octets.length = 32 ∧ value < prime) ∧
        (∀ key, result = .ok key → key.bytes.toNat = value) ∧
        (result = .error (.wrongLength .publicKey octets.length) ↔ octets.length ≠ 32) ∧
        (result = .error .notCanonical ↔ octets.length = 32 ∧ prime ≤ value))) ∧
    (∀ octets, Returns (fun _ => KeyPair.ofOctets octets)
      (fun result => ∀ pair, result = .ok pair → pair.publicKey.IsCanonical)) ∧
    (∀ octets tweak, Returns (fun _ => HiddenKeyPair.ofOctets octets tweak)
      (fun result => ∀ pair, result = .ok pair → pair.publicKey.IsCanonical)) ∧
    (∀ octets, Returns (fun _ => ofRepresentativeOctets octets)
      (fun result => ∀ key, result = .ok key → key.IsCanonical)) ∧
    ∀ (secret : Secret) theirs, Returns (fun _ => secret.agree theirs)
      (fun shared => (ofBytes shared.bytes).IsCanonical) := by
  refine ⟨?_, KeyPair.ofOctets_givesCanonical, HiddenKeyPair.ofOctets_givesCanonical,
    ofRepresentativeOctets_givesCanonical, Secret.agree_isCanonical⟩
  intro octets value
  apply (ofCanonicalOctets_returns_outcome octets).mono
  intro result outcome
  rw [outcome, PublicKey.canonicalOutcome_eq_wrongLength_iff,
    PublicKey.canonicalOutcome_eq_notCanonical_iff]
  refine ⟨?_, ?_, Iff.rfl, Iff.rfl⟩
  · simp only [PublicKey.canonicalOutcome_eq_ok_iff, exists_and_left, exists_eq, and_true]
    rfl
  · intro key accepted
    obtain ⟨_, _, rfl⟩ := PublicKey.canonicalOutcome_eq_ok_iff.mp accepted
    exact Bytes32.toNat_ofNat_of_lt ((Nat.mod_lt _ (by decide)).trans (by decide))

theorem PublicKey.ofCanonicalOctets_exact_modulus :
    (∃ key, Id.run (ofCanonicalOctets (Bytes32.ofNat (prime - 1 + 2 ^ 255)).toList) = .ok key ∧
      key.bytes.toNat = prime - 1) ∧
    Id.run (ofCanonicalOctets (Bytes32.ofNat (prime + 2 ^ 255)).toList) = .error .notCanonical ∧
    Id.run (ofCanonicalOctets [9]) = .error (.wrongLength .publicKey 1) ∧
    ∃ pair, Id.run (HiddenKeyPair.ofOctets doublingKey.toList 0x80) = .ok pair ∧
      pair.publicKey.IsCanonical := by
  obtain ⟨outcome, _, hidden, _⟩ := ofCanonicalOctets_exact
  have below : (Bytes32.ofNat (prime - 1 + 2 ^ 255)).toNat % 2 ^ 255 = prime - 1 := by
    rw [Bytes32.toNat_ofNat_of_lt (by decide)]
    decide
  have above : (Bytes32.ofNat (prime + 2 ^ 255)).toNat % 2 ^ 255 = prime := by
    rw [Bytes32.toNat_ofNat_of_lt (by decide)]
    decide
  have square := encodability_double_isSquare
  rw [← clamped_doublingKey] at square
  obtain ⟨pair, made⟩ := HiddenKeyPair.exists_of_isSquare doublingKey 0x80 square
  obtain ⟨accepted, value, _⟩ := (outcome (Bytes32.ofNat (prime - 1 + 2 ^ 255)).toList).run
  obtain ⟨key, read⟩ := accepted.mpr ⟨Vector.length_toList, below.trans_lt (by decide)⟩
  refine ⟨⟨key, read, (value key read).trans below⟩, ?_, ?_, pair, made,
    (hidden doublingKey.toList 0x80).run pair made⟩
  · apply (outcome (Bytes32.ofNat (prime + 2 ^ 255)).toList).run.2.2.2.mpr
    exact ⟨Vector.length_toList, above.ge⟩
  · exact (outcome [9]).run.2.2.1.mpr (by decide)

end Curve25519
