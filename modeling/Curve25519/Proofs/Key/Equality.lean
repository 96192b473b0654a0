import Curve25519.Proofs.Key.Agreement

/-! Equality of public keys.
A key keeps the octets that it came in, and each use of it decodes them anew. What all uses see is the
coordinate: keys are equal where their low 255 bits agree modulo p, which is where their hashes take
in the same octets, and equal keys have the same multiples and share the same secrets. -/

namespace Curve25519

section Coordinates
variable {a b : UPoint}

namespace UPoint

theorem equal_iff : Id.run (equal a b) = true ↔ a.element = b.element := by
  rw [(equal_returns a b).run, decide_eq_true_iff]

theorem hashInput_eq_iff : Id.run a.hashInput = Id.run b.hashInput ↔ a.element = b.element := by
  rw [a.hashInput_returns.run, b.hashInput_returns.run, encoding_injective.eq_iff]

theorem isNeutral_eq_of_element_eq (same : a.element = b.element) :
    Id.run a.isNeutral = Id.run b.isNeutral := by
  rw [a.isNeutral_returns.run, b.isNeutral_returns.run, same]

end UPoint

theorem Secret.agree_eq_of_element_eq (secret : Secret) (same : a.element = b.element) :
    Id.run (secret.agree ⟨a⟩) = Id.run (secret.agree ⟨b⟩) := by
  rw [(secret.agree_returns_climb ⟨a⟩).run, (secret.agree_returns_climb ⟨b⟩).run, same]

end Coordinates

/-- Keys, and points, are equal just where their low 255 bits agree modulo p, and just where their
hashes take in the same octets. Nothing that a key is used for tells equal ones apart. -/
theorem PublicKey.equal_iff_modEq (a b : Bytes32) :
    let first := PublicKey.ofBytes a
    let second := PublicKey.ofBytes b
    let congruent := a.toNat % 2 ^ 255 ≡ b.toNat % 2 ^ 255 [MOD prime]
    (Id.run (first.equal second) = true ↔ congruent) ∧
    (Id.run (UPoint.equal ⟨a⟩ ⟨b⟩) = true ↔ congruent) ∧
    (Id.run first.hashInput = Id.run second.hashInput ↔ congruent) ∧
    (Id.run (UPoint.hashInput ⟨a⟩) = Id.run (UPoint.hashInput ⟨b⟩) ↔ congruent) ∧
    (congruent →
      Id.run (UPoint.isNeutral ⟨a⟩) = Id.run (UPoint.isNeutral ⟨b⟩) ∧
      (∀ bits, (Id.run (UPoint.mulBits ⟨a⟩ bits)).bytes =
        (Id.run (UPoint.mulBits ⟨b⟩ bits)).bytes) ∧
      ∀ secret : Secret,
        let shared := Id.run (secret.agree first)
        let shared' := Id.run (secret.agree second)
        shared.bytes = shared'.bytes ∧
          Id.run shared.isContributory = Id.run shared'.isContributory) := by
  intro first second congruent
  have coordinate : UPoint.element ⟨a⟩ = UPoint.element ⟨b⟩ ↔ congruent :=
    UPoint.element_eq_iff ⟨a⟩ ⟨b⟩
  have equal := UPoint.equal_iff.trans coordinate
  have hashed := UPoint.hashInput_eq_iff.trans coordinate
  refine ⟨equal, equal, hashed, hashed, ?_⟩
  intro holds
  have same := coordinate.mpr holds
  refine ⟨UPoint.isNeutral_eq_of_element_eq same, ?_, ?_⟩
  · intro bits
    rw [UPoint.mulBits_eq_of_element_eq same]
  · intro secret shared shared'
    have agreed : shared = shared' := secret.agree_eq_of_element_eq same
    rw [agreed]
    exact ⟨rfl, rfl⟩

/-- All bits set spell eighteen above the modulus and bit 255 besides, which is equal to eighteen. -/
theorem PublicKey.equal_iff_modEq_eighteen :
    let a := Bytes32.ofNat 18
    let b := Bytes32.ofNat (2 ^ 256 - 1)
    let secret := Secret.ofKey Bytes32.zero
    a.toNat % 2 ^ 255 ≡ b.toNat % 2 ^ 255 [MOD prime] ∧
      Id.run ((ofBytes a).equal (ofBytes b)) = true ∧
      Id.run (ofBytes a).hashInput = Id.run (ofBytes b).hashInput ∧
      (Id.run (secret.agree (ofBytes a))).bytes = (Id.run (secret.agree (ofBytes b))).bytes := by
  intro a b secret
  have congruent : a.toNat % 2 ^ 255 ≡ b.toNat % 2 ^ 255 [MOD prime] := by
    rw [Bytes32.toNat_ofNat_of_lt (by decide), Bytes32.toNat_ofNat_of_lt (by decide)]
    decide
  obtain ⟨equal, _, hashed, _, uses⟩ := equal_iff_modEq a b
  obtain ⟨_, _, agreed⟩ := uses congruent
  exact ⟨congruent, equal.mpr congruent, hashed.mpr congruent, (agreed secret).1⟩

end Curve25519
