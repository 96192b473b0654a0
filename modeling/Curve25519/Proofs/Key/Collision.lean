import Curve25519.Proofs.Key.Agreement
import Curve25519.Proofs.Representative.Fiber

/-! Which octets lead to the same keys.
Two representatives are decoded to the same public key where their elements lead to the same
coordinate, that is in classes of four. Two private keys have the same public key where their clamped
integers are equal or add up to eight times the order of the base point, as the points are opposite
then; the representatives tell these two apart, because they depend on the sign of v. -/

namespace Curve25519
open Montgomery (u v)
open Curve (basePoint)
open Representative (image encodability StandsFor IsRepresentative)

section Decoding

theorem PublicKey.ofRepresentativeOctets_eq_ok_iff (octets : Bytes32) (key : PublicKey) :
    Id.run (ofRepresentativeOctets octets.toList) = .ok key ↔
      encoding (image (Representative.element ⟨octets⟩)) ∉ Curve.smallOrder ∧
        key = .ofElement (image (Representative.element ⟨octets⟩)) := by
  rw [(ofRepresentativeOctets_returns ⟨octets⟩).run]
  by_cases listed : encoding (image (Representative.element ⟨octets⟩)) ∈ Curve.smallOrder
  · simp [listed]
  · simp [listed, PublicKey.ofElement, eq_comm]

theorem PublicKey.ofRepresentativeOctets_of_image {octets : Bytes32} {x : Element}
    (leads : image (Representative.element ⟨octets⟩) = x)
    (free : encoding x ∉ Curve.smallOrder) :
    Id.run (ofRepresentativeOctets octets.toList) = .ok (.ofElement x) := by
  rw [ofRepresentativeOctets_eq_ok_iff, leads]
  exact ⟨free, rfl⟩

theorem Representative.ne_zero_of_not_mem {r : Element}
    (free : encoding (image r) ∉ Curve.smallOrder) : r ≠ 0 := by
  rintro rfl
  apply free
  rw [image_zero, Curve.encoding_mem_smallOrder_iff]
  exact .inl rfl

theorem PublicKey.setOf_decoded_eq_fiber {r : Element}
    (free : encoding (image r) ∉ Curve.smallOrder) :
    {x : Element | ∃ octets : Bytes32, ((octets.toNat % 2 ^ 255 : Nat) : Element) = x ∧
      Id.run (ofRepresentativeOctets octets.toList) = .ok (.ofElement (image r))} =
        {s | image s = image r} := by
  ext x
  constructor
  · rintro ⟨octets, rfl, decoded⟩
    obtain ⟨_, same⟩ := (ofRepresentativeOctets_eq_ok_iff octets _).mp decoded
    exact (ofElement_injective same).symm
  · intro same
    have element : Representative.element ⟨encoding x⟩ = x := UPoint.element_encoding x
    refine ⟨encoding x, element, ofRepresentativeOctets_of_image ?_ free⟩
    rw [element]
    exact same

/-- Decoding sees the element alone, and two representatives that are accepted have the same public
key just where r and s are equal or opposite or half of each other's inverses up to the sign. So each
key that is given out comes from four elements. -/
theorem PublicKey.equal_ofRepresentativeOctets_iff (first second : Bytes32) :
    let value (octets : Bytes32) : Element := (octets.toNat % 2 ^ 255 : Nat)
    let decoded (octets : Bytes32) := Id.run (ofRepresentativeOctets octets.toList)
    let r := value first
    let s := value second
    let related := s = r ∨ s = -r ∨ 2 * r * s = 1 ∨ 2 * r * s = -1
    (s = r → decoded second = decoded first) ∧
      ∀ key key', decoded first = .ok key → decoded second = .ok key' →
        (Id.run (key.equal key') = true ↔ related) ∧ (key.bytes = key'.bytes ↔ related) ∧
          {x | ∃ octets, value octets = x ∧ decoded octets = .ok key}.ncard = 4 := by
  intro value decoded r s related
  constructor
  · intro same
    have element : Representative.element ⟨second⟩ = Representative.element ⟨first⟩ := same
    have one := (ofRepresentativeOctets_returns ⟨first⟩).run
    have other := (ofRepresentativeOctets_returns ⟨second⟩).run
    rw [element] at other
    exact other.trans one.symm
  · intro key key' accepted accepted'
    obtain ⟨free, rfl⟩ := (ofRepresentativeOctets_eq_ok_iff first key).mp accepted
    obtain ⟨_, rfl⟩ := (ofRepresentativeOctets_eq_ok_iff second key').mp accepted'
    change encoding (image r) ∉ Curve.smallOrder at free
    have classes : image r = image s ↔ related :=
      eq_comm.trans (Representative.image_eq_image_iff r s)
    have inverse : 2 * r * (2 * r)⁻¹ = 1 :=
      mul_inv_cancel₀ (mul_ne_zero two_ne_zero (Representative.ne_zero_of_not_mem free))
    refine ⟨(equal_ofElement_iff _ _).trans classes, bytes_ofElement_inj.trans classes, ?_⟩
    rw [← Representative.ncard_fiber_image inverse, ← setOf_decoded_eq_fiber free]
    rfl

theorem PublicKey.equal_ofRepresentativeOctets_one :
    ∃ key key',
      Id.run (ofRepresentativeOctets (Bytes32.ofNat (prime + 1 + 2 ^ 255)).toList) = .ok key ∧
      Id.run (ofRepresentativeOctets (Bytes32.ofNat ((prime - 1) / 2)).toList) = .ok key' ∧
      Id.run (key.equal key') = true := by
  have one : Representative.element ⟨.ofNat (prime + 1 + 2 ^ 255)⟩ = 1 := by
    rw [Representative.element, Bytes32.toNat_ofNat_of_lt (by decide)]
    decide +kernel
  have product : 2 * Representative.element ⟨.ofNat (prime + 1 + 2 ^ 255)⟩ *
      Representative.element ⟨.ofNat ((prime - 1) / 2)⟩ = -1 := by
    rw [one, Representative.element, Bytes32.toNat_ofNat_of_lt (by decide)]
    decide +kernel
  have free : encoding (image 1) ∉ Curve.smallOrder := by
    rw [image, if_pos Representative.cubic_ratio_one_isSquare, Representative.ratio_one,
      Curve.encoding_mem_smallOrder_iff]
    decide +kernel
  have same := (Representative.image_eq_image_iff _ _).mpr (.inr (.inr (.inr product)))
  rw [one] at same
  have accepted := ofRepresentativeOctets_of_image (congrArg image one) free
  have accepted' := ofRepresentativeOctets_of_image same free
  obtain ⟨_, all⟩ := equal_ofRepresentativeOctets_iff (.ofNat (prime + 1 + 2 ^ 255))
    (.ofNat ((prime - 1) / 2))
  have equal := (all _ _ accepted accepted').1
  exact ⟨_, _, accepted, accepted', equal.mpr (.inr (.inr (.inr product)))⟩

end Decoding

section Derivation

/-- An element represents one point only: of two opposite points it would stand for the same
coordinate with both signs of v. -/
theorem Representative.IsRepresentative.point_unique {P Q : Curve.montgomery.Point} {r : Nat}
    (first : IsRepresentative P r) (second : IsRepresentative Q r)
    (nonzero : encodability (u P) ≠ 0) (nonzero' : encodability (u Q) ≠ 0)
    (square : IsSquare (encodability (u P))) (square' : IsSquare (encodability (u Q))) : P = Q := by
  obtain ⟨_, _, stands⟩ := (isRepresentative_iff P r).mp first
  obtain ⟨_, _, stands'⟩ := (isRepresentative_iff Q r).mp second
  have leads := stands.image nonzero square (cubic_u_isSquare P)
  have leads' := stands'.image nonzero' square' (cubic_u_isSquare Q)
  have coordinate := (ne_zero_of_encodability nonzero).1
  have coordinate' := (ne_zero_of_encodability nonzero').1
  have point {R : Curve.montgomery.Point} (nonzero : u R ≠ 0) : R ≠ 0 := by
    rintro rfl
    exact nonzero Montgomery.u_zero
  rcases (Montgomery.u_eq_iff (point coordinate) (point coordinate')).mp
    (leads.symm.trans leads') with equal | opposite
  · exact equal
  · have sign : v Q ≠ 0 := by
      intro zero
      apply coordinate'
      exact (Montgomery.v_eq_zero_iff (M := Curve.montgomery) Curve.quadratic_ne_zero Q).mp zero
    rw [opposite, Montgomery.u_neg, Montgomery.v_neg, high_neg sign] at stands
    exact absurd (stands'.product_sq nonzero' stands) (two_mul_mul_self_sq_ne_one _)

theorem HiddenKeyPair.outcome_of_accepted {key : Bytes32} {tweak : UInt8} {pair : HiddenKeyPair}
    (accepted : Id.run (ofOctets key.toList tweak) = .ok pair) :
    RepresentativeOutcome key tweak (.ok pair.representative) := by
  obtain ⟨outcome, given, same⟩ := (ofOctets_returns key tweak).run
  rw [accepted] at same
  cases outcome with
  | error rejection => cases same
  | ok representative =>
    cases same
    exact given

/-- Two private keys have the same public key just where their clamped integers are equal or add up to
eight times the order of the base point. Where both have representatives, these agree below bit 255
just where the integers are equal. -/
theorem KeyPair.ofOctets_collision_iff (a b : Bytes32) :
    let m := Scalar.clampedNat a
    let n := Scalar.clampedNat b
    let opposed := m + n = 8 * basePointOrder
    (∃ first second, Id.run (ofOctets a.toList) = .ok first ∧
      Id.run (ofOctets b.toList) = .ok second ∧
      (Id.run (first.publicKey.equal second.publicKey) = true ↔ m = n ∨ opposed) ∧
      (first.publicKey.bytes = second.publicKey.bytes ↔ m = n ∨ opposed)) ∧
    ∀ tweak tweak' first second,
      Id.run (HiddenKeyPair.ofOctets a.toList tweak) = .ok first →
      Id.run (HiddenKeyPair.ofOctets b.toList tweak') = .ok second →
      ((∀ index < 255, first.representative.bytes.bit index =
        second.representative.bytes.bit index) ↔ m = n) := by
  intro m n opposed
  have classes := Curve.u_clamped_eq_iff a b
  constructor
  · refine ⟨_, _, (ofOctets_returns a).run, (ofOctets_returns b).run, ?_, ?_⟩
    · exact (PublicKey.equal_ofElement_iff _ _).trans classes
    · exact PublicKey.bytes_ofElement_inj.trans classes
  · intro tweak tweak' first second accepted accepted'
    have given := HiddenKeyPair.outcome_of_accepted accepted
    have given' := HiddenKeyPair.outcome_of_accepted accepted'
    have own := (given.isRepresentative_iff rfl _).mpr rfl
    rw [Bytes32.forall_bit_eq_iff]
    constructor
    · intro same
      have other := (given'.isRepresentative_iff rfl _).mpr same
      apply (Curve.clamped_nsmul_eq_iff a b).mp
      exact own.point_unique other (encodability_clamped_ne_zero a)
        (encodability_clamped_ne_zero b) (given.isSquare rfl) (given'.isSquare rfl)
    · intro same
      rw [(Curve.clamped_nsmul_eq_iff a b).mpr same] at own
      exact (given'.isRepresentative_iff rfl _).mp own

def upperKey : Bytes32 := .ofNat (4 * basePointOrder + 4)

def lowerKey : Bytes32 := .ofNat (4 * basePointOrder - 4)

theorem clampedNat_upperKey : Scalar.clampedNat upperKey = 4 * basePointOrder + 4 :=
  Scalar.clampedNat_ofNat (by decide) (by decide) (by decide)

theorem clampedNat_lowerKey : Scalar.clampedNat lowerKey = 4 * basePointOrder - 4 :=
  Scalar.clampedNat_ofNat (by decide) (by decide) (by decide)

theorem clamped_upperKey_add_lowerKey :
    Scalar.clampedNat upperKey + Scalar.clampedNat lowerKey = 8 * basePointOrder := by
  rw [clampedNat_upperKey, clampedNat_lowerKey]
  decide

theorem clamped_upperKey : Scalar.clampedNat upperKey • basePoint = 2 • 2 • basePoint := by
  rw [clampedNat_upperKey, add_nsmul, mul_nsmul', Curve.basePointOrder_nsmul, nsmul_zero, zero_add,
    ← mul_nsmul]

theorem u_clamped_upperKey : u (Scalar.clampedNat upperKey • basePoint) =
    55094879196667521951171181671895976763495004283458921215716618814842818532335 := by
  rw [clamped_upperKey]
  exact u_two_nsmul_of_law u_two_nsmul_basePoint (by decide +kernel) (by decide +kernel)

theorem encodability_upperKey_isSquare :
    IsSquare (encodability (u (Scalar.clampedNat upperKey • basePoint))) := by
  rw [u_clamped_upperKey]
  exact ⟨22796236143744521618849207489627552108421066742967348090753669528881884578160,
    by decide +kernel⟩

theorem KeyPair.ofOctets_collision_opposed :
    (∃ first second, Id.run (ofOctets upperKey.toList) = .ok first ∧
      Id.run (ofOctets lowerKey.toList) = .ok second ∧
      Id.run (first.publicKey.equal second.publicKey) = true) ∧
    ∃ first second, Id.run (HiddenKeyPair.ofOctets upperKey.toList 0) = .ok first ∧
      Id.run (HiddenKeyPair.ofOctets lowerKey.toList 0x80) = .ok second ∧
      ¬∀ index < 255, first.representative.bytes.bit index =
        second.representative.bytes.bit index := by
  have opposed := clamped_upperKey_add_lowerKey
  have square := encodability_upperKey_isSquare
  have square' := square
  rw [(Curve.u_clamped_eq_iff upperKey lowerKey).mpr (.inr opposed)] at square'
  have distinct : Scalar.clampedNat upperKey ≠ Scalar.clampedNat lowerKey := by
    rw [clampedNat_upperKey, clampedNat_lowerKey]
    decide
  obtain ⟨⟨first, second, derived, derived', same, _⟩, representatives⟩ :=
    ofOctets_collision_iff upperKey lowerKey
  obtain ⟨pair, accepted⟩ := HiddenKeyPair.exists_of_isSquare upperKey 0 square
  obtain ⟨pair', accepted'⟩ := HiddenKeyPair.exists_of_isSquare lowerKey 0x80 square'
  refine ⟨⟨first, second, derived, derived', same.mpr (.inr opposed)⟩,
    pair, pair', accepted, accepted', ?_⟩
  rw [representatives 0 0x80 pair pair' accepted accepted']
  exact distinct

end Derivation

end Curve25519
