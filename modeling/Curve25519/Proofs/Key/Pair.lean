import Curve25519.Key.Pair
import Curve25519.Proofs.Curve.SmallOrder
import Curve25519.Proofs.Key.Public
import Curve25519.Proofs.Representative.Inverse

/-! Keys and representatives of private keys.
The multiple of the base point is on the curve and of large order, so that its coordinate is neither
zero nor -A and the direct map leads back to it. The representative is that of the true sign of v
for every key: where v is lost, the zero in its place is low, and so is the v-coordinate of the
opposite of the base point. -/

namespace Curve25519
open Limbs (Denotes)
open Montgomery (u v)
open Curve (basePoint)
open Representative (encodability StandsFor)

section Multiples
variable (key : Bytes32)

theorem cubic_u_isSquare (P : Curve.montgomery.Point) : IsSquare (Curve.cubic (u P)) := by
  have point := (Curve.exists_point_iff one_ne_zero (u P)).mp ⟨P, rfl⟩
  rwa [one_mul] at point

/-- No point of the curve has the coordinate -A, as -A is not a square. -/
theorem u_add_a_ne_zero (P : Curve.montgomery.Point) : u P + Curve.a ≠ 0 := by
  intro zero
  have square := cubic_u_isSquare P
  have value : Curve.cubic (u P) = -Curve.a := by
    rw [Curve.cubic, eq_neg_of_add_eq_zero_left zero]
    ring
  rw [value, isSquare_neg_iff] at square
  exact Curve.a_not_isSquare square

theorem u_clamped_ne_zero : u (Scalar.clampedNat key • basePoint) ≠ 0 := by
  intro zero
  apply Curve.eight_nsmul_clamped_ne_zero key
  rw [show 8 = 2 * 4 from rfl, mul_nsmul, Montgomery.two_nsmul_of_u_eq_zero zero, nsmul_zero]

theorem encodability_clamped_ne_zero :
    encodability (u (Scalar.clampedNat key • basePoint)) ≠ 0 := by
  have minusTwo : (-2 : Element) ≠ 0 := neg_ne_zero.mpr two_ne_zero
  exact mul_ne_zero (mul_ne_zero minusTwo (u_clamped_ne_zero key)) (u_add_a_ne_zero _)

/-- The sign of what is returned for v is that of v, also where v is lost. -/
theorem high_of_lost_v :
    decide ((prime - 1) / 2 < (if Scalar.clampedNat key = 5 * basePointOrder - 1 then 0
        else v (Scalar.clampedNat key • basePoint)).val) =
      decide ((prime - 1) / 2 < (v (Scalar.clampedNat key • basePoint)).val) := by
  by_cases exception : Scalar.clampedNat key = 5 * basePointOrder - 1
  · rw [if_pos exception, Curve.v_clamped_of_exception key exception]
    decide +kernel
  · rw [if_neg exception]

end Multiples

noncomputable def PublicKey.ofClamped (key : Bytes32) : PublicKey :=
  ⟨⟨encoding (u (Scalar.clampedNat key • basePoint))⟩⟩

/-- The outcome is the representative of the private key's point, with the tweak's bit on top, or
the rejection where there is none. -/
structure RepresentativeOutcome (key : Bytes32) (tweak : UInt8)
    (outcome : Except Rejection Representative) : Prop where
  rejected : ¬IsSquare (encodability (u (Scalar.clampedNat key • basePoint))) →
    outcome = .error .notRepresentable
  accepted : IsSquare (encodability (u (Scalar.clampedNat key • basePoint))) →
    ∃ r, IsLow r ∧ StandsFor (u (Scalar.clampedNat key • basePoint))
      (decide ((prime - 1) / 2 < (v (Scalar.clampedNat key • basePoint)).val)) r ∧
      outcome = .ok ⟨(encoding r).addTop tweak⟩

section Procedures
variable (key : Bytes32) (tweak : UInt8)

theorem Secret.publicKey_returns :
    Returns (fun _ => (ofKey key).publicKey)
      (fun publicKey => publicKey = PublicKey.ofClamped key) := by
  unfold publicKey
  refine (UPoint.baseMultiple_returns (ofKey key).scalar).bind fun point same => ?_
  apply Returns.pure
  rw [same, ofKey, Scalar.clampedNat_clamp]
  rfl

theorem Secret.publicKeyWithRepresentative_returns :
    Returns (fun _ => (ofKey key).publicKeyWithRepresentative tweak) (fun result =>
      result.1 = PublicKey.ofClamped key ∧ RepresentativeOutcome key tweak result.2) := by
  have pair := UPoint.baseMultipleWithV_returns (ofKey key).scalar
  have clamped : Scalar.clampedNat (ofKey key).scalar = Scalar.clampedNat key :=
    Scalar.clampedNat_clamp key
  rw [clamped] at pair
  have nonzero := encodability_clamped_ne_zero key
  unfold publicKeyWithRepresentative
  apply pair.bind
  rintro ⟨point, v'⟩ ⟨first, second⟩
  dsimp only at first second
  subst first
  have coordinate := UPoint.coordinate_denotes
    ⟨encoding (u (Scalar.clampedNat key • basePoint))⟩
  rw [UPoint.element_encoding] at coordinate
  have bound : v'.Below (2 ^ 63) := second.below.mono (by decide)
  refine (Limbs.isHigh_returns v' bound).bind fun high isHigh => ?_
  rw [second.element, high_of_lost_v] at isHigh
  apply (Representative.ofPoint?_returns coordinate.element
    (Representative.admissible_of_denotes coordinate (by decide)) high tweak).bind
  rintro result ⟨absent, present⟩
  by_cases square : IsSquare (encodability (u (Scalar.clampedNat key • basePoint)))
  · obtain ⟨r, low, stands, written⟩ := present ⟨nonzero, square⟩
    rw [isHigh] at stands
    subst written
    exact .pure _ ⟨rfl, fun other => absurd square other, fun _ => ⟨r, low, stands, rfl⟩⟩
  · have missing := absent fun both => square both.2
    subst missing
    exact .pure _ ⟨rfl, fun _ => rfl, fun other => absurd other square⟩

theorem Secret.representative_returns :
    Returns (fun _ => (ofKey key).representative tweak) (RepresentativeOutcome key tweak) := by
  unfold representative
  refine (publicKeyWithRepresentative_returns key tweak).bind fun result given => ?_
  exact .pure _ given.2

theorem KeyPair.ofOctets_returns :
    Returns (fun _ => ofOctets key.toList)
      (fun result => result = .ok ⟨Secret.ofKey key, PublicKey.ofClamped key⟩) := by
  unfold ofOctets
  rw [KeyKind.read_toList]
  refine (Secret.publicKey_returns key).bind fun publicKey same => ?_
  rw [same]
  exact .pure _ rfl

theorem HiddenKeyPair.ofKey_returns :
    Returns (fun _ => ofKey key tweak) (fun result =>
      ∃ outcome, RepresentativeOutcome key tweak outcome ∧ result = outcome.map fun
        representative => ⟨⟨Secret.ofKey key, PublicKey.ofClamped key⟩, representative⟩) := by
  unfold ofKey
  apply (Secret.publicKeyWithRepresentative_returns key tweak).bind
  rintro ⟨publicKey, outcome⟩ ⟨same, given⟩
  dsimp only at same given
  subst same
  cases outcome with
  | error rejection => exact .pure _ ⟨.error rejection, given, rfl⟩
  | ok representative => exact .pure _ ⟨.ok representative, given, rfl⟩

theorem HiddenKeyPair.ofOctets_returns :
    Returns (fun _ => ofOctets key.toList tweak) (fun result =>
      ∃ outcome, RepresentativeOutcome key tweak outcome ∧ result = outcome.map fun
        representative => ⟨⟨Secret.ofKey key, PublicKey.ofClamped key⟩, representative⟩) := by
  unfold ofOctets
  rw [KeyKind.read_toList]
  exact ofKey_returns key tweak

end Procedures

namespace Representative
open Curve (a)

/-- The integer is the low representative of the point, which depends on whether v is low. -/
structure IsRepresentative (P : Curve.montgomery.Point) (r : Nat) : Prop where
  low : r ≤ (prime - 1) / 2
  of_low : (v P).val ≤ (prime - 1) / 2 → 2 * (u P + a) * (r : Element) ^ 2 = -u P
  of_high : (prime - 1) / 2 < (v P).val → 2 * u P * (r : Element) ^ 2 = -(u P + a)

theorem isRepresentative_iff (P : Curve.montgomery.Point) (r : Nat) :
    IsRepresentative P r ↔ r < prime ∧ IsLow (r : Element) ∧
      StandsFor (u P) (decide ((prime - 1) / 2 < (v P).val)) r := by
  have half : (prime - 1) / 2 < prime := by decide
  constructor
  · rintro ⟨low, of_low, of_high⟩
    have small : r < prime := by omega
    refine ⟨small, ?_, ?_⟩
    · rw [IsLow, ZMod.val_natCast_of_lt small]
      exact low
    · by_cases high : (prime - 1) / 2 < (v P).val
      · rw [decide_eq_true high]
        exact of_high high
      · rw [decide_eq_false high]
        exact of_low (not_lt.mp high)
  · rintro ⟨small, low, stands⟩
    rw [IsLow, ZMod.val_natCast_of_lt small] at low
    refine ⟨low, fun below => ?_, fun high => ?_⟩
    · rw [decide_eq_false (not_lt.mpr below)] at stands
      exact stands
    · rw [decide_eq_true high] at stands
      exact stands

end Representative

section Outcomes
open Representative (IsRepresentative)
variable {key : Bytes32} {tweak : UInt8} {outcome : Except Rejection Representative}

theorem RepresentativeOutcome.error_iff (given : RepresentativeOutcome key tweak outcome) :
    outcome = .error .notRepresentable ↔
      ¬IsSquare (encodability (u (Scalar.clampedNat key • basePoint))) := by
  constructor
  · intro rejected square
    obtain ⟨r, _, _, accepted⟩ := given.accepted square
    rw [rejected] at accepted
    cases accepted
  · exact given.rejected

theorem RepresentativeOutcome.isSquare (given : RepresentativeOutcome key tweak outcome)
    {representative : Representative} (accepted : outcome = .ok representative) :
    IsSquare (encodability (u (Scalar.clampedNat key • basePoint))) := by
  by_contra square
  rw [given.rejected square] at accepted
  cases accepted

theorem RepresentativeOutcome.isRepresentative_iff (given : RepresentativeOutcome key tweak outcome)
    {representative : Representative} (accepted : outcome = .ok representative) (r : Nat) :
    IsRepresentative (Scalar.clampedNat key • basePoint) r ↔
      r = representative.bytes.toNat % 2 ^ 255 := by
  obtain ⟨root, low, stands, written⟩ := given.accepted (given.isSquare accepted)
  have same := Except.ok.inj (accepted.symm.trans written)
  subst same
  rw [Representative.isRepresentative_iff, Representative.low_addTop_encoding]
  constructor
  · rintro ⟨small, low', stands'⟩
    have equal := stands'.unique (encodability_clamped_ne_zero key) stands low' low
    rw [← equal, ZMod.val_natCast_of_lt small]
  · rintro rfl
    have cast : ((root.val : Nat) : Element) = root := ZMod.natCast_zmod_val root
    rw [cast]
    exact ⟨ZMod.val_lt root, low, stands⟩

theorem RepresentativeOutcome.unique {other : Except Rejection Representative}
    (given : RepresentativeOutcome key tweak outcome)
    (given' : RepresentativeOutcome key tweak other) : outcome = other := by
  by_cases square : IsSquare (encodability (u (Scalar.clampedNat key • basePoint)))
  · obtain ⟨r, low, stands, written⟩ := given.accepted square
    obtain ⟨r', low', stands', written'⟩ := given'.accepted square
    rw [written, written',
      stands.unique (encodability_clamped_ne_zero key) stands' low low']
  · rw [given.rejected square, given'.rejected square]

theorem RepresentativeOutcome.decodes (given : RepresentativeOutcome key tweak outcome)
    {representative : Representative} (accepted : outcome = .ok representative) :
    Returns (fun _ => PublicKey.ofRepresentativeOctets representative.bytes.toList)
      (fun result => result = .ok (PublicKey.ofClamped key)) := by
  have square := given.isSquare accepted
  obtain ⟨root, _, stands, written⟩ := given.accepted square
  have same := Except.ok.inj (accepted.symm.trans written)
  subst same
  have decoded := PublicKey.ofRepresentativeOctets_returns ⟨(encoding root).addTop tweak⟩
  rw [Representative.element_addTop_encoding,
    stands.image (encodability_clamped_ne_zero key) square (cubic_u_isSquare _),
    if_neg (Curve.clamped_not_smallOrder key)] at decoded
  exact decoded

end Outcomes

section Results
open Representative (IsRepresentative)

/-- A private key has no representative just where -2u(u + A) is not a square. Otherwise bit 255 is
that of the tweak, and the rest is the one low representative of the point with the true v; the
secret finds the same. -/
theorem HiddenKeyPair.representative_exact (key : Bytes32) (tweak : UInt8) :
    let multiple := Scalar.clampedNat key • basePoint
    let outcome := Id.run (ofOctets key.toList tweak)
    (outcome = .error .notRepresentable ↔
        ¬IsSquare (-2 * u multiple * (u multiple + Curve.a))) ∧
      (IsSquare (-2 * u multiple * (u multiple + Curve.a)) → ∃ pair, outcome = .ok pair ∧
        pair.representative.bytes.bit 255 = tweak.toNat.testBit 7 ∧
        ∀ r, IsRepresentative multiple r ↔ r = pair.representative.bytes.toNat % 2 ^ 255) ∧
      Id.run ((Secret.ofKey key).representative tweak) =
        outcome.map (fun pair => pair.representative) := by
  intro multiple outcome
  obtain ⟨found, given, same⟩ := (ofOctets_returns key tweak).run
  change outcome = _ at same
  have agrees := (Secret.representative_returns key tweak).run.unique given
  rw [same, agrees]
  refine ⟨?_, fun square => ?_, ?_⟩
  · rw [show -2 * u multiple * (u multiple + Curve.a) = encodability (u multiple) from rfl,
      ← given.error_iff]
    cases found with
    | error rejection => simp [Except.map]
    | ok representative => simp [Except.map]
  · obtain ⟨root, _, _, written⟩ := given.accepted square
    refine ⟨⟨⟨Secret.ofKey key, PublicKey.ofClamped key⟩, ⟨(encoding root).addTop tweak⟩⟩,
      by rw [written]; rfl, Representative.bit_addTop_encoding root tweak, fun r => ?_⟩
    exact given.isRepresentative_iff written r
  · cases found with
    | error rejection => rfl
    | ok representative => rfl

/-- Keys with a representative are the keys without one, and the representative leads back to the
public key. -/
theorem HiddenKeyPair.round_trip (key : Bytes32) (tweak : UInt8) (pair : HiddenKeyPair)
    (accepted : Id.run (ofOctets key.toList tweak) = .ok pair) :
    Id.run (KeyPair.ofOctets key.toList) = .ok pair.toKeyPair ∧
      Id.run (PublicKey.ofRepresentativeOctets pair.representative.bytes.toList) =
        .ok pair.publicKey := by
  obtain ⟨found, given, same⟩ := (ofOctets_returns key tweak).run
  rw [accepted] at same
  cases found with
  | error rejection => cases same
  | ok representative =>
    cases same
    exact ⟨(KeyPair.ofOctets_returns key).run, (given.decodes rfl).run⟩

theorem HiddenKeyPair.round_trip_exceptionalKey :
    ∃ pair, Id.run (ofOctets Curve.exceptionalKey.toList 0) = .ok pair ∧
      Id.run (KeyPair.ofOctets Curve.exceptionalKey.toList) = .ok pair.toKeyPair ∧
      Id.run (PublicKey.ofRepresentativeOctets pair.representative.bytes.toList) =
        .ok pair.publicKey := by
  obtain ⟨found, given, same⟩ := (ofOctets_returns Curve.exceptionalKey 0).run
  have square : IsSquare
      (encodability (u (Scalar.clampedNat Curve.exceptionalKey • basePoint))) := by
    rw [Curve.clamped_nsmul_of_exception _ Curve.clampedNat_exceptionalKey, Montgomery.u_neg,
      Curve.u_basePoint]
    exact ⟨8118550482017330360799279280584194595142223753771563850379953897273344285044,
      by decide +kernel⟩
  obtain ⟨root, _, _, written⟩ := given.accepted square
  rw [written] at same
  exact ⟨_, same, round_trip Curve.exceptionalKey 0 _ same⟩

end Results

end Curve25519
