import Curve25519.Proofs.Curve.Order
import Curve25519.Proofs.Key.Pair
import Curve25519.Proofs.Representative.Image

/-! Key agreement, and which public keys it is safe with.
Every coordinate is one of the curve or the twist, and a clamped multiple of it is zero for five
coordinates, whatever the key. Four of them are on the curve, and these the decoder of representatives
rejects; the fifth, minus one, is on the twist, where the direct map never leads. The secret of a
multiple of the base point is the multiple by both integers, in whichever order they come. -/

namespace Curve25519
open Montgomery (u Rungs)
open Curve (basePoint)
open Representative (image directMap)

namespace UPoint

/-- The order of the point divides eight, be it on the curve or the twist. -/
def HasSmallOrder (point : UPoint) : Prop :=
  encoding point.element ∈ Curve.smallOrder ∨ point.element = -1

theorem mulBits_returns_zero_iff (point : UPoint) (bits : List Bool)
    (clears : Curve.ClearsSmallOrder (bitsToNat bits)) :
    Returns (fun _ => point.mulBits bits) (fun multiple =>
      ∃ x, multiple = ⟨encoding x⟩ ∧ (x = 0 ↔ point.HasSmallOrder)) := by
  obtain ⟨d, nonzero, P, same, zero⟩ := Curve.exists_point_clears point.element
  apply (mulBits_returns point bits P same).mono
  intro multiple written
  exact ⟨_, written, zero _ clears⟩

theorem mulClamped_returns_zero_iff (point : UPoint) (key : Bytes32) :
    Returns (fun _ => point.mulClamped key) (fun multiple =>
      ∃ x, multiple = ⟨encoding x⟩ ∧ (x = 0 ↔ point.HasSmallOrder)) := by
  have clears := Curve.clearsSmallOrder_clampedNat key
  rw [← Scalar.bitsToNat_bits_clamp] at clears
  exact point.mulBits_returns_zero_iff _ clears

theorem hasSmallOrder_encoding_iff (x : Element) :
    HasSmallOrder ⟨encoding x⟩ ↔ encoding x ∈ Curve.smallOrder ∨ x = -1 := by
  rw [HasSmallOrder, element_encoding]

theorem hasSmallOrder_iff (bytes : Bytes32) :
    HasSmallOrder ⟨bytes⟩ ↔
      bytes.toNat % 2 ^ 255 % prime ∈ Curve.smallOrder.map Bytes32.toNat ∨
        bytes.toNat % 2 ^ 255 % prime = prime - 1 := by
  have value : (element ⟨bytes⟩).val = bytes.toNat % 2 ^ 255 % prime := ZMod.val_natCast _ _
  have top : (-1 : Element).val = prime - 1 := by decide +kernel
  rw [HasSmallOrder, ← value, ← top, (ZMod.val_injective prime).eq_iff, ← toNat_encoding,
    List.mem_map_of_injective Bytes32.toNat_injective]

end UPoint

section Sharing

theorem SharedSecret.isContributory_returns_element (shared : SharedSecret) :
    Returns (fun _ => shared.isContributory)
      (fun contributory => contributory = decide (shared.point.element ≠ 0)) := by
  unfold isContributory
  refine shared.point.isNeutral_returns.bind fun zero same => ?_
  apply Returns.pure
  rw [same, decide_not]

theorem SharedSecret.isContributory_returns (x : Element) :
    Returns (fun _ => isContributory ⟨⟨encoding x⟩⟩)
      (fun contributory => contributory = decide (x ≠ 0)) := by
  have given := isContributory_returns_element ⟨⟨encoding x⟩⟩
  rw [UPoint.element_encoding] at given
  exact given

theorem Secret.agree_returns {d : Element} {nonzero : d ≠ 0} (key : Bytes32) (theirs : PublicKey)
    (P : (Curve.twisted d nonzero).Point) (same : u P = theirs.point.element) :
    Returns (fun _ => (ofKey key).agree theirs)
      (fun shared => shared = ⟨⟨encoding (u (Scalar.clampedNat key • P))⟩⟩) := by
  unfold agree
  refine (UPoint.mulClamped_returns theirs.point (ofKey key).scalar P same).bind
    fun point written => ?_
  apply Returns.pure
  rw [written, ofKey, Scalar.clampedNat_clamp]

theorem Secret.agree_returns_climb (secret : Secret) (theirs : PublicKey) :
    Returns (fun _ => secret.agree theirs) (fun shared => shared =
      ⟨⟨encoding (Rungs.climb Curve.montgomery.doublingFactor theirs.point.element
        (Scalar.bits (Scalar.clamp secret.scalar))).first.value⟩⟩) := by
  unfold agree
  apply (theirs.point.mulBits_returns_climb (Scalar.bits (Scalar.clamp secret.scalar))).bind
  intro point written
  apply Returns.pure
  rw [written]

theorem Secret.agree_returns_zero_iff (key : Bytes32) (theirs : PublicKey) :
    Returns (fun _ => (ofKey key).agree theirs) (fun shared =>
      ∃ x, shared = ⟨⟨encoding x⟩⟩ ∧ (x = 0 ↔ theirs.point.HasSmallOrder)) := by
  unfold agree
  refine (UPoint.mulClamped_returns_zero_iff theirs.point (ofKey key).scalar).bind
    fun point ⟨x, written, zero⟩ => ?_
  exact .pure _ ⟨x, by rw [written], zero⟩

theorem encoding_eq_zero_iff (x : Element) : encoding x = Bytes32.zero ↔ x = 0 := by
  rw [← Limbs.encoding_zero, encoding_injective.eq_iff]

theorem Secret.agree_eq_zero_iff (key : Bytes32) (theirs : PublicKey) :
    (Id.run ((ofKey key).agree theirs)).bytes = Bytes32.zero ↔ theirs.point.HasSmallOrder := by
  obtain ⟨x, written, zero⟩ := (agree_returns_zero_iff key theirs).run
  rw [written, ← zero]
  exact encoding_eq_zero_iff x

theorem Secret.agree_isContributory_iff (key : Bytes32) (theirs : PublicKey) :
    Id.run (Id.run ((ofKey key).agree theirs)).isContributory = true ↔
      ¬theirs.point.HasSmallOrder := by
  obtain ⟨x, written, zero⟩ := (agree_returns_zero_iff key theirs).run
  rw [written, (SharedSecret.isContributory_returns x).run, decide_eq_true_iff, Ne, zero]

/-- A shared secret is contributory, and not zero, unless the public key is one of the five of small
order; the secret key makes no difference. -/
theorem SharedSecret.isContributory_eq_false_iff (key theirs : Bytes32) :
    let shared := Id.run ((Secret.ofKey key).agree (PublicKey.ofBytes theirs))
    let value := theirs.toNat % 2 ^ 255 % prime
    let small := value ∈ Curve.smallOrder.map Bytes32.toNat ∨ value = prime - 1
    (Id.run shared.isContributory = false ↔ small) ∧ (shared.bytes = Bytes32.zero ↔ small) ∧
      ∀ other, Id.run shared.isContributory = Id.run
        (Id.run ((Secret.ofKey other).agree (PublicKey.ofBytes theirs))).isContributory := by
  intro shared value small
  have listed : UPoint.HasSmallOrder ⟨theirs⟩ ↔ small := UPoint.hasSmallOrder_iff theirs
  have contributory (key : Bytes32) := Secret.agree_isContributory_iff key (.ofBytes theirs)
  refine ⟨?_, (Secret.agree_eq_zero_iff key (.ofBytes theirs)).trans listed, fun other => ?_⟩
  · rw [← Bool.not_eq_true, contributory key, not_not]
    exact listed
  · rw [Bool.eq_iff_iff]
    exact (contributory key).trans (contributory other).symm

end Sharing

section Decoding

theorem Representative.image_ne_neg_one (r : Element) : image r ≠ -1 := by
  intro same
  have square := cubic_image_isSquare r
  rw [same] at square
  exact Curve.cubic_neg_one_not_isSquare square

theorem hasSmallOrder_image_iff (r : Element) :
    UPoint.HasSmallOrder ⟨encoding (image r)⟩ ↔ encoding (image r) ∈ Curve.smallOrder := by
  rw [UPoint.hasSmallOrder_encoding_iff, or_iff_left (Representative.image_ne_neg_one r)]

theorem Representative.encode_directMap_returns (r : Limbs) (below : r.Below Limbs.factorBound) :
    Returns (fun _ => do Limbs.encode (← directMap r))
      (fun bytes => bytes = encoding (image r.element)) := by
  exact (directMap_returns r below).bind fun u denotes => denotes.encode

theorem x25519_returns_zero_iff (key theirs : Bytes32) :
    Returns (fun _ => x25519 key theirs)
      (fun bytes => bytes = Bytes32.zero ↔ UPoint.HasSmallOrder ⟨theirs⟩) := by
  unfold x25519
  refine (UPoint.mulClamped_returns_zero_iff ⟨theirs⟩ key).bind fun point ⟨x, written, zero⟩ => ?_
  apply Returns.pure
  rw [written, ← zero]
  exact encoding_eq_zero_iff x

/-- The decoder rejects a representative just where key agreement with the coordinate that it is mapped
to gives zero, and every public key that it gives out is safe with any secret. -/
theorem PublicKey.ofRepresentativeOctets_rejects_iff (octets key : Bytes32) :
    let r := Limbs.ofNat (octets.toNat % 2 ^ 255 % prime)
    let mapped := Id.run (do Limbs.encode (← directMap r))
    let decoded := Id.run (ofRepresentativeOctets octets.toList)
    (decoded = .error .smallOrder ↔ Id.run (x25519 key mapped) = Bytes32.zero) ∧
      (decoded ≠ .error .smallOrder → ∃ publicKey, decoded = .ok publicKey ∧ ∀ other,
        Id.run (Id.run ((Secret.ofKey other).agree publicKey)).isContributory = true) := by
  intro r mapped decoded
  have small : octets.toNat % 2 ^ 255 % prime < 2 ^ 255 :=
    (Nat.mod_lt _ (by decide)).trans (by decide)
  have denotes := Limbs.ofNat_denotes small
  have element : r.element = Representative.element ⟨octets⟩ := by
    rw [denotes.element, ZMod.natCast_mod]
    rfl
  have written : mapped = encoding (image (Representative.element ⟨octets⟩)) := by
    rw [← element]
    exact (Representative.encode_directMap_returns r (denotes.factor (by decide))).run
  have outcome : decoded = _ := (ofRepresentativeOctets_returns ⟨octets⟩).run
  have listed := hasSmallOrder_image_iff (Representative.element ⟨octets⟩)
  have zero := (x25519_returns_zero_iff key mapped).run
  rw [written, listed] at zero
  rw [written, zero, outcome]
  by_cases rejected : encoding (image (Representative.element ⟨octets⟩)) ∈ Curve.smallOrder
  · rw [if_pos rejected]
    exact ⟨iff_of_true rfl rejected, fun accepted => absurd rfl accepted⟩
  · rw [if_neg rejected]
    refine ⟨iff_of_false nofun rejected, fun _ => ⟨_, rfl, fun other => ?_⟩⟩
    rw [Secret.agree_isContributory_iff, listed]
    exact rejected

end Decoding

section Hidden
variable (a b : Bytes32)

theorem u_clamped_clamped_ne_zero :
    u (Scalar.clampedNat a • Scalar.clampedNat b • basePoint) ≠ 0 := by
  intro zero
  have clears := Curve.clearsSmallOrder_clampedNat a
  have small := (clears.u_nsmul_montgomery_eq_zero_iff _).mp zero
  exact Curve.eight_nsmul_clamped_ne_zero b ((Curve.eight_nsmul_eq_zero_iff_mem _).mpr small)

theorem Secret.agree_ofClamped_returns :
    Returns (fun _ => (ofKey a).agree (.ofClamped b)) (fun shared =>
      shared = ⟨⟨encoding (u (Scalar.clampedNat a • Scalar.clampedNat b • basePoint))⟩⟩) :=
  agree_returns a (.ofClamped b) (Scalar.clampedNat b • basePoint)
    (UPoint.element_encoding _).symm

theorem HiddenKeyPair.exists_of_isSquare (key : Bytes32) (tweak : UInt8)
    (square : IsSquare (Representative.encodability (u (Scalar.clampedNat key • basePoint)))) :
    ∃ pair, Id.run (ofOctets key.toList tweak) = .ok pair := by
  obtain ⟨outcome, given, same⟩ := (ofOctets_returns key tweak).run
  obtain ⟨root, _, _, written⟩ := given.accepted square
  rw [written] at same
  exact ⟨_, same⟩

def doublingKey : Bytes32 := .ofNat (6 * basePointOrder + 2)

theorem clamped_doublingKey : Scalar.clampedNat doublingKey • basePoint = 2 • basePoint := by
  have clamped : Scalar.clampedNat doublingKey = 6 * basePointOrder + 2 :=
    Scalar.clampedNat_ofNat (by decide) (by decide) (by decide)
  rw [clamped, add_nsmul, mul_nsmul', Curve.basePointOrder_nsmul, nsmul_zero, zero_add]

theorem u_two_nsmul_of_law {P : Curve.montgomery.Point} {x y : Element} (coordinate : u P = x)
    (nonzero : x ≠ 0) (law : (x ^ 2 - 1) ^ 2 = 4 * (x ^ 3 + Curve.a * x ^ 2 + x) * y) :
    u (2 • P) = y := by
  subst coordinate
  exact (Montgomery.u_two_nsmul_eq_iff (M := Curve.montgomery) Curve.quadratic_ne_zero
    nonzero y).mpr law

theorem u_two_nsmul_basePoint : u (2 • basePoint) =
    14847277145635483483963372537557091634710985132825781088887140890597596352251 :=
  u_two_nsmul_of_law Curve.u_basePoint (by decide +kernel) (by decide +kernel)

theorem encodability_double_isSquare :
    IsSquare (Representative.encodability (u (2 • basePoint))) := by
  rw [u_two_nsmul_basePoint]
  exact ⟨19279936708473457488745528689367668432354359731259267077192843893293086620353,
    by decide +kernel⟩

/-- Alice publishes a representative and Bob a public key; he decodes hers, and both come to the same
shared secret, to which both have contributed. -/
theorem HiddenKeyPair.agreement (tweak : UInt8) (alice : HiddenKeyPair)
    (accepted : Id.run (ofOctets a.toList tweak) = .ok alice) :
    ∃ bob decoded, Id.run (KeyPair.ofOctets b.toList) = .ok bob ∧
      Id.run (PublicKey.ofRepresentativeOctets alice.representative.bytes.toList) = .ok decoded ∧
      let mine := Id.run (alice.secret.agree bob.publicKey)
      let theirs := Id.run (bob.secret.agree decoded)
      mine.bytes = theirs.bytes ∧ Id.run mine.isContributory = true ∧
        Id.run theirs.isContributory = true := by
  obtain ⟨outcome, given, same⟩ := (ofOctets_returns a tweak).run
  rw [accepted] at same
  cases outcome with
  | error rejection => cases same
  | ok representative =>
    cases same
    refine ⟨_, _, (KeyPair.ofOctets_returns b).run, (given.decodes rfl).run, ?_⟩
    intro mine theirs
    have first : mine = _ := (Secret.agree_ofClamped_returns a b).run
    have second : theirs = _ := (Secret.agree_ofClamped_returns b a).run
    have contributory (key other : Bytes32) := (SharedSecret.isContributory_returns
      (u (Scalar.clampedNat key • Scalar.clampedNat other • basePoint))).run.trans
        (decide_eq_true (u_clamped_clamped_ne_zero key other))
    rw [first, second]
    refine ⟨?_, contributory a b, contributory b a⟩
    exact congrArg (fun multiple => encoding (u multiple)) (smul_comm _ _ basePoint)

theorem HiddenKeyPair.agreement_doublingKey :
    ∃ alice, Id.run (ofOctets doublingKey.toList 0x80) = .ok alice ∧
      ∃ bob decoded, Id.run (KeyPair.ofOctets Bytes32.zero.toList) = .ok bob ∧
        Id.run (PublicKey.ofRepresentativeOctets alice.representative.bytes.toList) = .ok decoded ∧
        let mine := Id.run (alice.secret.agree bob.publicKey)
        let theirs := Id.run (bob.secret.agree decoded)
        mine.bytes = theirs.bytes ∧ Id.run mine.isContributory = true ∧
          Id.run theirs.isContributory = true := by
  have square := encodability_double_isSquare
  rw [← clamped_doublingKey] at square
  obtain ⟨alice, accepted⟩ := exists_of_isSquare doublingKey 0x80 square
  exact ⟨alice, accepted, agreement doublingKey Bytes32.zero 0x80 alice accepted⟩

end Hidden

end Curve25519
