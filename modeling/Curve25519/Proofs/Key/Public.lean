import Curve25519.Key.Public
import Curve25519.Proofs.Representative.Direct

/-! Reading keys and representatives from their octets. -/

namespace Curve25519
open Representative (image)

theorem Bytes32.ofList?_toList (bytes : Bytes32) : ofList? bytes.toList = some bytes := by
  rw [ofList?, dif_pos bytes.length_toList]
  exact congrArg some (Vector.toArray_inj.mp Array.toArray_toList)

theorem Bytes32.exists_toList_eq {octets : List UInt8} (length : octets.length = 32) :
    ∃ bytes : Bytes32, bytes.toList = octets :=
  ⟨⟨octets.toArray, by simpa using length⟩, by simp [Vector.toList]⟩

theorem KeyKind.read_toList (kind : KeyKind) (bytes : Bytes32) :
    kind.read bytes.toList = .ok bytes := by
  rw [read, Bytes32.ofList?_toList]

theorem KeyKind.read_of_length_ne (kind : KeyKind) {octets : List UInt8}
    (length : octets.length ≠ 32) :
    kind.read octets = .error (.wrongLength kind octets.length) := by
  rw [read, Bytes32.ofList?, dif_neg length]

theorem PublicKey.equal_returns (a b : PublicKey) :
    Returns (fun _ => equal a b)
      (fun same => same = decide (a.point.element = b.point.element)) :=
  UPoint.equal_returns a.point b.point

def PublicKey.ofElement (x : Element) : PublicKey := ⟨⟨encoding x⟩⟩

@[simp] theorem PublicKey.bytes_ofElement (x : Element) : (ofElement x).bytes = encoding x := rfl

theorem PublicKey.bytes_ofElement_inj {x y : Element} :
    (ofElement x).bytes = (ofElement y).bytes ↔ x = y := by
  rw [bytes_ofElement, bytes_ofElement, encoding_injective.eq_iff]

theorem PublicKey.ofElement_injective : Function.Injective ofElement := by
  intro x y same
  exact bytes_ofElement_inj.mp (by rw [same])

theorem PublicKey.equal_ofElement_iff (x y : Element) :
    Id.run (equal (ofElement x) (ofElement y)) = true ↔ x = y := by
  rw [(equal_returns (ofElement x) (ofElement y)).run, decide_eq_true_iff, ofElement, ofElement,
    UPoint.element_encoding, UPoint.element_encoding]

theorem PublicKey.ofCanonicalOctets_returns (bytes : Bytes32) :
    Returns (fun _ => ofCanonicalOctets bytes.toList) (fun result => result =
      if bytes.toNat % 2 ^ 255 < prime then .ok (ofBytes bytes.clearTop)
      else .error .notCanonical) := by
  have canonical := Limbs.encoding_decode_eq_iff bytes.clearTop
  rw [Bytes32.toNat_clearTop] at canonical
  unfold ofCanonicalOctets
  rw [KeyKind.read_toList]
  refine (Limbs.encode_returns (.decode bytes.clearTop)).bind fun encoded written => ?_
  apply Returns.pure
  simp only [written, beq_iff_eq, canonical]

theorem Representative.toPublicKey_returns (representative : Representative) :
    Returns (fun _ => representative.toPublicKey) (fun result => result =
      if encoding (image representative.element) ∈ Curve.smallOrder then .error .smallOrder
      else .ok ⟨⟨encoding (image representative.element)⟩⟩) := by
  unfold toPublicKey
  refine (toPoint?_returns representative).bind fun point? given => ?_
  by_cases listed : encoding (image representative.element) ∈ Curve.smallOrder
  · rw [if_pos listed] at given
    rw [given]
    exact .pure _ (if_pos listed).symm
  · rw [if_neg listed] at given
    rw [given]
    exact .pure _ (if_neg listed).symm

theorem PublicKey.ofRepresentativeOctets_returns (representative : Representative) :
    Returns (fun _ => ofRepresentativeOctets representative.bytes.toList) (fun result => result =
      if encoding (image representative.element) ∈ Curve.smallOrder then .error .smallOrder
      else .ok ⟨⟨encoding (image representative.element)⟩⟩) := by
  have read : Representative.ofOctets representative.bytes.toList = .ok representative := by
    rw [Representative.ofOctets, KeyKind.read_toList]
    rfl
  unfold ofRepresentativeOctets
  rw [read]
  exact representative.toPublicKey_returns

end Curve25519
