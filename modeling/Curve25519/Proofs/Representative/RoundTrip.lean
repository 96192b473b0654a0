import Curve25519.Proofs.Curve.SmallOrder
import Curve25519.Proofs.Representative.Fiber

/-! Encoding and decoding one after the other.
A coordinate u of the curve comes back from its representative for either sign of v. A coordinate of
the twist is encoded just as well, by a representative of the coordinate -u - A, which is on the curve.
The other way round, an element comes back up to its sign from the coordinate that it leads to, if the
sign of v is its own, and for the other sign the element s with 2 r s = 1 comes in its place. -/

namespace Curve25519.Representative

section Twist
variable {u r : Element} {high : Bool}

theorem StandsFor.reflect (stands : StandsFor u high r) :
    StandsFor (-(u + Curve.a)) (!high) r := by
  cases high with
  | true =>
    change 2 * u * r ^ 2 = -(u + Curve.a) at stands
    change 2 * (-(u + Curve.a) + Curve.a) * r ^ 2 = - -(u + Curve.a)
    linear_combination -stands
  | false =>
    change 2 * (u + Curve.a) * r ^ 2 = -u at stands
    change 2 * -(u + Curve.a) * r ^ 2 = -(-(u + Curve.a) + Curve.a)
    linear_combination -stands

theorem StandsFor.image_of_twist (nonzero : encodability u ≠ 0)
    (square : IsSquare (encodability u)) (stands : StandsFor u high r)
    (twist : ¬IsSquare (Curve.cubic u)) : Representative.image r = -(u + Curve.a) := by
  have other := (isSquare_cubic_iff nonzero square).mpr twist
  rw [← encodability_reflect] at nonzero square
  exact stands.reflect.image nonzero square other

end Twist

def ofLesser (x : Element) (tweak : UInt8) : Representative :=
  ⟨.ofNat (lesser x + 2 ^ 255 * (tweak.toNat.testBit 7).toNat)⟩

theorem low_ofLesser (x : Element) (tweak : UInt8) :
    (ofLesser x tweak).bytes.toNat % 2 ^ 255 = lesser x := by
  have bound := lesser_le x
  have room : (prime - 1) / 2 < 2 ^ 255 := by decide
  have bit := (tweak.toNat.testBit 7).toNat_le
  rw [ofLesser, Bytes32.toNat_ofNat_of_lt (by omega), Nat.add_mul_mod_self_left,
    Nat.mod_eq_of_lt (by omega)]

theorem addTop_encoding_eq_ofLesser {x r : Element} (low : IsLow r) (same : r ^ 2 = x ^ 2)
    (tweak : UInt8) : ⟨(encoding r).addTop tweak⟩ = ofLesser x tweak := by
  have small := tweak.toNat_lt
  have bit : (tweak.toNat.testBit 7).toNat = tweak.toNat / 2 ^ 7 := by
    rw [Nat.toNat_testBit]
    omega
  have bound := lesser_le x
  have room : (prime - 1) / 2 < 2 ^ 255 := by decide
  rw [ofLesser, mk.injEq]
  apply Bytes32.toNat_injective
  rw [toNat_addTop_encoding, val_eq_lesser low same, bit, Bytes32.toNat_ofNat_of_lt (by omega)]

section Procedure
variable {u : Limbs} {high : Bool} {tweak : UInt8}

theorem ofPoint?_isSome_iff (admissible : Admissible u) :
    (Id.run (ofPoint? u high tweak)).isSome ↔
      encodability u.element ≠ 0 ∧ IsSquare (encodability u.element) := by
  obtain ⟨absent, present⟩ := (ofPoint?_returns rfl admissible high tweak).run
  by_cases free : encodability u.element ≠ 0 ∧ IsSquare (encodability u.element)
  · obtain ⟨r, _, _, written⟩ := present free
    simp [written, free]
  · simp [absent free, free]

theorem standsFor_of_ofPoint? (admissible : Admissible u) {representative : Representative}
    (encoded : Id.run (ofPoint? u high tweak) = some representative) :
    ∃ r, IsLow r ∧ StandsFor u.element high r ∧
      representative = ⟨(encoding r).addTop tweak⟩ := by
  have free := (ofPoint?_isSome_iff admissible).mp (Option.isSome_of_eq_some encoded)
  obtain ⟨r, low, stands, written⟩ :=
    (ofPoint?_returns rfl admissible high tweak).run.2 free
  rw [encoded, Option.some.injEq] at written
  exact ⟨r, low, stands, written⟩

theorem ofPoint?_of_standsFor (admissible : Admissible u) (nonzero : encodability u.element ≠ 0)
    (square : IsSquare (encodability u.element)) {x : Element}
    (stands : StandsFor u.element high x) :
    Id.run (ofPoint? u high tweak) = some (ofLesser x tweak) := by
  obtain ⟨r, low, stands', written⟩ :=
    (ofPoint?_returns rfl admissible high tweak).run.2 ⟨nonzero, square⟩
  rw [written, addTop_encoding_eq_ofLesser low (stands'.sq_eq nonzero stands)]

end Procedure

section Results

/-- A coordinate is encoded just where -2u(u + A) is a square other than zero, by a low integer that
the direct map takes back to u on the curve, and to -u - A on the twist. On the curve the
representative is decoded to the octets of u, or rejected if the order of the point divides eight. -/
theorem directMap_ofPoint? (u : Limbs) (admissible : Admissible u) (high : Bool)
    (tweak : UInt8) :
    let x := u.element
    let encoded := Id.run (ofPoint? u high tweak)
    let onCurve := IsSquare (x ^ 3 + Curve.a * x ^ 2 + x)
    (encoded.isSome ↔ -2 * x * (x + Curve.a) ≠ 0 ∧ IsSquare (-2 * x * (x + Curve.a))) ∧
      ∀ representative, encoded = some representative →
        let r := representative.bytes.toNat % 2 ^ 255
        let mapped := (Id.run (directMap (.ofNat r))).element
        r ≤ (prime - 1) / 2 ∧ (onCurve → mapped = x) ∧ (¬onCurve → mapped = -x - Curve.a) ∧
          (onCurve → encoding x ∉ Curve.smallOrder →
            Id.run representative.toPoint? = some ⟨encoding x⟩) ∧
          (onCurve → encoding x ∈ Curve.smallOrder →
            Id.run representative.toPoint? = none) := by
  intro x encoded onCurve
  refine ⟨ofPoint?_isSome_iff admissible, ?_⟩
  intro representative written r mapped
  obtain ⟨nonzero, square⟩ :=
    (ofPoint?_isSome_iff admissible).mp (Option.isSome_of_eq_some written)
  obtain ⟨root, low, stands, rfl⟩ := standsFor_of_ofPoint? admissible written
  have value : r = root.val := low_addTop_encoding root tweak
  have leads : mapped = image root := by
    have denotes := Limbs.ofNat_val_denotes root
    change (Id.run (directMap (.ofNat r))).element = image root
    rw [value, element_directMap _ (denotes.factor (by decide)), denotes.element]
  have decoded := (toPoint?_returns ⟨(encoding root).addTop tweak⟩).run
  rw [element_addTop_encoding] at decoded
  have back (square' : onCurve) : image root = x := stands.image nonzero square square'
  refine ⟨value.trans_le low, ?_, ?_, ?_, ?_⟩
  · intro square'
    rw [leads, back square']
  · intro twist
    rw [leads, stands.image_of_twist nonzero square twist, neg_add']
  · intro square' free
    rw [decoded, back square', if_neg free]
  · intro square' listed
    rw [decoded, back square', if_pos listed]

theorem directMap_ofPoint?_orderFour :
    ∃ representative, Id.run (ofPoint? (.ofNat 1) false 0x80) = some representative ∧
      representative.bytes.toNat % 2 ^ 255 ≤ (prime - 1) / 2 ∧
      (Id.run (directMap (.ofNat (representative.bytes.toNat % 2 ^ 255)))).element = 1 ∧
      Id.run representative.toPoint? = none := by
  have one : (Limbs.ofNat 1).element = 1 := Limbs.one_denotes.element
  have admissible : Admissible (.ofNat 1) := admissible_of_denotes Limbs.one_denotes (by decide)
  have encodable : -2 * 1 * (1 + Curve.a) ≠ 0 ∧ IsSquare (-2 * 1 * (1 + Curve.a)) :=
    ⟨by decide +kernel,
      26801942471454130892563648817828037510937834798578995724533489628124857004956,
      by decide +kernel⟩
  have onCurve : IsSquare ((1 : Element) ^ 3 + Curve.a * 1 ^ 2 + 1) :=
    ⟨Curve.rootAPlusTwo, by decide +kernel⟩
  have listed : encoding 1 ∈ Curve.smallOrder :=
    (Curve.encoding_mem_smallOrder_iff 1).mpr (.inr (.inl rfl))
  obtain ⟨some_iff, all⟩ := directMap_ofPoint? (.ofNat 1) admissible false 0x80
  rw [one] at some_iff all
  obtain ⟨representative, written⟩ := Option.isSome_iff_exists.mp (some_iff.mpr encodable)
  obtain ⟨low, back, _, _, rejected⟩ := all representative written
  exact ⟨representative, written, low, back onCurve, rejected onCurve listed⟩

/-- The coordinate that an element other than zero leads to is encoded as the lesser integer for the
element itself where the sign of v is its own, and for the other sign as that of the one half of its
inverse, which is always another. Bit 255 is that of the tweak. -/
theorem ofPoint?_directMap (r : Limbs) (below : r.Below Limbs.factorBound)
    (nonzero : r.element ≠ 0) (own : Bool) (tweak : UInt8) :
    let x := r.element
    let d := -Curve.a / (1 + 2 * x ^ 2)
    let s := 1 / (2 * x)
    let u := Id.run (directMap r)
    (own = true ↔ IsSquare (d ^ 3 + Curve.a * d ^ 2 + d)) →
      Id.run (ofPoint? u own tweak) = some (ofLesser x tweak) ∧
        Id.run (ofPoint? u (!own) tweak) = some (ofLesser s tweak) ∧
        (ofLesser x tweak).bytes.toNat % 2 ^ 255 ≠ (ofLesser s tweak).bytes.toNat % 2 ^ 255 := by
  intro x d s u sign
  have unit : 2 * x ≠ 0 := mul_ne_zero two_ne_zero nonzero
  have product : (2 * x * s) ^ 2 = 1 := by rw [mul_one_div_cancel unit, one_pow]
  have same : d = ratio x := div_eq_mul_inv _ _
  rw [same] at sign
  have denotes : Limbs.Denotes 2 (image x) u := (directMap_returns r below).run
  have admissible := admissible_of_denotes denotes (by decide)
  have encodable := encodability_image_ne_zero nonzero
  have square := encodability_image_isSquare (r := x)
  have stands := standsFor_image sign
  rw [← denotes.element] at encodable square stands
  refine ⟨ofPoint?_of_standsFor admissible encodable square stands,
    ofPoint?_of_standsFor admissible encodable square (stands.of_product_sq product), ?_⟩
  rw [low_ofLesser, low_ofLesser]
  exact lesser_ne_of_product_sq product

/-- Limbs above the modulus that stand for one come back as one, and as half the modulus. -/
theorem ofPoint?_directMap_one :
    Id.run (ofPoint? (Id.run (directMap (.ofNat (prime + 1)))) true 0x80) =
        some ⟨.ofNat (1 + 2 ^ 255)⟩ ∧
      Id.run (ofPoint? (Id.run (directMap (.ofNat (prime + 1)))) false 0x80) =
        some ⟨.ofNat ((prime - 1) / 2 + 2 ^ 255)⟩ := by
  have one : (Limbs.ofNat (prime + 1)).element = 1 := by decide +kernel
  have nonzero : (Limbs.ofNat (prime + 1)).element ≠ 0 := by
    rw [one]
    exact one_ne_zero
  have half : (1 / (2 * 1) : Element) = ((prime + 1) / 2 : Nat) := by
    rw [div_eq_iff (by decide +kernel)]
    decide +kernel
  have square := cubic_ratio_one_isSquare
  rw [ratio, ← div_eq_mul_inv] at square
  have both := ofPoint?_directMap (.ofNat (prime + 1)) (by decide) nonzero true 0x80
  rw [one] at both
  obtain ⟨first, second, _⟩ := both (iff_of_true rfl square)
  rw [half] at second
  refine ⟨first.trans ?_, second.trans ?_⟩
  · decide +kernel
  · decide +kernel

end Results

end Curve25519.Representative
