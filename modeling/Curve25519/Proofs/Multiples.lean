import Curve25519.Proofs.Key.Agreement

/-! Multiples of multiples, and which points share their multiples.
A multiple is written as a coordinate, which loses its sign and, where it is zero, whether the point
is the neutral element or of order two. Neither matters for a further multiple, so that integers act
on octets by their product. Integers that are multiples of eight, and of the order of neither the
curve nor the twist, all tell the same points apart: those that do not differ by their sign and a
point of small order alone. -/

namespace Curve25519
open Montgomery (u)

namespace UPoint

theorem exists_point (point : UPoint) :
    ∃ (d : Element) (nonzero : d ≠ 0) (P : (Curve.twisted d nonzero).Point),
      u P = point.element := by
  obtain ⟨d, nonzero, P, same, _⟩ := Curve.exists_point_clears point.element
  exact ⟨d, nonzero, P, same⟩

section Composition
variable {d : Element} {nonzero : d ≠ 0}

theorem mulBits_eq_encoding (point : UPoint) (bits : List Bool)
    (P : (Curve.twisted d nonzero).Point) (same : u P = point.element) :
    Id.run (point.mulBits bits) = ⟨encoding (u (bitsToNat bits • P))⟩ :=
  (mulBits_returns point bits P same).run

/-- The octets of a multiple stand for the multiple as well as for the opposite of it, and the point
of order two may stand for the neutral element. -/
theorem mulBits_mulBits_returns (point : UPoint) (first second : List Bool)
    (P : (Curve.twisted d nonzero).Point) (same : u P = point.element) :
    Returns (fun _ => do (← point.mulBits first).mulBits second) (fun multiple =>
      multiple = ⟨encoding (u ((bitsToNat first * bitsToNat second) • P))⟩) := by
  refine (mulBits_returns point first P same).bind fun middle written => ?_
  rw [written, mul_nsmul]
  exact mulBits_returns _ second (bitsToNat first • P) (element_encoding _).symm

/-- Multiplying by one integer and then by another is multiplying by their product, in whatever bits
it is spelled. So the order of the two makes no difference, and neither do zeros in front; the
integer one leaves the coordinate as it is. -/
theorem mulBits_mulBits (x : Bytes32) (first second : List Bool) :
    let multiple (point : Bytes32) (bits : List Bool) := (Id.run (mulBits ⟨point⟩ bits)).bytes
    (∀ product, bitsToNat product = bitsToNat first * bitsToNat second →
      multiple (multiple x first) second = multiple x product) ∧
    multiple (multiple x first) second = multiple (multiple x second) first ∧
    (∀ zeros, multiple x (List.replicate zeros false ++ first) = multiple x first) ∧
    multiple x [true] = encoding (x.toNat % 2 ^ 255 : Nat) := by
  intro multiple
  obtain ⟨d, nonzero, P, same⟩ := exists_point ⟨x⟩
  have once (bits : List Bool) : multiple x bits = encoding (u (bitsToNat bits • P)) :=
    congrArg UPoint.bytes (mulBits_eq_encoding ⟨x⟩ bits P same)
  have twice (first second : List Bool) : multiple (multiple x first) second =
      encoding (u ((bitsToNat first * bitsToNat second) • P)) :=
    congrArg UPoint.bytes (mulBits_mulBits_returns ⟨x⟩ first second P same).run
  refine ⟨?_, ?_, ?_, ?_⟩
  · intro product value
    rw [twice, once, value]
  · rw [twice, twice, Nat.mul_comm]
  · intro zeros
    rw [once, once, bitsToNat_replicate_append]
  · rw [once]
    exact congrArg encoding ((congrArg u (one_nsmul P)).trans same)

theorem mulBits_mulBits_orderFour :
    bitsToNat [true, false, false] = bitsToNat [true, false] * bitsToNat [true, false] ∧
      (Id.run (mulBits ⟨(Id.run (mulBits ⟨.ofNat 1⟩ [true, false])).bytes⟩ [true, false])).bytes =
        (Id.run (mulBits ⟨.ofNat 1⟩ [true, false, false])).bytes := by
  have value : bitsToNat [true, false, false] =
      bitsToNat [true, false] * bitsToNat [true, false] := by decide
  exact ⟨value, (mulBits_mulBits (.ofNat 1) [true, false] [true, false]).1 _ value⟩

end Composition

section Peers
variable {d : Element} {nonzero : d ≠ 0} {bits : List Bool}

/-- The coordinates belong to points that differ by their sign and a point of small order, on the curve
or on a twist of it; or both are of small order, whether or not the points are on one curve. -/
def SameUpToSmallOrder (a b : UPoint) : Prop :=
  (a.HasSmallOrder ∧ b.HasSmallOrder) ∨
    ∃ (d : Element) (nonzero : d ≠ 0) (P Q T : (Curve.twisted d nonzero).Point),
      u P = a.element ∧ u Q = b.element ∧ 8 • T = 0 ∧ (Q = P + T ∨ Q = -P + T)

theorem mulBits_of_hasSmallOrder {point : UPoint} (small : point.HasSmallOrder)
    (eight : 8 ∣ bitsToNat bits) : Id.run (point.mulBits bits) = ⟨encoding 0⟩ := by
  obtain ⟨d, nonzero, P, same⟩ := exists_point point
  have cleared : 8 • P = 0 := by
    rw [Curve.eight_nsmul_eq_zero_iff_mem, same]
    exact small
  rw [mulBits_eq_encoding point bits P same, Curve.nsmul_eq_zero_of_dvd eight cleared,
    Montgomery.u_zero]

theorem mulBits_of_sameUpToSmallOrder {a b : UPoint} (same : SameUpToSmallOrder a b)
    (eight : 8 ∣ bitsToNat bits) : Id.run (a.mulBits bits) = Id.run (b.mulBits bits) := by
  rcases same with ⟨first, second⟩ | ⟨d, nonzero, P, Q, T, hP, hQ, small, apart⟩
  · rw [mulBits_of_hasSmallOrder first eight, mulBits_of_hasSmallOrder second eight]
  · have cleared : bitsToNat bits • T = 0 := Curve.nsmul_eq_zero_of_dvd eight small
    rw [mulBits_eq_encoding a bits P hP, mulBits_eq_encoding b bits Q hQ]
    rcases apart with rfl | rfl
    · rw [nsmul_add, cleared, add_zero]
    · rw [nsmul_add, cleared, add_zero, smul_neg, Montgomery.u_neg]

theorem sameUpToSmallOrder_of_eight {a b : UPoint} {P Q : (Curve.twisted d nonzero).Point}
    (hP : u P = a.element) (hQ : u Q = b.element)
    (small : 8 • (P - Q) = 0 ∨ 8 • (P + Q) = 0) : SameUpToSmallOrder a b := by
  refine .inr ⟨d, nonzero, P, ?_⟩
  rcases small with difference | sum
  · refine ⟨Q, Q - P, hP, hQ, ?_, .inl (add_sub_cancel P Q).symm⟩
    rw [← neg_sub, smul_neg, difference, neg_zero]
  · exact ⟨Q, P + Q, hP, hQ, sum, .inr (neg_add_cancel_left P Q).symm⟩

theorem hasSmallOrder_of_shared {n : Nat} (clears : Curve.ClearsSmallOrder n) {a b : UPoint}
    {P : Curve.montgomery.Point} {Q : (Curve.twisted 2 two_ne_zero).Point}
    (hP : u P = a.element) (hQ : u Q = b.element) (equal : u (n • P) = u (n • Q)) :
    a.HasSmallOrder ∧ b.HasSmallOrder := by
  have zero := Curve.u_eq_zero_of_shared equal
  have first := (clears.u_nsmul_montgomery_eq_zero_iff P).mp zero
  have second := (clears.u_nsmul_twist_eq_zero_iff Q).mp (equal.symm.trans zero)
  rw [hP] at first
  rw [hQ] at second
  exact ⟨first, second⟩

/-- Which points share their multiples does not depend on the integer, if only it clears points of
small order and no others. -/
theorem mulBits_eq_iff (a b : UPoint) (clears : Curve.ClearsSmallOrder (bitsToNat bits)) :
    (Id.run (a.mulBits bits)).bytes = (Id.run (b.mulBits bits)).bytes ↔
      SameUpToSmallOrder a b := by
  refine ⟨fun equal => ?_, fun same =>
    congrArg bytes (mulBits_of_sameUpToSmallOrder same clears.eight)⟩
  have coordinates {d e : Element} {nonzero : d ≠ 0} {nonzero' : e ≠ 0}
      {P : (Curve.twisted d nonzero).Point} {Q : (Curve.twisted e nonzero').Point}
      (hP : u P = a.element) (hQ : u Q = b.element) :
      u (bitsToNat bits • P) = u (bitsToNat bits • Q) := by
    rw [mulBits_eq_encoding a bits P hP, mulBits_eq_encoding b bits Q hQ] at equal
    exact encoding_injective equal
  -- Each of the two is on the curve or on the twist; where they are apart, zero is all they can share.
  rcases Curve.exists_point a.element with ⟨P, hP⟩ | ⟨P, hP⟩ <;>
    rcases Curve.exists_point b.element with ⟨Q, hQ⟩ | ⟨Q, hQ⟩
  · exact sameUpToSmallOrder_of_eight hP hQ
      ((clears.u_nsmul_montgomery_eq_iff P Q).mp (coordinates hP hQ))
  · exact .inl (hasSmallOrder_of_shared clears hP hQ (coordinates hP hQ))
  · exact .inl (hasSmallOrder_of_shared clears hQ hP (coordinates hP hQ).symm).symm
  · exact sameUpToSmallOrder_of_eight hP hQ
      ((clears.u_nsmul_twist_eq_iff P Q).mp (coordinates hP hQ))

end Peers

section Eightfold

/-- Eight takes a coordinate to zero where it is listed and where it is minus one. Minus one is the
coordinate of no point of the curve; where a coordinate belongs to the curve the list alone decides,
and it lists the coordinates of all points whose order divides eight. -/
theorem eightfold_eq_zero_iff (a : Limbs) :
    Returns (fun _ => do
      let eightfold ← mulBits ⟨← Limbs.encode a⟩ [true, false, false, false]
      let listed ← Representative.hasSmallOrder a
      return (eightfold.bytes, listed)) (fun result =>
        (result.1 = Bytes32.zero ↔ result.2 = true ∨ a.element = -1) ∧
        (IsSquare (Curve.cubic a.element) → (result.1 = Bytes32.zero ↔ result.2 = true)) ∧
        ∀ P : Curve.montgomery.Point, u P = a.element → (8 • P = 0 ↔ result.2 = true)) ∧
    ∀ P : Curve.montgomery.Point, u P ≠ -1 := by
  refine ⟨?_, Curve.u_ne_neg_one⟩
  apply (Limbs.encode_returns a).bind
  intro bytes written
  apply (mulBits_returns_zero_iff ⟨bytes⟩ [true, false, false, false]
    Curve.clearsSmallOrder_eight).bind
  intro eightfold given
  obtain ⟨x, rfl, zero⟩ := given
  apply (Representative.hasSmallOrder_returns a).bind
  intro listed isListed
  apply Returns.pure
  rw [written, hasSmallOrder_encoding_iff, ← isListed, ← encoding_eq_zero_iff] at zero
  refine ⟨zero, ?_, ?_⟩
  · intro square
    have off : a.element ≠ -1 := by
      intro same
      rw [same] at square
      exact Curve.cubic_neg_one_not_isSquare square
    rw [zero, or_iff_left off]
  · intro P same
    rw [Curve.eight_nsmul_eq_zero_iff_listed, same, isListed]

theorem eightfold_eq_zero_iff_orderEight :
    let a := Limbs.ofNat Curve.orderEightU.val
    let eightfold := Id.run do mulBits ⟨← Limbs.encode a⟩ [true, false, false, false]
    IsSquare (Curve.cubic a.element) ∧ u Curve.orderEightPoint = a.element ∧
      eightfold.bytes = Bytes32.zero ∧ Id.run (Representative.hasSmallOrder a) = true ∧
      8 • Curve.orderEightPoint = 0 := by
  intro a eightfold
  have value : a.element = Curve.orderEightU := (Limbs.ofNat_val_denotes _).element
  have coordinate : u Curve.orderEightPoint = a.element :=
    (Montgomery.u_point _ _ _).trans value.symm
  have square : IsSquare (Curve.cubic a.element) := by
    have onCurve := (Curve.exists_point_iff one_ne_zero a.element).mp
      ⟨Curve.orderEightPoint, coordinate⟩
    rwa [one_mul] at onCurve
  have eight : 8 • Curve.orderEightPoint = 0 :=
    Curve.addOrderOf_orderEightPoint ▸ addOrderOf_nsmul_eq_zero Curve.orderEightPoint
  obtain ⟨_, zero, torsion⟩ := (eightfold_eq_zero_iff a).1.run
  have listed : Id.run (Representative.hasSmallOrder a) = true :=
    (torsion Curve.orderEightPoint coordinate).mp eight
  exact ⟨square, coordinate, (zero square).mpr listed, listed, eight⟩

end Eightfold

end UPoint

/-- Which peers share a secret does not depend on the secret: with any of them, those do whose eightfold
multiples are the same, which is that they differ by their sign and a point of small order. -/
theorem x25519_eq_iff (key first second : Bytes32) :
    let eightfold (peer : Bytes32) :=
      (Id.run (UPoint.mulBits ⟨peer⟩ [true, false, false, false])).bytes
    (Id.run (x25519 key first) = Id.run (x25519 key second) ↔
      eightfold first = eightfold second) ∧
    (eightfold first = eightfold second ↔ UPoint.SameUpToSmallOrder ⟨first⟩ ⟨second⟩) := by
  intro eightfold
  have clears := Curve.clearsSmallOrder_clampedNat key
  rw [← Scalar.bitsToNat_bits_clamp] at clears
  have secret : Id.run (x25519 key first) = Id.run (x25519 key second) ↔
      UPoint.SameUpToSmallOrder ⟨first⟩ ⟨second⟩ :=
    UPoint.mulBits_eq_iff ⟨first⟩ ⟨second⟩ clears
  have eight : eightfold first = eightfold second ↔
      UPoint.SameUpToSmallOrder ⟨first⟩ ⟨second⟩ :=
    UPoint.mulBits_eq_iff ⟨first⟩ ⟨second⟩ Curve.clearsSmallOrder_eight
  exact ⟨secret.trans eight.symm, eight⟩

end Curve25519
