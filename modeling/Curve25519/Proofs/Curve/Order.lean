import Curve25519.Proofs.Curve.SmallOrder
import Curve25519.Proofs.Montgomery.Count

/-! The number of points of the curve and of its twist, and which integers clear points of small order.
The curve has points of the prime order l and of order eight, so that 8 l divides the number of its
points; of the 2 p + 2 points that it shares with the twist there is room for one such multiple. What
is left is four times a prime. Neither prime divides a clamped integer, and so a clamped multiple of
a point has the coordinate zero just where the order of the point divides eight, and two have the same
where that of the sum or the difference does. -/

namespace Curve25519.Curve
open Montgomery

section Count

theorem card_add_card_twist :
    Nat.card montgomery.Point + Nat.card (twisted 2 two_ne_zero).Point = 2 * prime + 2 := by
  have curve : quadraticChar Element 1 = 1 := map_one _
  have twist : quadraticChar Element 2 = -1 :=
    quadraticChar_neg_one_iff_not_isSquare.mpr two_not_isSquare
  have opposite : quadraticChar Element 2 = -quadraticChar Element 1 :=
    twist.trans (congrArg Neg.neg curve.symm)
  have total := card_add_card (M := montgomery) (N := twisted 2 two_ne_zero) rfl opposite
  have size : Fintype.card Element = prime := ZMod.card prime
  rw [size] at total
  exact total

def orderEightV : Element :=
  32026303591712962751241307547882981359278212717910236697706316503764922500307

theorem orderEight_onCurve : montgomery.OnCurve orderEightU orderEightV := by
  change 1 * orderEightV ^ 2 = orderEightU ^ 3 + a * orderEightU ^ 2 + orderEightU
  decide +kernel

def orderEightPoint : montgomery.Point := point orderEightU orderEightV orderEight_onCurve

theorem addOrderOf_orderEightPoint : addOrderOf orderEightPoint = 8 := by
  have coordinate : u orderEightPoint = orderEightU := u_point _ _ _
  apply addOrderOf_eq_prime_pow (p := 2) (n := 2)
  · rw [show 2 ^ 2 = 4 from rfl,
      four_nsmul_eq_zero_iff (M := montgomery) quadratic_ne_zero orderEightPoint, coordinate]
    decide +kernel
  · apply (eight_nsmul_eq_zero_iff_listed orderEightPoint).mpr
    rw [encoding_mem_smallOrder_iff]
    exact .inr (.inr (.inl coordinate))

theorem card_montgomery : Nat.card montgomery.Point = 8 * basePointOrder := by
  have eight : 8 ∣ Nat.card montgomery.Point :=
    addOrderOf_orderEightPoint ▸ addOrderOf_dvd_natCard orderEightPoint
  have large : basePointOrder ∣ Nat.card montgomery.Point :=
    addOrderOf_basePoint ▸ addOrderOf_dvd_natCard basePoint
  have total := card_add_card_twist
  have size : 2 * prime + 2 < 2 * (8 * basePointOrder) := by decide
  exact eq_eight_mul_basePointOrder Nat.card_pos.ne' eight large (by omega)

theorem card_twist : Nat.card (twisted 2 two_ne_zero).Point = 4 * twistOrder := by
  have total := card_add_card_twist
  have shares : 8 * basePointOrder + 4 * twistOrder = 2 * prime + 2 := by decide
  rw [card_montgomery] at total
  omega

end Count

section Clearing

theorem nsmul_eq_zero_of_dvd {G : Type} [AddGroup G] {m n : Nat} (divides : m ∣ n) {P : G}
    (zero : m • P = 0) : n • P = 0 :=
  addOrderOf_dvd_iff_nsmul_eq_zero.mp ((addOrderOf_dvd_of_nsmul_eq_zero zero).trans divides)

/-- In a group whose order divides 8 q, what an integer that is no multiple of the prime q takes to
zero is taken there by eight. -/
theorem eight_nsmul_eq_zero_of_nsmul {G : Type} [AddGroup G] {q n : Nat} (prime : q.Prime)
    (order : Nat.card G ∣ 8 * q) (free : ¬q ∣ n) {P : G} (zero : n • P = 0) : 8 • P = 0 := by
  rw [← addOrderOf_dvd_iff_nsmul_eq_zero] at zero ⊢
  have coprime : Nat.Coprime q (addOrderOf P) :=
    prime.coprime_iff_not_dvd.mpr fun divides => free (divides.trans zero)
  exact coprime.symm.dvd_of_dvd_mul_right ((addOrderOf_dvd_natCard P).trans order)

variable {d : Element} {nonzero : d ≠ 0} {q n : Nat} (prime : q.Prime)
  (order : Nat.card (twisted d nonzero).Point ∣ 8 * q) (eight : 8 ∣ n) (free : ¬q ∣ n)
include prime order eight free

theorem nsmul_eq_zero_iff_eight (P : (twisted d nonzero).Point) : n • P = 0 ↔ 8 • P = 0 :=
  ⟨eight_nsmul_eq_zero_of_nsmul prime order free, nsmul_eq_zero_of_dvd eight⟩

/-- A multiple of eight takes no point to the one of order two, so that its multiples with the
coordinate zero are the neutral element. -/
theorem u_nsmul_eq_zero_iff_eight (P : (twisted d nonzero).Point) :
    u (n • P) = 0 ↔ 8 • P = 0 := by
  constructor
  · intro zero
    have twice := two_nsmul_of_u_eq_zero zero
    have odd : ¬q ∣ 2 := fun two => free (two.trans ((by decide : 2 ∣ 8).trans eight))
    rw [← mul_nsmul] at twice
    refine eight_nsmul_eq_zero_of_nsmul prime order ?_ twice
    rw [prime.dvd_mul, not_or]
    exact ⟨free, odd⟩
  · intro zero
    rw [(nsmul_eq_zero_iff_eight prime order eight free P).mpr zero, u_zero]

/-- Two multiples have the same coordinate where eight takes the difference or the sum of the two
points to zero, which does not depend on the integer. -/
theorem u_nsmul_eq_iff_eight (P Q : (twisted d nonzero).Point) :
    u (n • P) = u (n • Q) ↔ 8 • (P - Q) = 0 ∨ 8 • (P + Q) = 0 := by
  have neutral (R : (twisted d nonzero).Point) : u (n • R) = 0 ↔ n • R = 0 := by
    rw [u_nsmul_eq_zero_iff_eight prime order eight free,
      nsmul_eq_zero_iff_eight prime order eight free]
  -- The coordinate zero may be that of the point of order two, but no such multiple is that point.
  have signs : u (n • P) = u (n • Q) ↔ n • P = n • Q ∨ n • P = -(n • Q) := by
    by_cases first : n • P = 0
    · rw [first, u_zero, zero_eq_neg, eq_comm, neutral, eq_comm, or_self]
    · by_cases second : n • Q = 0
      · rw [second, u_zero, neutral, neg_zero, or_self]
      · exact u_eq_iff first second
  rw [signs, ← sub_eq_zero, ← nsmul_sub, eq_neg_iff_add_eq_zero, ← nsmul_add,
    nsmul_eq_zero_iff_eight prime order eight free,
    nsmul_eq_zero_iff_eight prime order eight free]

end Clearing

section Cofactor

/-- An integer that takes just the points of small order to the neutral element, on the curve and on
its twist: a multiple of eight, but of the prime order of neither. -/
structure ClearsSmallOrder (n : Nat) : Prop where
  eight : 8 ∣ n
  curve : ¬basePointOrder ∣ n
  twist : ¬twistOrder ∣ n

theorem clearsSmallOrder_eight : ClearsSmallOrder 8 := by
  constructor <;> decide

theorem clearsSmallOrder_clampedNat (key : Bytes32) :
    ClearsSmallOrder (Scalar.clampedNat key) where
  eight := Scalar.eight_dvd_clampedNat key
  curve := not_dvd_clampedNat key
  twist := Scalar.not_dvd_clampedNat (by decide +kernel) (by decide) key

theorem card_montgomery_dvd : Nat.card montgomery.Point ∣ 8 * basePointOrder :=
  dvd_of_eq card_montgomery

theorem card_twist_dvd : Nat.card (twisted 2 two_ne_zero).Point ∣ 8 * twistOrder :=
  card_twist ▸ Nat.mul_dvd_mul_right (by decide) twistOrder

namespace ClearsSmallOrder
variable {n : Nat} (clears : ClearsSmallOrder n)
include clears

theorem u_nsmul_montgomery_eq_zero_iff (P : montgomery.Point) :
    u (n • P) = 0 ↔ encoding (u P) ∈ smallOrder ∨ u P = -1 := by
  have eightfold := u_nsmul_eq_zero_iff_eight basePointOrder_prime card_montgomery_dvd
    clears.eight clears.curve P
  exact eightfold.trans (eight_nsmul_eq_zero_iff_mem P)

theorem u_nsmul_twist_eq_zero_iff (P : (twisted 2 two_ne_zero).Point) :
    u (n • P) = 0 ↔ encoding (u P) ∈ smallOrder ∨ u P = -1 := by
  have eightfold := u_nsmul_eq_zero_iff_eight twistOrder_prime card_twist_dvd
    clears.eight clears.twist P
  exact eightfold.trans (eight_nsmul_eq_zero_iff_mem P)

theorem u_nsmul_montgomery_eq_iff (P Q : montgomery.Point) :
    u (n • P) = u (n • Q) ↔ 8 • (P - Q) = 0 ∨ 8 • (P + Q) = 0 :=
  u_nsmul_eq_iff_eight basePointOrder_prime card_montgomery_dvd clears.eight clears.curve P Q

theorem u_nsmul_twist_eq_iff (P Q : (twisted 2 two_ne_zero).Point) :
    u (n • P) = u (n • Q) ↔ 8 • (P - Q) = 0 ∨ 8 • (P + Q) = 0 :=
  u_nsmul_eq_iff_eight twistOrder_prime card_twist_dvd clears.eight clears.twist P Q

end ClearsSmallOrder

theorem exists_point_clears (x : Element) :
    ∃ (d : Element) (nonzero : d ≠ 0) (P : (twisted d nonzero).Point), u P = x ∧
      ∀ n, ClearsSmallOrder n → (u (n • P) = 0 ↔ encoding x ∈ smallOrder ∨ x = -1) := by
  rcases exists_point x with ⟨P, rfl⟩ | ⟨P, rfl⟩
  · exact ⟨1, one_ne_zero, P, rfl, fun n clears => clears.u_nsmul_montgomery_eq_zero_iff P⟩
  · exact ⟨2, two_ne_zero, P, rfl, fun n clears => clears.u_nsmul_twist_eq_zero_iff P⟩

end Cofactor

end Curve25519.Curve
