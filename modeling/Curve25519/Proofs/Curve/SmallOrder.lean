import Curve25519.Proofs.Curve.BasePoint
import Curve25519.Proofs.Montgomery.Torsion
import Curve25519.Proofs.Squares

/-! Points of small order by their coordinates.
On the curve and on its twists the points whose order divides eight are those with a listed
coordinate or with the coordinate minus one. The first belong to the curve, where no public key of a
clamped secret is among them; minus one belongs to the twist. -/

namespace Curve25519.Curve
open Montgomery

def rootAPlusTwo : Element :=
  48802004052532134862652268456126542835229456083994414501085850622543968879637

theorem rootAPlusTwo_sq : rootAPlusTwo ^ 2 = a + 2 := by decide +kernel

theorem a_sub_two_not_isSquare : ¬IsSquare (a - 2) := by
  intro square
  apply a_sq_sub_four_not_isSquare
  have product : a ^ 2 - 4 = rootAPlusTwo ^ 2 * (a - 2) := by
    rw [rootAPlusTwo_sq]
    ring
  rw [product]
  exact (IsSquare.sq _).mul square

def orderEightU : Element := orderEightNat

def orderEightU' : Element := orderEightNat'

theorem orderEight_quadratic (x : Element) :
    (x - 1) ^ 2 - rootAPlusTwo * (2 * x) = (x - orderEightU) * (x - orderEightU') := by
  have sum : orderEightU + orderEightU' = 2 + 2 * rootAPlusTwo := by decide +kernel
  have product : orderEightU * orderEightU' = 1 := by decide +kernel
  linear_combination x * sum - product

/-- The other quadratic factor has no root, as its discriminant is not a square. -/
theorem orderEight_quadratic_ne_zero (x : Element) :
    (x - 1) ^ 2 + rootAPlusTwo * (2 * x) ≠ 0 := by
  have discriminant : ¬IsSquare (rootAPlusTwo * (rootAPlusTwo - 2)) :=
    not_isSquare_of_powerMod (rootAPlusTwo * (rootAPlusTwo - 2)) (by decide +kernel)
  intro root
  have square : (x - (1 - rootAPlusTwo)) ^ 2 = rootAPlusTwo * (rootAPlusTwo - 2) := by
    linear_combination root
  rw [← square] at discriminant
  exact discriminant (IsSquare.sq _)

theorem quartic_eq_iff (x : Element) :
    ((x - 1) ^ 2) ^ 2 = (a + 2) * (2 * x) ^ 2 ↔ x = orderEightU ∨ x = orderEightU' := by
  have factors : ((x - 1) ^ 2) ^ 2 - (a + 2) * (2 * x) ^ 2 =
      ((x - orderEightU) * (x - orderEightU')) * ((x - 1) ^ 2 + rootAPlusTwo * (2 * x)) := by
    rw [← orderEight_quadratic, ← rootAPlusTwo_sq]
    ring
  rw [← sub_eq_zero, factors, mul_eq_zero, or_iff_left (orderEight_quadratic_ne_zero x),
    mul_eq_zero, sub_eq_zero, sub_eq_zero]

theorem quartic_ne (x : Element) : ((x + 1) ^ 2) ^ 2 ≠ (2 - a) * (2 * x) ^ 2 := by
  intro root
  by_cases zero : x = 0
  · rw [zero, mul_zero, zero_pow two_ne_zero, mul_zero, zero_add, one_pow, one_pow] at root
    exact one_ne_zero root
  · have square : IsSquare ((2 * x) ^ 2 * (2 - a)) :=
      ⟨(x + 1) ^ 2, by rw [mul_comm, ← root, sq ((x + 1) ^ 2)]⟩
    rw [isSquare_mul_iff (IsSquare.sq _) (pow_ne_zero 2 (mul_ne_zero two_ne_zero zero)),
      ← isSquare_neg_iff, neg_sub] at square
    exact a_sub_two_not_isSquare square

theorem encoding_eq_ofNat_iff {x : Element} {n : Nat} (below : n < prime) :
    encoding x = .ofNat n ↔ x = (n : Element) := by
  have same : encoding (n : Element) = .ofNat n := by
    rw [encoding, ZMod.val_natCast_of_lt below]
  rw [← same, encoding_injective.eq_iff]

theorem encoding_mem_smallOrder_iff (x : Element) :
    encoding x ∈ smallOrder ↔ x = 0 ∨ x = 1 ∨ x = orderEightU ∨ x = orderEightU' := by
  simp only [smallOrder, List.mem_cons, List.not_mem_nil, or_false]
  rw [encoding_eq_ofNat_iff (by decide), encoding_eq_ofNat_iff (by decide),
    encoding_eq_ofNat_iff (by decide), encoding_eq_ofNat_iff (by decide), Nat.cast_zero,
    Nat.cast_one]
  rfl

/-- On the curve and its twists alike, the order of a point divides eight where its coordinate is
listed or minus one. -/
theorem eight_nsmul_eq_zero_iff_mem {d : Element} {nonzero : d ≠ 0}
    (P : (twisted d nonzero).Point) :
    8 • P = 0 ↔ encoding (u P) ∈ smallOrder ∨ u P = -1 := by
  have law := eight_nsmul_eq_zero_iff (M := twisted d nonzero) quadratic_ne_zero P
  change _ ↔ _ ∨ _ ∨ ((u P - 1) ^ 2) ^ 2 = (a + 2) * (2 * u P) ^ 2 ∨
    ((u P + 1) ^ 2) ^ 2 = (2 - a) * (2 * u P) ^ 2 at law
  rw [law, quartic_eq_iff, or_iff_left (quartic_ne (u P)), sq_eq_one_iff,
    encoding_mem_smallOrder_iff]
  grind

theorem cubic_neg_one_not_isSquare : ¬IsSquare (cubic (-1)) := by
  have value : cubic (-1) = a - 2 := by
    rw [cubic]
    ring
  rw [value]
  exact a_sub_two_not_isSquare

theorem u_ne_neg_one (P : montgomery.Point) : u P ≠ -1 := by
  intro same
  have square := (exists_point_iff one_ne_zero (u P)).mp ⟨P, rfl⟩
  rw [same, one_mul] at square
  exact cubic_neg_one_not_isSquare square

theorem eight_nsmul_eq_zero_iff_listed (P : montgomery.Point) :
    8 • P = 0 ↔ encoding (u P) ∈ smallOrder :=
  (eight_nsmul_eq_zero_iff_mem P).trans (or_iff_left (u_ne_neg_one P))

theorem clamped_not_smallOrder (key : Bytes32) :
    encoding (u (Scalar.clampedNat key • basePoint)) ∉ smallOrder := fun listed =>
  eight_nsmul_clamped_ne_zero key ((eight_nsmul_eq_zero_iff_listed _).mpr listed)

end Curve25519.Curve
