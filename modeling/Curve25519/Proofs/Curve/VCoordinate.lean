import Curve25519.Curve.VCoordinate
import Curve25519.Proofs.Curve.Ladder
import Curve25519.Proofs.Curve.SmallOrder
import Curve25519.Proofs.Montgomery.Recovery

/-! The recovery of v on limbs. Its sums stay below the limit of a factor, and a denominator of zero
inverts to zero. So the v-coordinate of every multiple comes out right, but for zero where the
multiple or the next one is the neutral element. -/

namespace Curve25519
open Limbs (IsFactor SumsBelow factorBound)
open Montgomery (u v Rungs)

namespace LadderState

section Recovery
variable {rungs : Rungs Element} {state : LadderState} {x y : Element} {pointU pointV : Limbs}
  (lower : Projective.Denotes rungs.first state.first)
  (upper : Projective.Spells rungs.second state.second) (first : IsFactor x pointU)
  (second : pointV.element = y) (room : SumsBelow factorBound pointV pointV)
include lower upper first second room

/-- What is returned is the quotient of the chord law, whatever the rungs. -/
theorem vCoordinate_returns :
    Returns (fun _ => vCoordinate pointU pointV state) (Limbs.Denotes 1
      (rungs.chordNumerator Curve.a x * (rungs.chordDenominator y)⁻¹)) := by
  have a := Curve.coefficient_denotes
  have su := upper.isFactor_u
  have sw := upper.isFactor_w
  obtain ⟨qu, qw⟩ := lower
  rw [← second]
  unfold vCoordinate
  refine (a.add a (by decide)).bind fun twoA h2a => ?_
  refine (first.mul (qw.isFactor (by decide))).bind fun scaledU hsu => ?_
  refine (qu.add hsu (by decide)).bind fun uPlus hup => ?_
  refine (qu.sub hsu (by decide) (by decide)).bind fun uMinus hum => ?_
  refine (hum.square (by decide)).bind fun minusSquare hms => ?_
  refine ((hms.isFactor (by decide)).mul su).bind fun chordTerm hct => ?_
  refine (h2a.mul qw (by decide) (by decide)).bind fun twoAW h2aw => ?_
  refine (hup.add h2aw (by decide)).bind fun left hl => ?_
  refine (first.mul (qu.isFactor (by decide))).bind fun product hp => ?_
  refine (hp.add qw (by decide)).bind fun right hr => ?_
  refine (hl.mul hr (by decide) (by decide)).bind fun cross hc => ?_
  refine (h2aw.mul qw (by decide) (by decide)).bind fun twoAWW h2aww => ?_
  refine (hc.sub h2aww (by decide) (by decide)).bind fun bracket hb => ?_
  refine ((hb.isFactor (by decide)).mul sw).bind fun raised hra => ?_
  refine (hra.sub hct (by decide) (by decide)).bind fun numerator hn => ?_
  refine (Limbs.add_isFactor room).bind fun twoV h2v => ?_
  refine (h2v.mul (qw.isFactor (by decide))).bind fun twoVW h2vw => ?_
  refine ((h2vw.isFactor (by decide)).mul sw).bind fun scale hs => ?_
  refine (hs.mul qw (by decide) (by decide)).bind fun denominator hd => ?_
  refine (hd.invert (by decide)).bind fun inverse hi => ?_
  simp only [Rungs.chordNumerator, Rungs.chordDenominator, two_mul]
  exact hn.mul hi (by decide) (by decide)

theorem vCoordinate_returns_of_holds {P : Curve.montgomery.Point} {n : Nat}
    (holds : Rungs.Holds P n rungs) (nonzero : v P ≠ 0) (sameU : u P = x) (sameV : v P = y) :
    Returns (fun _ => vCoordinate pointU pointV state) (Limbs.Denotes 1
      (if n • P = 0 ∨ (n + 1) • P = 0 then 0 else v (n • P))) := by
  have quotient := holds.recover nonzero
  have one : Curve.montgomery.twist = 1 := rfl
  rw [one, one_mul, sameU, sameV] at quotient
  rw [← quotient]
  exact vCoordinate_returns lower upper first second room

end Recovery

end LadderState

/-- The ladder and the recovery of v after it give the v-coordinate of every multiple of a point whose
own v-coordinate is not zero, as long as neither the multiple nor the next one is the neutral element;
where one of them is, they give zero. The limbs of the point may be any with room for the sums that
are taken of them. -/
theorem ladder_vCoordinate (P : Curve.montgomery.Point) (nonzero : v P ≠ 0) (bits : List Bool)
    (pointU pointV : Limbs) (first : pointU.element = u P) (second : pointV.element = v P)
    (roomU : SumsBelow (2 ^ 54) pointU .one) (roomV : SumsBelow (2 ^ 54) pointV pointV) :
    let n := bitsToNat bits
    Returns (fun _ => do (← ladder pointU bits).vCoordinate pointU pointV) (fun recovered =>
      (n • P ≠ 0 → (n + 1) • P ≠ 0 → recovered.element = v (n • P)) ∧
      (n • P = 0 ∨ (n + 1) • P = 0 → recovered.element = 0)) := by
  intro n
  have apart : u P ≠ 0 := fun zero => nonzero (Montgomery.v_eq_zero_of_u_eq_zero zero)
  have holds : Rungs.Holds P n _ := Rungs.climb_holds apart bits
  refine (ladder_returns first roomU bits).bind fun state denotes => ?_
  obtain ⟨lower, upper⟩ := denotes
  have known : IsFactor (u P) pointU := ⟨roomU.left, first⟩
  apply (LadderState.vCoordinate_returns_of_holds lower upper known second roomV holds nonzero
    rfl rfl).mono
  intro recovered given
  constructor
  · intro lowerNonzero upperNonzero
    exact given.element.trans (if_neg (not_or.mpr ⟨lowerNonzero, upperNonzero⟩))
  · intro degenerate
    exact given.element.trans (if_pos degenerate)

def Curve.orderFourPoint : Curve.montgomery.Point :=
  Montgomery.point 1 rootAPlusTwo (by
    change 1 * rootAPlusTwo ^ 2 = 1 ^ 3 + a * 1 ^ 2 + 1
    rw [rootAPlusTwo_sq]
    ring)

theorem Curve.u_orderFourPoint : u orderFourPoint = 1 := Montgomery.u_point _ _ _

theorem Curve.v_orderFourPoint : v orderFourPoint = rootAPlusTwo := Montgomery.v_point _ _ _

theorem Curve.v_orderFourPoint_ne_zero : v orderFourPoint ≠ 0 := by
  rw [v_orderFourPoint]
  decide +kernel

theorem Curve.two_nsmul_orderFourPoint : 2 • orderFourPoint = montgomery.orderTwo := by
  have finite : 2 • orderFourPoint ≠ 0 := by
    rw [two_nsmul, ne_eq, Montgomery.add_self_eq_zero_iff]
    exact v_orderFourPoint_ne_zero
  have coordinate : u (2 • orderFourPoint) = 0 := by
    rw [Montgomery.u_two_nsmul_eq_zero_iff (M := montgomery) quadratic_ne_zero, u_orderFourPoint,
      one_pow]
    exact .inr rfl
  exact ((Montgomery.u_eq_zero_iff _).mp coordinate).resolve_left finite

/-- Once the point of order four is the point itself; three times it is opposite to it, so that the
next multiple is the neutral element. -/
theorem ladder_vCoordinate_orderFour :
    let pointV := Limbs.ofNat Curve.rootAPlusTwo.val
    let recovered (bits : List Bool) :=
      (Id.run (do (← ladder Limbs.one bits).vCoordinate Limbs.one pointV)).element
    v Curve.orderFourPoint ≠ 0 ∧ recovered [true] = v Curve.orderFourPoint ∧
      recovered [true, true] = 0 := by
  intro pointV recovered
  have nonzero := Curve.v_orderFourPoint_ne_zero
  have first : Limbs.one.element = u Curve.orderFourPoint :=
    Limbs.one_denotes.element.trans Curve.u_orderFourPoint.symm
  have second : pointV.element = v Curve.orderFourPoint := by
    rw [Curve.v_orderFourPoint]
    exact (Limbs.ofNat_val_denotes _).element
  have twice : 2 • Curve.orderFourPoint ≠ 0 := by
    rw [Curve.two_nsmul_orderFourPoint]
    exact Montgomery.point_ne_zero _ _ _
  have fourfold : 4 • Curve.orderFourPoint = 0 := by
    apply (Montgomery.four_nsmul_eq_zero_iff (M := Curve.montgomery) Curve.quadratic_ne_zero _).mpr
    rw [Curve.u_orderFourPoint, one_pow]
    exact .inr rfl
  have law (bits : List Bool) {n : Nat} (spelled : bitsToNat bits = n) :
      (n • Curve.orderFourPoint ≠ 0 → (n + 1) • Curve.orderFourPoint ≠ 0 →
        recovered bits = v (n • Curve.orderFourPoint)) ∧
      (n • Curve.orderFourPoint = 0 ∨ (n + 1) • Curve.orderFourPoint = 0 →
        recovered bits = 0) := by
    subst spelled
    exact (ladder_vCoordinate Curve.orderFourPoint nonzero bits Limbs.one pointV first second
      (by decide) (by decide)).run
  have once := (law [true] (n := 1) (by decide)).1
  have thrice := (law [true, true] (n := 3) (by decide)).2
  rw [one_nsmul] at once
  exact ⟨nonzero, once (Montgomery.point_ne_zero _ _ _) twice, thrice (.inr fourfold)⟩

end Curve25519
