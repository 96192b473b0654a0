import Curve25519.Proofs.Curve.VCoordinate

/-! One step of the ladder for points of the curve or of a twist.
The two points may be any, small order and the neutral element included: only their difference must
have a u-coordinate other than zero. Then neither fraction that is written is two zeros, so that the
next step starts from two points again. -/

namespace Curve25519
open Limbs (IsFactor)
open Montgomery (u Represents)

theorem represents_ofAffine {M : Montgomery Element} {P : M.Point} {coordinate : Limbs}
    (nonzero : P ≠ 0) (value : coordinate.element = u P) :
    Represents (Projective.ofAffine coordinate).ratio P := by
  have affine := Represents.ofAffine nonzero
  rw [← value, Ratio.ofAffine, ← Limbs.one_denotes.element] at affine
  exact affine

namespace LadderState

section Step
variable {d : Element} {nonzero : d ≠ 0} {R S : (Curve.twisted d nonzero).Point}

/-- The two fractions represent the points, in limbs with room for a step. -/
structure Carries (R S : (Curve.twisted d nonzero).Point) (state : LadderState) : Prop where
  fits : state.Fits
  first : Represents state.first.ratio R
  second : Represents state.second.ratio S

theorem Carries.swap {state : LadderState} (given : Carries R S state) :
    Carries S R ⟨state.second, state.first⟩ :=
  ⟨⟨given.fits.second, given.fits.first⟩, given.second, given.first⟩

theorem Carries.doubleAndAdd {state : LadderState} {difference : Limbs}
    (given : Carries R S state) (apart : u (R - S) ≠ 0)
    (known : IsFactor (u (R - S)) difference) :
    Returns (fun _ => LadderState.doubleAndAdd difference state) (fun next =>
      Carries (2 • R) (R + S) next ∧
      next.second.ratio = state.first.ratio.add (u (R - S)) state.second.ratio) := by
  apply (given.fits.spells.doubleAndAdd known).mono
  intro next stepped
  have spells := stepped.spells
  have double : next.first.ratio = state.first.ratio.double Curve.montgomery.doublingFactor :=
    spells.first.ratio_eq
  have sum : next.second.ratio = state.first.ratio.add (u (R - S)) state.second.ratio :=
    spells.second.ratio_eq
  constructor
  · constructor
    · exact spells.fits
    · rw [double, two_nsmul]
      exact given.first.double
    · rw [sum]
      exact given.first.add given.second apart
  · exact sum

end Step

/-- A step is complete. Whichever two points the registers represent, as long as their difference is
neither the neutral element nor the point of order two, they come to represent twice the first point
and the sum, and are not two zeros. With the registers exchanged the difference is the opposite one,
of the same coordinate, and the sum comes out as the same fraction. -/
theorem doubleAndAdd_complete {d : Element} {nonzero : d ≠ 0}
    (R S : (Curve.twisted d nonzero).Point) (apart : R - S ≠ 0)
    (apart' : R - S ≠ Montgomery.orderTwo (Curve.twisted d nonzero)) (state : LadderState)
    (fits : state.Fits) (first : Represents state.first.ratio R)
    (second : Represents state.second.ratio S) (difference opposite : Limbs)
    (known : IsFactor (u (R - S)) difference) (known' : IsFactor (u (S - R)) opposite) :
    Returns (fun _ => doubleAndAdd difference state) (fun next =>
      next.Fits ∧
      next.first.ratio ≠ ⟨0, 0⟩ ∧ Represents next.first.ratio (2 • R) ∧
      next.second.ratio ≠ ⟨0, 0⟩ ∧ Represents next.second.ratio (R + S) ∧
      Returns (fun _ => doubleAndAdd opposite ⟨state.second, state.first⟩) (fun exchanged =>
        exchanged.Fits ∧
        exchanged.first.ratio ≠ ⟨0, 0⟩ ∧ Represents exchanged.first.ratio (2 • S) ∧
        exchanged.second.ratio = next.second.ratio)) := by
  have carries : Carries R S state := ⟨fits, first, second⟩
  have coordinate : u (R - S) ≠ 0 := by
    rw [ne_eq, Montgomery.u_eq_zero_iff, not_or]
    exact ⟨apart, apart'⟩
  have coordinate' : u (S - R) = u (R - S) := by
    rw [← neg_sub, Montgomery.u_neg]
  apply (carries.doubleAndAdd coordinate known).mono
  intro next stepped
  obtain ⟨carried, sum⟩ := stepped
  refine ⟨carried.fits, carried.first.ne_zero, carried.first, carried.second.ne_zero,
    carried.second, ?_⟩
  have exchange : u (S - R) ≠ 0 := by
    rw [coordinate']
    exact coordinate
  apply (carries.swap.doubleAndAdd exchange known').mono
  intro exchanged stepped'
  obtain ⟨carried', sum'⟩ := stepped'
  refine ⟨carried'.fits, carried'.first.ne_zero, carried'.first, ?_⟩
  rw [sum', sum, coordinate', Ratio.add_comm]

theorem doubleAndAdd_complete_orderFour :
    let P := Curve.orderFourPoint
    let state : LadderState := ⟨.ofAffine .one, .ofAffine .zero⟩
    let next := Id.run (doubleAndAdd .one state)
    P - 2 • P ≠ 0 ∧ P - 2 • P ≠ Montgomery.orderTwo _ ∧
      Represents state.first.ratio P ∧ Represents state.second.ratio (2 • P) ∧
      Represents next.first.ratio (2 • P) ∧ Represents next.second.ratio (P + 2 • P) := by
  intro P state next
  have coordinate : u P = 1 := Curve.u_orderFourPoint
  have coordinate' : u (2 • P) = 0 := by
    rw [Curve.two_nsmul_orderFourPoint]
    exact Montgomery.u_point _ _ _
  have finite : 2 • P ≠ 0 := by
    rw [Curve.two_nsmul_orderFourPoint]
    exact Montgomery.point_ne_zero _ _ _
  have difference : u (P - 2 • P) = 1 := by
    rw [two_nsmul, sub_add_cancel_left, Montgomery.u_neg, coordinate]
  have difference' : u (2 • P - P) = 1 := by
    rw [two_nsmul, add_sub_cancel_right, coordinate]
  have apart : ¬(P - 2 • P = 0 ∨ P - 2 • P = Montgomery.orderTwo _) := by
    rw [← Montgomery.u_eq_zero_iff, difference]
    exact one_ne_zero
  rw [not_or] at apart
  have first : Represents state.first.ratio P :=
    represents_ofAffine (Montgomery.point_ne_zero _ _ _)
      (Limbs.one_denotes.element.trans coordinate.symm)
  have second : Represents state.second.ratio (2 • P) :=
    represents_ofAffine finite (Limbs.zero_denotes.element.trans coordinate'.symm)
  have known : IsFactor (u (P - 2 • P)) Limbs.one := by
    rw [difference]
    exact Limbs.one_denotes.isFactor (by decide)
  have known' : IsFactor (u (2 • P - P)) Limbs.one := by
    rw [difference']
    exact Limbs.one_denotes.isFactor (by decide)
  have complete := (doubleAndAdd_complete (d := 1) P (2 • P) apart.1 apart.2 state
    ⟨by decide, by decide⟩ first second .one .one known known').run
  obtain ⟨-, -, double, -, sum, -⟩ := complete
  exact ⟨apart.1, apart.2, first, second, double, sum⟩

end LadderState

end Curve25519
