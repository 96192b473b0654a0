import Curve25519.Curve.Ladder
import Curve25519.Proofs.Curve.Params
import Curve25519.Proofs.Limbs.Encoding
import Curve25519.Proofs.Limbs.Power

/-! The ladder on limbs and the textbook ladder.
The exchange that each bit puts off is the pending one of the relation: exchanged as the bit before
says, the state denotes the rungs. The differential sum does not depend on the order of its
arguments, and so not on which rung the exchanges have put first. -/

namespace Curve25519
open Limbs (Denotes)
open Montgomery (Rungs)

structure Projective.Denotes (x : Ratio Element) (point : Projective) : Prop where
  u : Limbs.Denotes 1 x.u point.u
  w : Limbs.Denotes 1 x.w point.w

/-- The limbs spell the fraction, and leave room for the sum of its two sides. A coordinate that has
not been reduced may do so, while each step reduces what it writes. -/
structure Projective.Spells (x : Ratio Element) (point : Projective) : Prop where
  u : point.u.element = x.u
  w : point.w.element = x.w
  room : Limbs.SumsBelow Limbs.factorBound point.u point.w

namespace Projective

def ratio (point : Projective) : Ratio Element := ⟨point.u.element, point.w.element⟩

theorem Spells.ratio_eq {x : Ratio Element} {point : Projective} (spells : Spells x point) :
    point.ratio = x := by
  rw [ratio, spells.u, spells.w]

theorem Denotes.spells {x : Ratio Element} {point : Projective} (denotes : Denotes x point) :
    Spells x point :=
  ⟨denotes.u.element, denotes.w.element, denotes.u.sums denotes.w (by decide)⟩

theorem neutral_denotes : Denotes .neutral neutral := ⟨Limbs.one_denotes, Limbs.zero_denotes⟩

section Sides
variable {x : Ratio Element} {point : Projective} (spells : Spells x point)
include spells

theorem Spells.isFactor_u : Limbs.IsFactor x.u point.u := ⟨spells.room.left, spells.u⟩

theorem Spells.isFactor_w : Limbs.IsFactor x.w point.w := ⟨spells.room.right, spells.w⟩

theorem Spells.add : Returns (fun _ => Limbs.add point.u point.w) (Limbs.IsFactor (x.u + x.w)) := by
  rw [← spells.u, ← spells.w]
  exact Limbs.add_isFactor spells.room

theorem Spells.sub :
    Returns (fun _ => Limbs.sub point.u point.w) (Limbs.Denotes 1 (x.u - x.w)) :=
  spells.isFactor_u.sub spells.isFactor_w

end Sides

theorem ofAffine_spells {x : Element} {u : Limbs} (value : u.element = x)
    (room : Limbs.SumsBelow Limbs.factorBound u .one) : Spells (.ofAffine x) (ofAffine u) :=
  ⟨value, Limbs.one_denotes.element, room⟩

theorem Denotes.affine {x : Ratio Element} {point : Projective} (denotes : Denotes x point) :
    Returns (fun _ => point.affine) (fun bytes => bytes = encoding x.value) := by
  unfold Projective.affine
  refine (denotes.w.invert (by decide)).bind fun inverse hi => ?_
  exact (denotes.u.mul hi (by decide) (by decide)).bind fun product hp => hp.encode

end Projective

namespace LadderState

structure Denotes (rungs : Rungs Element) (state : LadderState) : Prop where
  first : Projective.Denotes rungs.first state.first
  second : Projective.Denotes rungs.second state.second

structure Spells (rungs : Rungs Element) (state : LadderState) : Prop where
  first : Projective.Spells rungs.first state.first
  second : Projective.Spells rungs.second state.second

theorem Denotes.spells {rungs : Rungs Element} {state : LadderState}
    (denotes : Denotes rungs state) : Spells rungs state :=
  ⟨denotes.first.spells, denotes.second.spells⟩

def rungs (state : LadderState) : Rungs Element := ⟨state.first.ratio, state.second.ratio⟩

/-- The limbs of either fraction leave room for the sum of its two sides, which is all that a step
asks of them. -/
structure Fits (state : LadderState) : Prop where
  first : Limbs.SumsBelow (2 ^ 54) state.first.u state.first.w
  second : Limbs.SumsBelow (2 ^ 54) state.second.u state.second.w

theorem Fits.spells {state : LadderState} (fits : Fits state) : Spells state.rungs state :=
  ⟨⟨rfl, rfl, fits.first⟩, ⟨rfl, rfl, fits.second⟩⟩

theorem Spells.fits {rungs : Rungs Element} {state : LadderState} (spells : Spells rungs state) :
    Fits state :=
  ⟨spells.first.room, spells.second.room⟩

theorem swapIf_swapIf (state : LadderState) (before bit : Bool) :
    (state.swapIf before).swapIf bit = state.swapIf (before != bit) := by
  cases before <;> cases bit <;> rfl

theorem Denotes.swap {rungs : Rungs Element} {state : LadderState} (denotes : Denotes rungs state) :
    Denotes ⟨rungs.second, rungs.first⟩ (state.swapIf true) :=
  ⟨denotes.second, denotes.first⟩

theorem Spells.swap {rungs : Rungs Element} {state : LadderState} (spells : Spells rungs state) :
    Spells ⟨rungs.second, rungs.first⟩ (state.swapIf true) :=
  ⟨spells.second, spells.first⟩

variable {x : Element} {difference : Limbs}

theorem Spells.doubleAndAdd {rungs : Rungs Element} {state : LadderState}
    (spells : Spells rungs state) (known : Limbs.IsFactor x difference) :
    Returns (fun _ => doubleAndAdd difference state) (Denotes
      ⟨rungs.first.double Curve.montgomery.doublingFactor,
        rungs.first.add x rungs.second⟩) := by
  have factor := Curve.doublingFactor_denotes
  obtain ⟨first, second⟩ := spells
  unfold LadderState.doubleAndAdd
  refine first.add.bind fun pSum hpSum => ?_
  refine first.sub.bind fun pDiff hpDiff => ?_
  refine second.add.bind fun qSum hqSum => ?_
  refine second.sub.bind fun qDiff hqDiff => ?_
  refine hpSum.square.bind fun sumSquare hs => ?_
  refine (hpDiff.square (by decide)).bind fun diffSquare hd => ?_
  refine (hs.sub hd (by decide) (by decide)).bind fun fourUW hf => ?_
  refine (hpSum.mul (hqDiff.isFactor (by decide))).bind fun cross hc => ?_
  refine ((hpDiff.isFactor (by decide)).mul hqSum).bind fun cross' hc' => ?_
  refine (hc.add hc' (by decide)).bind fun crossSum h => ?_
  refine (h.square (by decide)).bind fun sumU hu => ?_
  refine (hc.sub hc' (by decide) (by decide)).bind fun crossDiff h' => ?_
  refine (h'.square (by decide)).bind fun sumW hw => ?_
  refine (factor.mul hf (by decide) (by decide)).bind fun scaled hk => ?_
  refine (hs.mul hd (by decide) (by decide)).bind fun doubleU hdu => ?_
  refine (hk.add hd (by decide)).bind fun lower hl => ?_
  refine (hf.mul hl (by decide) (by decide)).bind fun doubleW hdw => ?_
  refine (known.mul (hw.isFactor (by decide))).bind fun scaledW hsw => ?_
  exact .pure _ ⟨⟨hdu, hdw⟩, ⟨hu, hsw⟩⟩

theorem Spells.step {rungs : Rungs Element} {state : LadderState} (spells : Spells rungs state)
    (known : Limbs.IsFactor x difference) (bit : Bool) :
    Returns (fun _ => LadderState.doubleAndAdd difference (state.swapIf bit)) (fun next =>
      Denotes (rungs.step Curve.montgomery.doublingFactor x bit) (next.swapIf bit)) := by
  cases bit with
  | false => exact spells.doubleAndAdd known
  | true =>
    refine (spells.swap.doubleAndAdd known).mono fun next doubled => ?_
    have swapped := doubled.swap
    rw [Ratio.add_comm] at swapped
    exact swapped

/-- Through all the bits, the state that is exchanged as the last bit says denotes the rungs. -/
theorem run_returns (known : Limbs.IsFactor x difference) (bits : List Bool) (before : Bool)
    (rungs : Rungs Element) (state : LadderState) (denotes : Denotes rungs (state.swapIf before)) :
    Returns (fun _ => run difference bits before state)
      (Denotes (bits.foldl (Rungs.step Curve.montgomery.doublingFactor x) rungs)) := by
  induction bits generalizing before rungs state with
  | nil => exact .pure _ denotes
  | cons bit rest ih =>
    have step := denotes.spells.step known bit
    rw [swapIf_swapIf] at step
    exact step.bind fun next stepped => ih bit _ next stepped

end LadderState

/-- The ladder on limbs climbs the rungs of the textbook ladder. The coordinate that it starts from
may be any that leaves room for one to be added, and is all that it ever leaves unreduced. -/
theorem ladder_returns {x : Element} {u : Limbs} (value : u.element = x)
    (room : Limbs.SumsBelow Limbs.factorBound u .one) (bits : List Bool) :
    let rungs := Rungs.climb Curve.montgomery.doublingFactor x bits
    Returns (fun _ => ladder u bits) (fun state =>
      Projective.Denotes rungs.first state.first ∧ Projective.Spells rungs.second state.second) := by
  intro rungs
  have start := Projective.ofAffine_spells value room
  have known : Limbs.IsFactor x u := ⟨room.left, value⟩
  unfold ladder
  cases bits with
  | nil => exact .pure _ ⟨Projective.neutral_denotes, start⟩
  | cons bit rest =>
    have spells : LadderState.Spells ⟨.neutral, .ofAffine x⟩
        (LadderState.swapIf false ⟨.neutral, .ofAffine u⟩) :=
      ⟨Projective.neutral_denotes.spells, start⟩
    have step := spells.step known bit
    rw [LadderState.swapIf_swapIf] at step
    have run : Returns (fun _ => LadderState.run u (bit :: rest) false ⟨.neutral, .ofAffine u⟩)
        (LadderState.Denotes rungs) :=
      step.bind fun next stepped => LadderState.run_returns known rest bit _ next stepped
    exact run.mono fun state denotes => ⟨denotes.first, denotes.second.spells⟩

/-- The exchanges that are put off change nothing: the two fractions that the ladder ends with are
those of the textbook ladder, which leaves each where it is and, for each bit, doubles the one that
the bit selects and replaces the other by their sum. -/
theorem ladder_rungs (u : Limbs) (room : Limbs.SumsBelow (2 ^ 54) u .one) (bits : List Bool) :
    Returns (fun _ => ladder u bits)
      (fun state => state.rungs = Rungs.climb 121666 u.element bits) := by
  have climbed := ladder_returns rfl room bits
  rw [Curve.doublingFactor_montgomery] at climbed
  apply climbed.mono
  intro state given
  obtain ⟨first, second⟩ := given
  rw [LadderState.rungs, first.spells.ratio_eq, second.ratio_eq]

/-- From the coordinate zero, here in the limbs of the modulus, the first sum is no fraction at
all. -/
theorem ladder_rungs_modulus :
    Limbs.SumsBelow (2 ^ 54) (.ofNat prime) .one ∧
      (Id.run (ladder (.ofNat prime) [true])).rungs = ⟨⟨0, 0⟩, ⟨1, 0⟩⟩ := by
  have room : Limbs.SumsBelow (2 ^ 54) (.ofNat prime) .one := by decide
  have zero : (Limbs.ofNat prime).element = 0 := by
    rw [Limbs.element, Limbs.toNat_ofNat (by decide), ZMod.natCast_self]
  have climbed := (ladder_rungs (.ofNat prime) room [true]).run
  rw [zero] at climbed
  refine ⟨room, climbed.trans ?_⟩
  simp [Rungs.climb, Rungs.step, Ratio.add, Ratio.double, Ratio.neutral, Ratio.ofAffine]

end Curve25519
