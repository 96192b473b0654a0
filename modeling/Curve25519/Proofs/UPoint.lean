import Curve25519.UPoint
import Curve25519.Proofs.Curve.BasePoint
import Curve25519.Proofs.Curve.VCoordinate

/-! Multiples of points by their u-coordinate.
Any octets are the coordinate of a point of the curve or of its twist, and what the ladder writes
is the coordinate of the multiple of that point. For the base point and a clamped key both
coordinates come out, except for the one key whose multiple is opposite to the base point: the next
multiple is then the neutral element, and the v-coordinate is lost. -/

namespace Curve25519
open Limbs (Denotes)
open Montgomery (u v Rungs)

namespace UPoint

def element (point : UPoint) : Element := (point.bytes.toNat % 2 ^ 255 : Nat)

theorem coordinate_denotes (point : UPoint) : Denotes 1 point.element point.coordinate :=
  Limbs.decode_denotes point.bytes

theorem element_encoding (x : Element) : element ⟨encoding x⟩ = x :=
  (coordinate_denotes ⟨encoding x⟩).element.symm.trans (Limbs.element_decode_encoding x)

theorem element_eq_iff (a b : UPoint) :
    a.element = b.element ↔ a.bytes.toNat % 2 ^ 255 ≡ b.bytes.toNat % 2 ^ 255 [MOD prime] :=
  ZMod.natCast_eq_natCast_iff _ _ _

theorem equal_returns (a b : UPoint) :
    Returns (fun _ => equal a b) (fun same => same = decide (a.element = b.element)) := by
  rw [← a.coordinate_denotes.element, ← b.coordinate_denotes.element]
  exact Limbs.equal_returns a.coordinate b.coordinate

theorem hashInput_returns (point : UPoint) :
    Returns (fun _ => point.hashInput) (fun bytes => bytes = encoding point.element) :=
  point.coordinate_denotes.encode

theorem isNeutral_returns (point : UPoint) :
    Returns (fun _ => point.isNeutral) (fun neutral => neutral = decide (point.element = 0)) := by
  rw [← point.coordinate_denotes.element]
  exact Limbs.isZero_returns point.coordinate

theorem mulBits_returns_climb (point : UPoint) (bits : List Bool) :
    Returns (fun _ => point.mulBits bits) (fun multiple => multiple =
      ⟨encoding (Rungs.climb Curve.montgomery.doublingFactor point.element bits).first.value⟩) := by
  unfold mulBits
  have coordinate := point.coordinate_denotes
  refine (ladder_returns coordinate.element (coordinate.sums Limbs.one_denotes (by decide))
    bits).bind fun state ⟨lower, _⟩ => ?_
  refine lower.affine.bind fun bytes written => ?_
  apply Returns.pure
  rw [written]

theorem mulBits_eq_of_element_eq {a b : UPoint} (same : a.element = b.element)
    (bits : List Bool) : Id.run (a.mulBits bits) = Id.run (b.mulBits bits) := by
  rw [(a.mulBits_returns_climb bits).run, (b.mulBits_returns_climb bits).run, same]

section Multiples

variable {d : Element} {nonzero : d ≠ 0}

theorem mulBits_returns (point : UPoint) (bits : List Bool) (P : (Curve.twisted d nonzero).Point)
    (same : u P = point.element) :
    Returns (fun _ => point.mulBits bits)
      (fun multiple => multiple = ⟨encoding (u (bitsToNat bits • P))⟩) := by
  have climbed := point.mulBits_returns_climb bits
  rw [← same] at climbed
  rw [← Rungs.climb_value P bits]
  exact climbed

/-- The ladder computes the multiple of any point of the curve or its twist, by the integer that any
bits spell. -/
theorem mulBits_eq_nsmul (x : Bytes32) (bits : List Bool) (P : (Curve.twisted d nonzero).Point)
    (same : u P = (x.toNat % 2 ^ 255 : Nat)) :
    (Id.run (mulBits ⟨x⟩ bits)).bytes = encoding (u (bitsToNat bits • P)) :=
  congrArg UPoint.bytes (mulBits_returns ⟨x⟩ bits P same).run

theorem mulBits_base_two :
    u Curve.basePoint = (Curve.baseU.toNat % 2 ^ 255 : Nat) ∧
      (Id.run (mulBits base [true, false])).bytes =
        encoding (u (bitsToNat [true, false] • Curve.basePoint)) := by
  have same : u Curve.basePoint = (Curve.baseU.toNat % 2 ^ 255 : Nat) :=
    Curve.u_basePoint.trans (by decide)
  exact ⟨same, mulBits_eq_nsmul Curve.baseU [true, false] Curve.basePoint same⟩

theorem mulClamped_returns (point : UPoint) (key : Bytes32) (P : (Curve.twisted d nonzero).Point)
    (same : u P = point.element) :
    Returns (fun _ => point.mulClamped key)
      (fun multiple => multiple = ⟨encoding (u (Scalar.clampedNat key • P))⟩) := by
  unfold mulClamped
  rw [← Scalar.bitsToNat_bits_clamp]
  exact mulBits_returns point _ P same

end Multiples

section Base
open Curve (basePoint)

theorem base_element : u basePoint = base.element :=
  Curve.u_basePoint.trans (by decide)

theorem baseMultiple_returns (key : Bytes32) :
    Returns (fun _ => baseMultiple key)
      (fun multiple => multiple = ⟨encoding (u (Scalar.clampedNat key • basePoint))⟩) :=
  mulClamped_returns base key basePoint base_element

theorem baseMultipleWithV_returns (key : Bytes32) :
    Returns (fun _ => baseMultipleWithV key) (fun result =>
      result.1 = ⟨encoding (u (Scalar.clampedNat key • basePoint))⟩ ∧
      Denotes 1 (if Scalar.clampedNat key = 5 * basePointOrder - 1 then 0
        else v (Scalar.clampedNat key • basePoint)) result.2) := by
  have coordinate := base.coordinate_denotes
  rw [← base_element] at coordinate
  have holds := Rungs.climb_holds Curve.u_basePoint_ne_zero (Scalar.bits (Scalar.clamp key))
  rw [Scalar.bitsToNat_bits_clamp] at holds
  unfold baseMultipleWithV
  refine (ladder_returns coordinate.element (coordinate.sums Limbs.one_denotes (by decide)) _).bind
    fun state ⟨lower, upper⟩ => ?_
  have v := Curve.baseV_denotes
  refine (LadderState.vCoordinate_returns_of_holds lower upper (coordinate.isFactor (by decide))
    v.element (v.sums v (by decide)) holds Curve.v_basePoint_ne_zero rfl Curve.v_basePoint).bind
    fun recovered hv => ?_
  simp only [Curve.clamped_nsmul_ne_zero, false_or, Curve.clamped_succ_nsmul_eq_zero_iff] at hv
  refine lower.affine.bind fun bytes written => ?_
  refine .pure _ ⟨?_, hv⟩
  rw [written]
  exact congrArg (fun x => UPoint.mk (encoding x)) holds.first.value

theorem v_clamped_ne_zero_of_exception (key : Bytes32)
    (exception : Scalar.clampedNat key = 5 * basePointOrder - 1) :
    v (Scalar.clampedNat key • basePoint) ≠ 0 := by
  rw [Curve.v_clamped_of_exception key exception, neg_ne_zero, ← Curve.v_basePoint]
  exact Curve.v_basePoint_ne_zero

/-- Both coordinates of the multiple are right for every clamped integer but one, whose multiple is
opposite to the base point; there the v-coordinate comes out as zero, off the curve. -/
theorem baseMultipleWithV_iff (key : Bytes32) :
    let multiple := Scalar.clampedNat key • basePoint
    let result := Id.run (baseMultipleWithV key)
    result.1.bytes = encoding (u multiple) ∧
      (result.2.element = v multiple ↔ Scalar.clampedNat key ≠ 5 * basePointOrder - 1) ∧
      (result.2.element ^ 2 = u multiple ^ 3 + Curve.a * u multiple ^ 2 + u multiple ↔
        Scalar.clampedNat key ≠ 5 * basePointOrder - 1) ∧
      (Scalar.clampedNat key = 5 * basePointOrder - 1 → result.2.element = 0) := by
  intro multiple result
  obtain ⟨first, second⟩ := (baseMultipleWithV_returns key).run
  have equation : v multiple ^ 2 = u multiple ^ 3 + Curve.a * u multiple ^ 2 + u multiple := by
    have equation := Montgomery.onCurve multiple
    exact (one_mul (v multiple ^ 2)).symm.trans equation
  refine ⟨congrArg UPoint.bytes first, ?_⟩
  by_cases exception : Scalar.clampedNat key = 5 * basePointOrder - 1
  · have lost := second.element
    rw [if_pos exception] at lost
    have point := v_clamped_ne_zero_of_exception key exception
    change result.2.element = 0 at lost
    rw [← equation, lost]
    have off : (0 : Element) ^ 2 ≠ v multiple ^ 2 := fun same =>
      point (sq_eq_zero_iff.mp (same.symm.trans (zero_pow (by decide))))
    exact ⟨iff_of_false point.symm (not_not.mpr exception),
      iff_of_false off (not_not.mpr exception), fun _ => rfl⟩
  · have found := second.element
    rw [if_neg exception] at found
    change result.2.element = v multiple at found
    rw [← equation, found]
    exact ⟨iff_of_true rfl exception, iff_of_true rfl exception,
      fun other => absurd other exception⟩

theorem baseMultipleWithV_exceptionalKey :
    (Id.run (baseMultipleWithV Curve.exceptionalKey)).2.element ≠
      v (Scalar.clampedNat Curve.exceptionalKey • basePoint) := by
  have exception := Curve.clampedNat_exceptionalKey
  have lost := (baseMultipleWithV_returns Curve.exceptionalKey).run.2.element
  rw [if_pos exception] at lost
  rw [lost]
  exact (v_clamped_ne_zero_of_exception _ exception).symm

end Base

end UPoint
end Curve25519
