import Curve25519.Curve.Params
import Curve25519.Limbs.Encoding
import Curve25519.Limbs.Power

/-! The ladder: multiples of a point known by its u-coordinate alone.
Its state holds the u-coordinates of two multiples that differ by the point; each bit doubles
one of them and adds the two. The one to be doubled stands first: the two are exchanged where a
bit differs from the bit before, and once more at the end if the last bit is set. -/

namespace Curve25519

/-- A u-coordinate as a fraction; the neutral element has denominator zero. -/
structure Projective where
  u : Limbs
  w : Limbs

namespace Projective

def neutral : Projective := ⟨.one, .zero⟩

def ofAffine (u : Limbs) : Projective := ⟨u, .one⟩

variable {m : Type → Type} [Monad m] [MonadRequire m]

@[specialize] def affine (point : Projective) : m Bytes32 := do
  Limbs.encode (← Limbs.mul point.u (← Limbs.invert point.w))

end Projective

structure LadderState where
  first : Projective
  second : Projective

namespace LadderState

@[inline] def swapIf (choice : Bool) (state : LadderState) : LadderState :=
  let (u, u') := Limbs.swapIf choice state.first.u state.second.u
  let (w, w') := Limbs.swapIf choice state.first.w state.second.w
  ⟨⟨u, w⟩, ⟨u', w'⟩⟩

variable {m : Type → Type} [Monad m] [MonadRequire m]

/-- Doubles the first point and adds the second to it, given the affine u-coordinate of their
difference. -/
@[specialize] def doubleAndAdd (difference : Limbs) (state : LadderState) : m LadderState := do
  let ⟨p, q⟩ := state
  let pSum ← Limbs.add p.u p.w
  let pDiff ← Limbs.sub p.u p.w
  let qSum ← Limbs.add q.u q.w
  let qDiff ← Limbs.sub q.u q.w
  let sumSquare ← Limbs.square pSum
  let diffSquare ← Limbs.square pDiff
  let fourUW ← Limbs.sub sumSquare diffSquare
  let cross ← Limbs.mul pSum qDiff
  let cross' ← Limbs.mul pDiff qSum
  let sumU ← Limbs.square (← Limbs.add cross cross')
  let sumW ← Limbs.square (← Limbs.sub cross cross')
  let scaled ← Limbs.mul Curve.doublingFactor fourUW
  let doubleU ← Limbs.mul sumSquare diffSquare
  let doubleW ← Limbs.mul fourUW (← Limbs.add scaled diffSquare)
  return ⟨⟨doubleU, doubleW⟩, ⟨sumU, ← Limbs.mul difference sumW⟩⟩

@[specialize] def run (difference : Limbs) :
    (bits : List Bool) → (before : Bool) → LadderState → m LadderState
  | [], before, state => return state.swapIf before
  | bit :: rest, before, state => do
      run difference rest bit (← doubleAndAdd difference (state.swapIf (before != bit)))

end LadderState

/-- The u-coordinates of n times the point and of n + 1 times the point, where the bits spell n
with the highest bit first. -/
@[specialize] def ladder {m : Type → Type} [Monad m] [MonadRequire m] (u : Limbs)
    (bits : List Bool) : m LadderState :=
  LadderState.run u bits false ⟨.neutral, .ofAffine u⟩

end Curve25519
