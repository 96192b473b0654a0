import Curve25519.Limbs.SquareRoot

/-! Programs over registers of field elements.
An instruction reads registers, may write some, and shows what it wrote or found. Elements are
shown by their octets, so that a run can be followed without its limbs. -/

namespace Curve25519.Program

inductive Unary
  | neg
  | negIf (choice : Bool)
  | square
  | twiceSquare
  | squareTimes (count : Nat)
  | invert
  | invSqrt
  | clear

inductive Binary
  | add
  | sub
  | mul
  | sqrtRatio
  | select (choice : Bool)

inductive Test
  | isHigh
  | isNegative
  | isZero
  | isSquare

inductive Instruction (size : Nat)
  | unary (operation : Unary) (source target : Fin size)
  | binary (operation : Binary) (left right target : Fin size)
  | swapIf (choice : Bool) (left right : Fin size)
  | test (test : Test) (source : Fin size)
  | equal (left right : Fin size)

inductive Reading
  | element (bytes : Bytes32)
  | pair (left right : Bytes32)
  | truth (value : Bool)

abbrev Registers (size : Nat) := Vector Limbs size

variable {m : Type → Type} [Monad m] [MonadRequire m]

@[specialize] def Unary.apply (a : Limbs) : Unary → m Limbs
  | neg => Limbs.neg a
  | negIf choice => Limbs.negIf choice a
  | square => Limbs.square a
  | twiceSquare => Limbs.twiceSquare a
  | squareTimes count => Limbs.squareTimes a count
  | invert => Limbs.invert a
  | invSqrt => do return (← Limbs.invSqrt a).root
  | clear => return .zero

@[specialize] def Binary.apply (a b : Limbs) : Binary → m Limbs
  | add => Limbs.add a b
  | sub => Limbs.sub a b
  | mul => Limbs.mul a b
  | sqrtRatio => do return (← Limbs.sqrtRatio a b).root
  | select choice => return Limbs.select choice a b

@[specialize] def Test.apply (a : Limbs) : Test → m Bool
  | isHigh => Limbs.isHigh a
  | isNegative => Limbs.isNegative a
  | isZero => Limbs.isZero a
  | isSquare => Limbs.isSquare a

@[specialize] def step {size : Nat} (registers : Registers size) :
    Instruction size → m (Registers size × Reading)
  | .unary operation source target => do
      let result ← operation.apply registers[source]
      return (registers.set target result, .element (← Limbs.encode result))
  | .binary operation left right target => do
      let result ← operation.apply registers[left] registers[right]
      return (registers.set target result, .element (← Limbs.encode result))
  | .swapIf choice left right => do
      let (a, b) := Limbs.swapIf choice registers[left] registers[right]
      return ((registers.set left a).set right b,
        .pair (← Limbs.encode a) (← Limbs.encode b))
  | .test test source => do
      return (registers, .truth (← test.apply registers[source]))
  | .equal left right => do
      return (registers, .truth (← Limbs.equal registers[left] registers[right]))

@[specialize] def run {size : Nat} (registers : Registers size) :
    List (Instruction size) → m (Registers size × List Reading)
  | [] => return (registers, [])
  | first :: rest => do
      let (registers, reading) ← step registers first
      let (registers, readings) ← run registers rest
      return (registers, reading :: readings)

@[specialize] def encodeAll : List Limbs → m (List Bytes32)
  | [] => return []
  | first :: rest => return (← Limbs.encode first) :: (← encodeAll rest)

end Curve25519.Program
