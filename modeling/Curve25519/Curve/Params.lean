import Curve25519.Bytes32
import Curve25519.Limbs

/-! The curve v^2 = u^3 + A u^2 + u with A = 486662, its base point, and the u-coordinates of
its points of small order. -/

namespace Curve25519.Curve

def coefficient : Limbs := .ofNat 486662

def negCoefficient : Limbs := .ofNat (prime - 486662)

/-- The number (A + 2) / 4, by which a doubling multiplies. -/
def doublingFactor : Limbs := .ofNat 121666

def baseU : Bytes32 := .ofNat 9

/-- The v-coordinate of the base point, the even one of the two. -/
def baseV : Limbs :=
  .ofNat 43114425171068552920764898935933967039370386198203806730763910166200978582548

def orderEightNat : Nat :=
  325606250916557431795983626356110631294008115727848805560023387167927233504

def orderEightNat' : Nat :=
  39382357235489614581723060781553021112529911719440698176882885853963445705823

/-- The u-coordinates of the points of the curve whose order divides eight: the point of order
two, which also encodes the neutral element, then those of order four, then those of order
eight. -/
def smallOrder : List Bytes32 :=
  [.ofNat 0, .ofNat 1, .ofNat orderEightNat, .ofNat orderEightNat']

def halfPrime : Bytes32 := .ofNat ((prime - 1) / 2)

end Curve25519.Curve
