import Curve25519.Key.Public

/-! How values are shown for diagnosis: the names of the types from the outside in, around the
list of octets or limbs. -/

namespace Curve25519

def bracketed (separator : String) (numbers : List Nat) : String :=
  "[" ++ separator.intercalate (numbers.map Nat.repr) ++ "]"

def Bytes32.listing (bytes : Bytes32) : String :=
  bracketed ", " (bytes.toList.map UInt8.toNat)

def UPoint.listing (point : UPoint) : String :=
  "MontgomeryPoint(" ++ point.bytes.listing ++ ")"

def PublicKey.listing (key : PublicKey) : String :=
  "PublicKey(" ++ key.point.listing ++ ")"

def Representative.listing (representative : Representative) : String :=
  "Representative(" ++ representative.bytes.listing ++ ")"

def Limbs.listing (a : Limbs) : String :=
  "FieldElement51(" ++ bracketed ", " ([a.l0, a.l1, a.l2, a.l3, a.l4].map UInt64.toNat) ++ ")"

end Curve25519
