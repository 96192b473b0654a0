import Curve25519.Bytes32

/-! Why octets are not accepted as a key.
Each cause has a message for the caller and a record for the log; neither tells anything of the
octets but their number. -/

namespace Curve25519

inductive KeyKind
  | privateKey
  | publicKey
  | representative
deriving DecidableEq

def KeyKind.name : KeyKind → String
  | privateKey => "PrivateKey"
  | publicKey => "PublicKey"
  | representative => "Representative"

def keyLength : Nat := 32

inductive Rejection
  /-- The octets are not thirty-two. -/
  | wrongLength (kind : KeyKind) (length : Nat)
  /-- The representative stands for a point of small order. -/
  | smallOrder
  /-- The public key of the private key has no representative. -/
  | notRepresentable
  /-- The public key is not below the modulus. -/
  | notCanonical
deriving DecidableEq

namespace Rejection

def message : Rejection → String
  | wrongLength kind _ => kind.name ++ " must be " ++ keyLength.repr ++ " bytes in length"
  | smallOrder => "Representative decodes to a point of small order"
  | notRepresentable => "Public key has no Elligator2 representative"
  | notCanonical => "Public key is not a canonical field element encoding"

def record : Rejection → String
  | wrongLength kind length => "DEBUG: " ++ kind.name ++ " rejected: got " ++ length.repr
      ++ " bytes, expected " ++ keyLength.repr
  | smallOrder => "DEBUG: Representative rejected: image has small order"
  | notRepresentable => "DEBUG: PrivateKey rejected: public key has no representative"
  | notCanonical => "DEBUG: PublicKey rejected: not a canonical field element encoding"

def records {α : Type} : Except Rejection α → List String
  | .error rejection => [rejection.record]
  | .ok _ => []

end Rejection

def KeyKind.read (kind : KeyKind) (octets : List UInt8) : Except Rejection Bytes32 :=
  match Bytes32.ofList? octets with
  | some bytes => .ok bytes
  | none => .error (.wrongLength kind octets.length)

end Curve25519
