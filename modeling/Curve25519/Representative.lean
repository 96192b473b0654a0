import Curve25519.Bytes32

/-! A representative stands for a public key, and can travel in its place. Bit 255 carries no
information about the key, and is free to be set at random. -/

namespace Curve25519

structure Representative where
  bytes : Bytes32
deriving DecidableEq

/-- What a hash of the representative takes in: unlike points, representatives are told apart
by their octets. -/
def Representative.hashInput (representative : Representative) : Bytes32 :=
  representative.bytes

end Curve25519
