/-! Thirty-two octets, lowest first, read as an integer below 2^256.
Keys, scalars, coordinates and representatives all travel in this form. -/

namespace Curve25519

abbrev Bytes32 := Vector UInt8 32

def littleEndian : List UInt8 → Nat
  | [] => 0
  | octet :: rest => octet.toNat + 256 * littleEndian rest

namespace Bytes32

def toNat (bytes : Bytes32) : Nat := littleEndian bytes.toList

def ofNat (n : Nat) : Bytes32 := Vector.ofFn fun i => .ofNat (n >>> (8 * i.val))

def zero : Bytes32 := Vector.replicate 32 0

def ofList? (octets : List UInt8) : Option Bytes32 :=
  if length : octets.length = 32 then some ⟨octets.toArray, by simpa using length⟩ else none

def octet (bytes : Bytes32) (index : Nat) : UInt8 := bytes[index]?.getD 0

def modify (bytes : Bytes32) (index : Nat) (f : UInt8 → UInt8) : Bytes32 :=
  bytes.setIfInBounds index (f (bytes.octet index))

def bit (bytes : Bytes32) (index : Nat) : Bool :=
  (bytes.octet (index / 8) >>> .ofNat (index % 8)) &&& 1 == 1

/-- The lowest bits, as many as the count says, the highest of them first. -/
def lowBits (bytes : Bytes32) : (count : Nat) → List Bool
  | 0 => []
  | index + 1 => bytes.bit index :: bytes.lowBits index

def valueMask : UInt8 := 0x7f

def topMask : UInt8 := 0x80

def clearTop (bytes : Bytes32) : Bytes32 := bytes.modify 31 (· &&& valueMask)

/-- The bit of weight 2^255 is set if that of the octet's top is. -/
def addTop (bytes : Bytes32) (octet : UInt8) : Bytes32 :=
  bytes.modify 31 (· ||| (octet &&& topMask))

theorem eq_of_octet {a b : Bytes32} (same : ∀ index < 32, a.octet index = b.octet index) :
    a = b := by
  apply Vector.ext
  intro index bound
  simpa [octet, bound] using same index bound

theorem octet_modify (bytes : Bytes32) (index other : Nat) (f : UInt8 → UInt8)
    (bound : index < 32) :
    (bytes.modify index f).octet other =
      if other = index then f (bytes.octet index) else bytes.octet other := by
  by_cases same : other = index
  · subst same
    simp [modify, octet, bound]
  · simp [modify, octet, same, Ne.symm same]

end Bytes32
end Curve25519
