import Curve25519.Bytes32

/-! Private scalars.
Clamping makes any thirty-two octets a multiple of eight from 2^254 up and below 2^255; the
ladder reads the 255 bits of the result, highest first. Clamping twice is clamping once. -/

namespace Curve25519.Scalar

/-- The three lowest bits and the highest are cleared, and the bit below the highest is set. -/
def clamp (key : Bytes32) : Bytes32 :=
  (key.modify 0 (· &&& 0xf8)).modify 31 (· &&& 0x7f ||| 0x40)

def bits (scalar : Bytes32) : List Bool := scalar.lowBits 255

theorem mask_set_idem (octet mask bits : UInt8) :
    (octet &&& mask ||| bits) &&& mask ||| bits = octet &&& mask ||| bits := by
  apply UInt8.eq_of_toBitVec_eq
  ext i bound
  simp only [UInt8.toBitVec_or, UInt8.toBitVec_and, BitVec.getElem_or, BitVec.getElem_and]
  grind

theorem octet_clamp (key : Bytes32) (index : Nat) :
    (clamp key).octet index =
      if index = 31 then key.octet 31 &&& 0x7f ||| 0x40
      else if index = 0 then key.octet 0 &&& 0xf8 else key.octet index := by
  simp [clamp, Bytes32.octet_modify]

theorem clamp_clamp (key : Bytes32) : clamp (clamp key) = clamp key := by
  apply Bytes32.eq_of_octet
  intro index _
  rw [octet_clamp (clamp key) index]
  by_cases top : index = 31
  · subst top
    simpa [octet_clamp] using mask_set_idem (key.octet 31) 0x7f 0x40
  · by_cases bottom : index = 0
    · subst bottom
      simp [octet_clamp, UInt8.and_assoc]
    · simp [top, bottom]

end Curve25519.Scalar
