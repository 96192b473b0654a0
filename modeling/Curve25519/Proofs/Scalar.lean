import Curve25519.Scalar
import Curve25519.Proofs.Bytes32

/-! The integers that private keys are clamped to: the multiples of eight from 2^254 up and below
2^255, each by the bits of weight 8 to 2^253 of the key. All of them are reached, and the ladder
reads nothing else of a key. -/

namespace Curve25519.Scalar

def clampedNat (key : Bytes32) : Nat := 2 ^ 254 + 8 * (key.toNat % 2 ^ 254 / 8)

theorem eight_dvd_clampedNat (key : Bytes32) : 8 ∣ clampedNat key :=
  Nat.dvd_add (by decide) (Nat.dvd_mul_right _ _)

theorem clampedNat_lt (key : Bytes32) : clampedNat key < 2 ^ 255 := by
  unfold clampedNat
  omega

theorem clampedNat_pos (key : Bytes32) : 0 < clampedNat key :=
  Nat.add_pos_left (by decide) _

theorem clampedNat_ofNat {value : Nat} (eight : 8 ∣ value) (low : 2 ^ 254 ≤ value)
    (high : value < 2 ^ 255) : clampedNat (.ofNat value) = value := by
  rw [clampedNat, Bytes32.toNat_ofNat_of_lt (by omega)]
  omega

/-- An odd order from 2^252 up divides no clamped integer, as these stay below eight times the order. -/
theorem not_dvd_clampedNat {order : Nat} (odd : Nat.Coprime 8 order) (large : 2 ^ 252 ≤ order)
    (key : Bytes32) : ¬order ∣ clampedNat key := by
  intro divides
  have both := odd.mul_dvd_of_dvd_of_dvd (eight_dvd_clampedNat key) divides
  have least := Nat.le_of_dvd (clampedNat_pos key) both
  have bound := clampedNat_lt key
  omega

theorem toNat_maskHigh (octet : UInt8) :
    (octet &&& 0x7f ||| 0x40).toNat = 64 + octet.toNat % 64 := by
  have all : ∀ octet : BitVec 8, (octet &&& 0x7f ||| 0x40).toNat = 64 + octet.toNat % 64 := by
    decide
  exact all octet.toBitVec

theorem toNat_maskLow (octet : UInt8) : (octet &&& 0xf8).toNat = octet.toNat / 8 * 8 := by
  have all : ∀ octet : BitVec 8, (octet &&& 0xf8).toNat = octet.toNat / 8 * 8 := by decide
  exact all octet.toBitVec

theorem toNat_clamp (key : Bytes32) : (clamp key).toNat = clampedNat key := by
  have low := key.toNat_modify 0 (· &&& 0xf8) (by decide)
  have first := key.octet_toNat 0
  have last : (key.modify 0 (· &&& 0xf8)).octet 31 = key.octet 31 := by
    rw [Bytes32.octet_modify _ _ _ _ (by decide), if_neg (by decide)]
  have top := key.toNat_split
  rw [toNat_maskLow] at low
  rw [clamp, Bytes32.toNat_modify_last, last, toNat_maskHigh, clampedNat]
  simp only [pow_zero, Nat.div_one, Nat.one_mul] at low first
  omega

theorem bitsToNat_bits_clamp (key : Bytes32) :
    bitsToNat (bits (clamp key)) = clampedNat key := by
  rw [bits, Bytes32.bitsToNat_lowBits, toNat_clamp, Nat.mod_eq_of_lt (clampedNat_lt key)]

theorem clampedNat_clamp (key : Bytes32) : clampedNat (clamp key) = clampedNat key := by
  rw [← toNat_clamp (clamp key), clamp_clamp, toNat_clamp]

theorem clamp_eq_iff (a b : Bytes32) :
    clamp a = clamp b ↔ ∀ index, 3 ≤ index → index < 254 → a.bit index = b.bit index := by
  rw [Bytes32.forall_bit_window_eq_iff, ← Bytes32.toNat_injective.eq_iff, toNat_clamp, toNat_clamp]
  unfold clampedNat
  omega

theorem exists_toNat_clamp_iff (value : Nat) :
    (∃ key, (clamp key).toNat = value) ↔ ∃ place < 2 ^ 251, value = 2 ^ 254 + 8 * place := by
  constructor
  · rintro ⟨key, rfl⟩
    refine ⟨key.toNat % 2 ^ 254 / 8, ?_, toNat_clamp key⟩
    omega
  · rintro ⟨place, bound, rfl⟩
    have eight : 8 ∣ 2 ^ 254 + 8 * place := Nat.dvd_add (by decide) (Nat.dvd_mul_right 8 place)
    have high : 2 ^ 254 + 8 * place < 2 ^ 255 := by omega
    refine ⟨.ofNat (2 ^ 254 + 8 * place), ?_⟩
    rw [toNat_clamp]
    exact clampedNat_ofNat eight (Nat.le_add_right _ _) high

/-- The ladder reads the low 255 bits of a key as an integer. After clamping it reads the bits of
weight 8 to 2^253 and 2^254 besides; nothing else of the key counts, and every such integer is that
of some key. -/
theorem clamp_exact :
    (∀ key : Bytes32,
      bitsToNat (bits key) = key.toNat % 2 ^ 255 ∧
      bitsToNat (bits (clamp key)) = 2 ^ 254 + 8 * (key.toNat % 2 ^ 254 / 8) ∧
      clamp (clamp key) = clamp key) ∧
    (∀ a b : Bytes32,
      clamp a = clamp b ↔ ∀ index, 3 ≤ index → index < 254 → a.bit index = b.bit index) ∧
    ∀ value,
      (∃ key, (clamp key).toNat = value) ↔ ∃ place < 2 ^ 251, value = 2 ^ 254 + 8 * place := by
  refine ⟨?_, clamp_eq_iff, exists_toNat_clamp_iff⟩
  intro key
  exact ⟨key.bitsToNat_lowBits 255, bitsToNat_bits_clamp key, clamp_clamp key⟩

end Curve25519.Scalar
