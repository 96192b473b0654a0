import Mathlib.Data.Nat.Bitwise
import Mathlib.Data.ZMod.Basic
import Mathlib.Tactic.Ring
import Curve25519.Bytes32

/-! Thirty-two octets and the integer that they spell.
The octet and the bit at a place are those of the integer, so that every integer below 2^256 has
its own octets, and masks act on the integer. -/

namespace Curve25519

theorem littleEndian_lt (octets : List UInt8) : littleEndian octets < 256 ^ octets.length := by
  induction octets with
  | nil => simp [littleEndian]
  | cons octet rest ih =>
    have small := octet.toNat_lt
    simp only [littleEndian, List.length_cons, pow_succ]
    omega

theorem getD_toNat (octets : List UInt8) (index : Nat) :
    (octets[index]?.getD 0).toNat = littleEndian octets / 256 ^ index % 256 := by
  induction octets generalizing index with
  | nil => simp [littleEndian]
  | cons octet rest ih =>
    have small := octet.toNat_lt
    cases index with
    | zero =>
      simp only [littleEndian, List.getElem?_cons_zero, Option.getD_some, pow_zero, Nat.div_one]
      omega
    | succ index =>
      simp only [littleEndian, List.getElem?_cons_succ, pow_succ', ← Nat.div_div_eq_div_mul, ih]
      congr 2
      omega

theorem littleEndian_set (octets : List UInt8) (index : Nat) (octet : UInt8)
    (bound : index < octets.length) :
    littleEndian (octets.set index octet) + 256 ^ index * octets[index].toNat =
      littleEndian octets + 256 ^ index * octet.toNat := by
  induction octets generalizing index with
  | nil => simp at bound
  | cons first rest ih =>
    cases index with
    | zero =>
      simp only [List.set_cons_zero, littleEndian, List.getElem_cons_zero]
      ring
    | succ index =>
      have tail := ih index (by simpa using bound)
      simp only [List.set_cons_succ, littleEndian, List.getElem_cons_succ, pow_succ', Nat.mul_assoc]
      omega

theorem littleEndian_ofFn (count n : Nat) :
    littleEndian (List.ofFn fun i : Fin count => UInt8.ofNat (n >>> (8 * i.val))) =
      n % 256 ^ count := by
  induction count generalizing n with
  | zero => simp [littleEndian, Nat.mod_one]
  | succ count ih =>
    have tail : (fun i : Fin count => UInt8.ofNat (n >>> (8 * i.succ.val))) =
        fun i : Fin count => UInt8.ofNat ((n / 256) >>> (8 * i.val)) := by
      funext i
      rw [Fin.val_succ, Nat.mul_add, Nat.add_comm, Nat.shiftRight_add,
        Nat.shiftRight_eq_div_pow n]
    rw [List.ofFn_succ, littleEndian, tail, ih (n / 256), pow_succ', Nat.mod_mul]
    simp [UInt8.toNat_ofNat']

namespace Bytes32

theorem toNat_lt (bytes : Bytes32) : bytes.toNat < 2 ^ 256 := by
  have bound := littleEndian_lt bytes.toList
  rw [Vector.length_toList] at bound
  exact bound

theorem octet_toNat (bytes : Bytes32) (index : Nat) :
    (bytes.octet index).toNat = bytes.toNat / 256 ^ index % 256 := by
  rw [toNat, ← getD_toNat, octet, ← Vector.getElem?_toList]

theorem toNat_injective : Function.Injective toNat := by
  intro a b same
  apply eq_of_octet
  intro index _
  apply UInt8.toNat_inj.mp
  rw [octet_toNat, octet_toNat, same]

theorem toNat_ofNat (n : Nat) : (ofNat n).toNat = n % 2 ^ 256 := by
  rw [toNat, ofNat, Vector.toList_ofFn, littleEndian_ofFn]
  rfl

theorem toNat_ofNat_of_lt {n : Nat} (fits : n < 2 ^ 256) : (ofNat n).toNat = n := by
  rw [toNat_ofNat, Nat.mod_eq_of_lt fits]

theorem toNat_split (bytes : Bytes32) :
    bytes.toNat = bytes.toNat % 2 ^ 248 + 2 ^ 248 * (bytes.octet 31).toNat := by
  have bound := bytes.toNat_lt
  have weight : (256 : Nat) ^ 31 = 2 ^ 248 := by norm_num
  rw [octet_toNat, weight]
  omega

theorem toList_modify (bytes : Bytes32) (index : Nat) (f : UInt8 → UInt8) :
    (bytes.modify index f).toList = bytes.toList.modify index f := by
  rw [modify, octet, Vector.toList_setIfInBounds, List.modify_eq_set, Vector.getElem?_toList]
  rfl

theorem toNat_modify (bytes : Bytes32) (index : Nat) (f : UInt8 → UInt8) (bound : index < 32) :
    (bytes.modify index f).toNat + 256 ^ index * (bytes.octet index).toNat =
      bytes.toNat + 256 ^ index * (f (bytes.octet index)).toNat := by
  have inside : index < bytes.toList.length := by simpa using bound
  have octet : bytes.octet index = bytes.toList[index] := by
    rw [Bytes32.octet, ← Vector.getElem?_toList, List.getElem?_eq_getElem inside, Option.getD_some]
  rw [modify, toNat, Vector.toList_setIfInBounds, octet]
  exact littleEndian_set bytes.toList index _ inside

theorem toNat_modify_last (bytes : Bytes32) (f : UInt8 → UInt8) :
    (bytes.modify 31 f).toNat = bytes.toNat % 2 ^ 248 + 2 ^ 248 * (f (bytes.octet 31)).toNat := by
  have weight : (256 : Nat) ^ 31 = 2 ^ 248 := by norm_num
  have changed := bytes.toNat_modify 31 f (by decide)
  have split := bytes.toNat_split
  rw [weight] at changed
  omega

theorem toNat_clearTop (bytes : Bytes32) : bytes.clearTop.toNat = bytes.toNat % 2 ^ 255 := by
  have split := bytes.toNat_split
  have small := (bytes.octet 31).toNat_lt
  have mask : (bytes.octet 31 &&& valueMask).toNat = (bytes.octet 31).toNat % 2 ^ 7 := by
    rw [UInt8.toNat_and]
    exact Nat.and_two_pow_sub_one_eq_mod _ 7
  rw [clearTop, toNat_modify_last, mask]
  omega

theorem topBit_toNat (octet : UInt8) :
    (octet &&& topMask).toNat = 2 ^ 7 * (octet.toNat / 2 ^ 7) := by
  have small := octet.toNat_lt
  rw [UInt8.toNat_and]
  have mask : topMask.toNat = 2 ^ 7 := rfl
  rw [mask, Nat.and_two_pow, Nat.testBit_eq_decide_div_mod_eq]
  have bit : octet.toNat / 2 ^ 7 % 2 = octet.toNat / 2 ^ 7 := by omega
  rw [bit]
  have cases : octet.toNat / 2 ^ 7 = 0 ∨ octet.toNat / 2 ^ 7 = 1 := by omega
  rcases cases with zero | one
  · rw [zero]
    rfl
  · rw [one]
    rfl

theorem toNat_addTop (bytes : Bytes32) (octet : UInt8) (clear : bytes.toNat < 2 ^ 255) :
    (bytes.addTop octet).toNat = bytes.toNat + 2 ^ 255 * (octet.toNat / 2 ^ 7) := by
  have split := bytes.toNat_split
  have small : (bytes.octet 31).toNat < 2 ^ 7 := by omega
  have join : (bytes.octet 31 ||| (octet &&& topMask)).toNat =
      2 ^ 7 * (octet.toNat / 2 ^ 7) + (bytes.octet 31).toNat := by
    rw [UInt8.toNat_or, topBit_toNat, Nat.two_pow_add_eq_or_of_lt small, Nat.or_comm]
  rw [addTop, toNat_modify_last, join]
  omega

theorem bit_eq (bytes : Bytes32) (index : Nat) : bytes.bit index = bytes.toNat.testBit index := by
  have place : index % 8 < 8 := Nat.mod_lt _ (by decide)
  have shift : (UInt8.ofNat (index % 8)).toNat % 8 = index % 8 := by
    rw [UInt8.toNat_ofNat']
    omega
  have weight : (256 : Nat) ^ (index / 8) = 2 ^ (8 * (index / 8)) := by
    rw [pow_mul]
    norm_num
  have one : (1 : UInt8).toNat = 1 := rfl
  have within : bytes.toNat.testBit index = (bytes.octet (index / 8)).toNat.testBit (index % 8) := by
    rw [octet_toNat, weight, show (256 : Nat) = 2 ^ 8 by norm_num, Nat.testBit_mod_two_pow,
      Nat.testBit_div_two_pow, decide_eq_true place, Bool.true_and, Nat.mod_add_div]
  rw [within, bit, Nat.testBit_eq_decide_div_mod_eq, beq_eq_decide, decide_eq_decide,
    ← UInt8.toNat_inj, UInt8.toNat_and, UInt8.toNat_shiftRight, shift, one,
    Nat.shiftRight_eq_div_pow, Nat.and_one_is_mod]

theorem bit_eq_false_of_lt {bytes : Bytes32} {index : Nat} (small : bytes.toNat < 2 ^ index) :
    bytes.bit index = false := by
  rw [bit_eq]
  exact Nat.testBit_lt_two_pow small

theorem forall_bit_window_eq_iff (a b : Bytes32) (low high : Nat) :
    (∀ index, low ≤ index → index < high → a.bit index = b.bit index) ↔
      a.toNat % 2 ^ high / 2 ^ low = b.toNat % 2 ^ high / 2 ^ low := by
  simp only [bit_eq]
  constructor
  · intro same
    apply Nat.eq_of_testBit_eq
    intro place
    rw [Nat.testBit_div_two_pow, Nat.testBit_div_two_pow, Nat.testBit_mod_two_pow,
      Nat.testBit_mod_two_pow]
    by_cases below : place + low < high
    · rw [same (place + low) (Nat.le_add_left low place) below]
    · simp [below]
  · intro same index above below
    have bits := congrArg (Nat.testBit · (index - low)) same
    simpa [Nat.testBit_div_two_pow, Nat.testBit_mod_two_pow, Nat.sub_add_cancel above,
      below] using bits

theorem forall_bit_eq_iff (a b : Bytes32) (count : Nat) :
    (∀ index < count, a.bit index = b.bit index) ↔
      a.toNat % 2 ^ count = b.toNat % 2 ^ count := by
  simpa using forall_bit_window_eq_iff a b 0 count

end Bytes32

/-- The integer that bits spell, highest bit first. -/
def bitsToNat (bits : List Bool) : Nat :=
  bits.foldl (fun high bit => 2 * high + bit.toNat) 0

theorem foldl_bits (bits : List Bool) (high : Nat) :
    bits.foldl (fun high bit => 2 * high + bit.toNat) high =
      high * 2 ^ bits.length + bitsToNat bits := by
  unfold bitsToNat
  induction bits generalizing high with
  | nil => simp
  | cons bit rest ih =>
    rw [List.foldl_cons, List.foldl_cons, ih, ih (2 * 0 + bit.toNat), List.length_cons, pow_succ]
    ring

theorem bitsToNat_cons (bit : Bool) (rest : List Bool) :
    bitsToNat (bit :: rest) = bit.toNat * 2 ^ rest.length + bitsToNat rest := by
  rw [bitsToNat, List.foldl_cons, foldl_bits]
  simp

theorem bitsToNat_replicate_append (zeros : Nat) (bits : List Bool) :
    bitsToNat (List.replicate zeros false ++ bits) = bitsToNat bits := by
  induction zeros with
  | zero => rfl
  | succ zeros ih =>
    rw [List.replicate_succ, List.cons_append, bitsToNat_cons, ih, Bool.toNat_false, Nat.zero_mul,
      Nat.zero_add]

namespace Bytes32

theorem length_lowBits (bytes : Bytes32) (count : Nat) : (bytes.lowBits count).length = count := by
  induction count with
  | zero => rfl
  | succ count ih => rw [lowBits, List.length_cons, ih]

theorem bitsToNat_lowBits (bytes : Bytes32) (count : Nat) :
    bitsToNat (bytes.lowBits count) = bytes.toNat % 2 ^ count := by
  induction count with
  | zero => simp [lowBits, bitsToNat, Nat.mod_one]
  | succ count ih =>
    rw [lowBits, bitsToNat_cons, ih, length_lowBits, bit_eq, Nat.mod_pow_succ,
      Nat.testBit_eq_decide_div_mod_eq]
    have bit : bytes.toNat / 2 ^ count % 2 < 2 := Nat.mod_lt _ (by decide)
    have cases : bytes.toNat / 2 ^ count % 2 = 0 ∨ bytes.toNat / 2 ^ count % 2 = 1 := by omega
    rcases cases with zero | one
    · simp [zero]
    · simp [one, Nat.add_comm]

end Bytes32
end Curve25519
