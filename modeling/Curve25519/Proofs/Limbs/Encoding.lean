import Curve25519.Limbs.Encoding
import Curve25519.Proofs.Bytes32
import Curve25519.Proofs.Limbs.Linear

/-! Octets of field elements.
Decoding reads the low 255 bits, 51 to a limb, whatever they are; encoding writes the least
integer of the class of any limbs at all, in one way. So each element has one encoding, and tests
on encodings are tests on elements. -/

namespace Curve25519

def encoding (x : Element) : Bytes32 := .ofNat x.val

theorem val_lt_two_pow (x : Element) : x.val < 2 ^ 255 := (ZMod.val_lt x).trans (by decide)

theorem toNat_encoding (x : Element) : (encoding x).toNat = x.val :=
  Bytes32.toNat_ofNat_of_lt ((val_lt_two_pow x).trans (by decide))

theorem encoding_injective : Function.Injective encoding := by
  intro x y same
  apply ZMod.val_injective prime
  rw [← toNat_encoding, ← toNat_encoding, same]

namespace Limbs

theorem element_val (a : Limbs) : a.element.val = a.toNat % prime := ZMod.val_natCast prime a.toNat

theorem ofNat_val_denotes (x : Element) : Denotes 1 x (ofNat x.val) := by
  have denotes := ofNat_denotes (val_lt_two_pow x)
  rw [ZMod.natCast_zmod_val] at denotes
  exact denotes

section Decoding

theorem toNat_load (bytes : Bytes32) (offset count : Nat) (few : count ≤ 8) :
    (load bytes offset count).toNat = bytes.toNat / 256 ^ offset % 256 ^ count := by
  induction count generalizing offset with
  | zero => simp [load, Nat.mod_one]
  | succ count ih =>
    have rest := ih (offset + 1) (by omega)
    have small := (bytes.octet offset).toNat_lt
    have room : 256 ^ count * 256 ≤ 2 ^ 64 := by
      rw [← pow_succ]
      exact (Nat.pow_le_pow_right (by decide) few).trans (by norm_num)
    have bound : (load bytes (offset + 1) count).toNat < 256 ^ count := by
      rw [rest]
      exact Nat.mod_lt _ (pow_pos (by decide) _)
    have shifted : (load bytes (offset + 1) count <<< 8).toNat =
        2 ^ 8 * (load bytes (offset + 1) count).toNat := by
      rw [UInt64.toNat_shiftLeft, Nat.shiftLeft_eq]
      change _ * 2 ^ 8 % 2 ^ 64 = _
      rw [Nat.mod_eq_of_lt (by omega), Nat.mul_comm]
    have octet : (bytes.octet offset).toUInt64.toNat = (bytes.octet offset).toNat :=
      UInt8.toNat_toUInt64 _
    rw [load, UInt64.toNat_or, shifted, octet, Nat.or_comm, ← Nat.two_pow_add_eq_or_of_lt small,
      rest, Bytes32.octet_toNat, pow_succ' 256 offset, pow_succ' 256 count, Nat.mod_mul,
      Nat.div_div_eq_div_mul, Nat.mul_comm (256 ^ offset) 256]
    omega

theorem decode_below (bytes : Bytes32) : (decode bytes).Below (2 ^ 51) := by
  simp only [decode, Below, Word.toNat_low51]
  omega

theorem toNat_decode (bytes : Bytes32) : (decode bytes).toNat = bytes.toNat % 2 ^ 255 := by
  have shift (x : UInt64) (count : UInt64) (small : count.toNat < 64) :
      (x >>> count).toNat = x.toNat / 2 ^ count.toNat := by
    rw [UInt64.toNat_shiftRight, Nat.mod_eq_of_lt small, Nat.shiftRight_eq_div_pow]
  simp only [decode, toNat, radix, Word.toNat_low51, toNat_load _ _ 8 le_rfl,
    shift _ 3 (by decide), shift _ 6 (by decide), shift _ 1 (by decide), shift _ 12 (by decide)]
  have s3 : (3 : UInt64).toNat = 3 := rfl
  have s6 : (6 : UInt64).toNat = 6 := rfl
  have s1 : (1 : UInt64).toNat = 1 := rfl
  have s12 : (12 : UInt64).toNat = 12 := rfl
  rw [s3, s6, s1, s12]
  omega

theorem decode_denotes (bytes : Bytes32) : Denotes 1 (bytes.toNat % 2 ^ 255 : Nat) (decode bytes) :=
  ⟨(decode_below bytes).mono (by decide), by rw [element, toNat_decode]⟩

theorem element_decode (bytes : Bytes32) :
    (decode bytes).element = (bytes.toNat % 2 ^ 255 : Nat) :=
  (decode_denotes bytes).element

theorem encoding_decode_eq_iff (bytes : Bytes32) :
    encoding (decode bytes).element = bytes ↔ bytes.toNat < prime := by
  have room : prime ≤ 2 ^ 255 := by decide
  rw [← Bytes32.toNat_injective.eq_iff, toNat_encoding, element_val, toNat_decode]
  constructor
  · intro same
    rw [← same]
    exact Nat.mod_lt _ (by decide)
  · intro small
    rw [Nat.mod_eq_of_lt (small.trans_le room), Nat.mod_eq_of_lt small]

theorem element_decode_encoding (x : Element) : (decode (encoding x)).element = x := by
  rw [element_decode, toNat_encoding, Nat.mod_eq_of_lt (val_lt_two_pow x)]
  exact ZMod.natCast_zmod_val x

end Decoding

section Encoding

theorem quotient_returns (a : Limbs) (below : a.Below reducedBound) :
    Returns (fun _ => quotient a) (fun q => q.toNat = (a.toNat + 19) / 2 ^ 255) := by
  have size : UInt64.size = 2 ^ 64 := rfl
  have nineteen : (19 : UInt64).toNat = 19 := rfl
  simp only [Below, reducedBound] at below
  unfold quotient
  refine (Word.add_returns a.l0 19 (by omega)).bind fun s0 h0 => ?_
  have k1 := Word.high51_lt s0
  refine (Word.add_returns a.l1 _ (by omega)).bind fun s1 h1 => ?_
  have k2 := Word.high51_lt s1
  refine (Word.add_returns a.l2 _ (by omega)).bind fun s2 h2 => ?_
  have k3 := Word.high51_lt s2
  refine (Word.add_returns a.l3 _ (by omega)).bind fun s3 h3 => ?_
  have k4 := Word.high51_lt s3
  refine (Word.add_returns a.l4 _ (by omega)).bind fun s4 h4 => ?_
  rw [Word.toNat_high51] at h1 h2 h3 h4
  apply Returns.pure
  rw [Word.toNat_high51]
  simp only [toNat, radix]
  omega

/-- Below twice the modulus, the carry out of 255 bits tells how often it is to be taken off. -/
theorem mod_prime_eq {n q : Nat} (upper : n < 2 * prime) (carry : q = (n + 19) / 2 ^ 255) :
    (n + 19 * q) % 2 ^ 255 = n % prime := by
  by_cases small : n < prime <;> simp only [prime] at *
  · have none : q = 0 := by omega
    omega
  · have once : q = 1 := by omega
    omega

theorem canonical_returns (a : Limbs) :
    Returns (fun _ => canonical a) (fun c => c.Below (2 ^ 51) ∧ c.toNat = a.toNat % prime) := by
  have size : UInt64.size = 2 ^ 64 := rfl
  have nineteen : (19 : UInt64).toNat = 19 := rfl
  unfold canonical
  refine (weakReduce_returns a).bind fun r ⟨below, value⟩ => ?_
  refine (quotient_returns r below).bind fun q hq => ?_
  have same : a.toNat % prime = r.toNat % prime := by rw [← value, Nat.add_mul_mod_self_right]
  simp only [Below, reducedBound] at below
  have small : q.toNat ≤ 1 := by simp only [toNat, radix] at hq; omega
  refine (Word.mul_returns 19 q (by rw [nineteen]; omega)).bind fun n hn => ?_
  rw [nineteen] at hn
  refine (Word.add_returns r.l0 n (by omega)).bind fun s0 h0 => ?_
  have k1 := Word.high51_lt s0
  refine (Word.add_returns r.l1 _ (by omega)).bind fun s1 h1 => ?_
  have k2 := Word.high51_lt s1
  refine (Word.add_returns r.l2 _ (by omega)).bind fun s2 h2 => ?_
  have k3 := Word.high51_lt s2
  refine (Word.add_returns r.l3 _ (by omega)).bind fun s3 h3 => ?_
  have k4 := Word.high51_lt s3
  refine (Word.add_returns r.l4 _ (by omega)).bind fun s4 h4 => ?_
  rw [Word.toNat_high51] at h1 h2 h3 h4
  refine .pure _ ⟨?_, ?_⟩
  · simp only [Below, Word.toNat_low51]
    omega
  · have upper : r.toNat < 2 * prime := by
      simp only [toNat, radix, prime]
      omega
    have dropped : toNat ⟨Word.low51 s0, Word.low51 s1, Word.low51 s2, Word.low51 s3,
        Word.low51 s4⟩ = (r.toNat + 19 * q.toNat) % 2 ^ 255 := by
      simp only [toNat, radix, Word.toNat_low51]
      omega
    rw [same, dropped]
    exact mod_prime_eq upper hq

theorem toNat_window (low high : UInt64) (shift : Nat) (within : shift ≤ 50)
    (below : low.toNat < 2 ^ 51) :
    ((low >>> .ofNat shift) ||| (high <<< .ofNat (51 - shift))).toUInt8.toNat =
      (low.toNat + 2 ^ 51 * high.toNat) / 2 ^ shift % 256 := by
  have power : 2 ^ (51 - shift) * 2 ^ shift = 2 ^ 51 := by
    rw [← pow_add, Nat.sub_add_cancel (by omega)]
  have positive : 0 < 2 ^ shift := pow_pos (by decide) _
  have down : (low >>> UInt64.ofNat shift).toNat = low.toNat / 2 ^ shift := by
    rw [UInt64.toNat_shiftRight, UInt64.toNat_ofNat_of_lt' (by change _ < 2 ^ 64; omega),
      Nat.mod_eq_of_lt (by omega), Nat.shiftRight_eq_div_pow]
  have up : (high <<< UInt64.ofNat (51 - shift)).toNat =
      2 ^ (51 - shift) * high.toNat % 2 ^ 64 := by
    rw [UInt64.toNat_shiftLeft, UInt64.toNat_ofNat_of_lt' (by change _ < 2 ^ 64; omega),
      Nat.mod_eq_of_lt (show 51 - shift < 64 by omega), Nat.shiftLeft_eq, Nat.mul_comm]
  have small : low.toNat / 2 ^ shift < 2 ^ (51 - shift) := by
    rw [Nat.div_lt_iff_lt_mul positive, power]
    exact below
  have aligned : 2 ^ 64 = 2 ^ (51 - shift) * 2 ^ (13 + shift) := by
    rw [← pow_add]
    congr 1
    omega
  have window : (low.toNat + 2 ^ 51 * high.toNat) / 2 ^ shift =
      low.toNat / 2 ^ shift + 2 ^ (51 - shift) * high.toNat := by
    rw [← power, Nat.mul_right_comm, Nat.add_mul_div_right _ _ positive]
  have octets : 2 ^ 64 % 256 = 0 := by norm_num
  rw [UInt64.toNat_toUInt8, UInt64.toNat_or, down, up, aligned, Nat.mul_mod_mul_left, Nat.or_comm,
    ← Nat.two_pow_add_eq_or_of_lt small, ← Nat.mul_mod_mul_left, ← aligned, window]
  omega

theorem window_mod (n rest shift : Nat) (within : shift ≤ 50) :
    (n + 2 ^ 102 * rest) / 2 ^ shift % 256 = n / 2 ^ shift % 256 := by
  have positive : 0 < 2 ^ shift := pow_pos (by decide) _
  have split : 2 ^ 102 * rest = 256 * (2 ^ (94 - shift) * rest) * 2 ^ shift := by
    have power : 2 ^ 102 = 256 * 2 ^ (94 - shift) * 2 ^ shift := by
      rw [show 256 = 2 ^ 8 by norm_num, ← pow_add, ← pow_add]
      congr 1
      omega
    rw [power]
    ring
  rw [split, Nat.add_mul_div_right _ _ positive, Nat.add_mul_mod_self_left]

theorem toNat_octet (a : Limbs) (below : a.Below (2 ^ 51)) (index : Nat) (bound : index < 32) :
    (octet a index).toNat = a.toNat / 256 ^ index % 256 := by
  obtain ⟨b0, b1, b2, b3, b4⟩ := below
  have within : 8 * index % 51 ≤ 50 := by omega
  have weight : (256 : Nat) ^ index = 2 ^ (51 * (8 * index / 51)) * 2 ^ (8 * index % 51) := by
    rw [← pow_add, Nat.div_add_mod, pow_mul]
    norm_num
  -- The limb that the octet starts in is one of the five, and leaves what is above it aligned.
  have place : 8 * index / 51 = 0 ∨ 8 * index / 51 = 1 ∨ 8 * index / 51 = 2 ∨
      8 * index / 51 = 3 ∨ 8 * index / 51 = 4 := by omega
  rw [octet, weight, ← Nat.div_div_eq_div_mul]
  rcases place with at0 | at1 | at2 | at3 | at4
  · have split : a.toNat / 2 ^ (51 * 0) =
        a.l0.toNat + 2 ^ 51 * a.l1.toNat + 2 ^ 102 * (a.toNat / 2 ^ 102) := by
      simp only [toNat, radix]
      omega
    rw [at0, split, window_mod _ _ _ within]
    exact toNat_window a.l0 a.l1 _ within b0
  · have split : a.toNat / 2 ^ (51 * 1) =
        a.l1.toNat + 2 ^ 51 * a.l2.toNat + 2 ^ 102 * (a.toNat / 2 ^ 153) := by
      simp only [toNat, radix]
      omega
    rw [at1, split, window_mod _ _ _ within]
    exact toNat_window a.l1 a.l2 _ within b1
  · have split : a.toNat / 2 ^ (51 * 2) =
        a.l2.toNat + 2 ^ 51 * a.l3.toNat + 2 ^ 102 * (a.toNat / 2 ^ 204) := by
      simp only [toNat, radix]
      omega
    rw [at2, split, window_mod _ _ _ within]
    exact toNat_window a.l2 a.l3 _ within b2
  · have split : a.toNat / 2 ^ (51 * 3) =
        a.l3.toNat + 2 ^ 51 * a.l4.toNat + 2 ^ 102 * 0 := by
      simp only [toNat, radix]
      omega
    rw [at3, split, window_mod _ _ _ within]
    exact toNat_window a.l3 a.l4 _ within b3
  · have split : a.toNat / 2 ^ (51 * 4) = a.l4.toNat + 2 ^ 51 * (0 : UInt64).toNat := by
      have zero : (0 : UInt64).toNat = 0 := rfl
      rw [zero]
      simp only [toNat, radix]
      omega
    rw [at4, split]
    exact toNat_window a.l4 0 _ within b4

/-- Whatever the limbs, what is written is the one encoding of their element. -/
theorem encode_returns (a : Limbs) :
    Returns (fun _ => encode a) (fun bytes => bytes = encoding a.element) := by
  unfold encode
  refine (canonical_returns a).bind fun c ⟨below, value⟩ => ?_
  have written : Vector.ofFn (fun index : Fin 32 => c.octet index.val) = encoding a.element := by
    apply Bytes32.eq_of_octet
    intro index bound
    apply UInt8.toNat_inj.mp
    rw [Bytes32.octet_toNat (encoding a.element), toNat_encoding, element_val, ← value,
      ← toNat_octet c below index bound]
    simp [Bytes32.octet, bound]
  have top : (encoding a.element).octet 31 &&& Bytes32.topMask = 0 := by
    have size := ZMod.val_lt a.element
    have room : prime < 2 ^ 255 := by decide
    apply UInt8.toNat_inj.mp
    rw [Bytes32.topBit_toNat, Bytes32.octet_toNat, toNat_encoding,
      show (256 : Nat) ^ 31 = 2 ^ 248 by norm_num]
    have zero : (0 : UInt8).toNat = 0 := rfl
    omega
  rw [← written] at top
  exact .require_bind top (.pure _ written)

theorem Denotes.encode {terms : Nat} {x : Element} {a : Limbs} (denotes : Denotes terms x a) :
    Returns (fun _ => Limbs.encode a) (fun bytes => bytes = encoding x) := by
  rw [← denotes.element]
  exact encode_returns a

theorem encode_returns_of_element_eq {a b : Limbs} (same : a.element = b.element) :
    Returns (fun _ => encode a) (fun bytes => bytes = Id.run (encode b)) := by
  rw [(encode_returns b).run, ← same]
  exact encode_returns a

/-- Any limbs at all are written as the least integer of their class, and decode to the same element
again. Octets decode by their low 255 bits, 51 to a limb, and are written back unchanged just where
they spell an integer below the modulus. -/
theorem encode_decode (a : Limbs) (bytes : Bytes32) :
    Returns (fun _ => encode a) (fun octets =>
      octets.toNat = (a.l0.toNat + 2 ^ 51 * a.l1.toNat + 2 ^ 102 * a.l2.toNat
        + 2 ^ 153 * a.l3.toNat + 2 ^ 204 * a.l4.toNat) % prime ∧
      octets.toNat < prime ∧ (decode octets).element = a.element) ∧
    (decode bytes).Below (2 ^ 51) ∧ (decode bytes).toNat = bytes.toNat % 2 ^ 255 ∧
    (Id.run (encode (decode bytes)) = bytes ↔ bytes.toNat < prime) := by
  have spelled : a.toNat = a.l0.toNat + 2 ^ 51 * a.l1.toNat + 2 ^ 102 * a.l2.toNat
      + 2 ^ 153 * a.l3.toNat + 2 ^ 204 * a.l4.toNat := by
    simp only [toNat, radix]
    omega
  refine ⟨?_, decode_below bytes, toNat_decode bytes, ?_⟩
  · apply (encode_returns a).mono
    intro octets written
    rw [written, toNat_encoding, element_decode_encoding, ← spelled, ← element_val]
    exact ⟨rfl, ZMod.val_lt a.element, rfl⟩
  · rw [(encode_returns (decode bytes)).run]
    exact encoding_decode_eq_iff bytes

theorem equal_returns (a b : Limbs) :
    Returns (fun _ => equal a b) (fun same => same = decide (a.element = b.element)) := by
  unfold equal
  refine (encode_returns a).bind fun x hx => ?_
  refine (encode_returns b).bind fun y hy => ?_
  apply Returns.pure
  rw [hx, hy, beq_eq_decide, decide_eq_decide]
  exact encoding_injective.eq_iff

theorem encoding_zero : encoding 0 = Bytes32.zero := by decide

theorem isZero_returns (a : Limbs) :
    Returns (fun _ => isZero a) (fun zero => zero = decide (a.element = 0)) := by
  unfold isZero
  refine (encode_returns a).bind fun x hx => ?_
  apply Returns.pure
  rw [hx, ← encoding_zero, beq_eq_decide, decide_eq_decide]
  exact encoding_injective.eq_iff

theorem isNegative_returns (a : Limbs) :
    Returns (fun _ => isNegative a) (fun odd => odd = decide (a.element.val % 2 = 1)) := by
  unfold isNegative
  refine (encode_returns a).bind fun x hx => ?_
  apply Returns.pure
  have bit : (x.octet 0 &&& 1).toNat = a.element.val % 2 := by
    have one : (1 : UInt8).toNat = 1 := rfl
    rw [hx, UInt8.toNat_and, Bytes32.octet_toNat, toNat_encoding, one, Nat.and_one_is_mod]
    omega
  rw [beq_eq_decide, decide_eq_decide, ← UInt8.toNat_inj, bit]
  rfl

theorem double_mod_odd_iff {n : Nat} (below : n < prime) :
    (n + n) % prime % 2 = 1 ↔ (prime - 1) / 2 < n := by
  have odd := prime_eq_twice_half
  by_cases high : (prime - 1) / 2 < n
  · have wraps : (n + n) % prime = n + n - prime := by
      rw [Nat.mod_eq_sub_mod (by omega), Nat.mod_eq_of_lt (by omega)]
    omega
  · have stays : (n + n) % prime = n + n := Nat.mod_eq_of_lt (by omega)
    omega

theorem isHigh_returns (a : Limbs) (below : a.Below (2 ^ 63)) :
    Returns (fun _ => isHigh a) (fun high => high = decide ((prime - 1) / 2 < a.element.val)) := by
  have size : UInt64.size = 2 ^ 64 := rfl
  have fits : SumsFit a a := by
    simp only [Below] at below
    unfold SumsFit
    omega
  unfold isHigh
  refine (add_returns a a fits).bind fun c sum => ?_
  refine (isNegative_returns c).mono fun high odd => ?_
  rw [odd, sum.2, decide_eq_decide, ZMod.val_add]
  exact double_mod_odd_iff (ZMod.val_lt a.element)

end Encoding
end Limbs
end Curve25519
