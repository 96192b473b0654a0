import Curve25519.Key.Secret
import Curve25519.Proofs.UPoint

/-! The key agreement function as RFC 7748 writes it, and that the library computes it.
The standard decodes both octet strings to integers, runs a ladder of 255 steps over the integers
modulo p and divides by raising to the power p - 2. Its step multiplies by 121665 where ours
multiplies by 121666, and it collects its exchanges in a swap bit. Exchanged as that bit says, its
registers are the rungs of the textbook ladder, and these are what the limbs stand for as well. -/

namespace Curve25519.Standard
open Montgomery (Rungs)

section Coding

def decodeLittleEndian (octets : List UInt8) : Nat :=
  (octets.mapIdx fun i octet => octet.toNat <<< (8 * i)).sum

def decodeScalar (k : Bytes32) : Nat :=
  decodeLittleEndian (((k.toList.modify 0 (· &&& 248)).modify 31 (· &&& 127)).modify 31 (· ||| 64))

/-- The unused bit is masked; nothing keeps the integer below p. -/
def decodeCoordinate (u : Bytes32) : Nat :=
  decodeLittleEndian (u.toList.modify 31 (· &&& 127))

def encodeCoordinate (u : Nat) : Bytes32 :=
  Vector.ofFn fun i => .ofNat ((u % prime) >>> (8 * i.val) &&& 255)

theorem decodeLittleEndian_eq (octets : List UInt8) :
    decodeLittleEndian octets = littleEndian octets := by
  induction octets with
  | nil => rfl
  | cons octet rest ih =>
    have shift (i : Nat) (octet : UInt8) :
        octet.toNat <<< (8 * (i + 1)) = 256 * (octet.toNat <<< (8 * i)) := by
      rw [Nat.shiftLeft_eq, Nat.shiftLeft_eq, Nat.mul_add, pow_add]
      ring
    have tail : (rest.mapIdx fun i octet => octet.toNat <<< (8 * (i + 1))).sum =
        256 * decodeLittleEndian rest := by
      simp only [shift, decodeLittleEndian, List.mapIdx_eq_zipIdx_map, List.sum_map_mul_left]
    rw [decodeLittleEndian, List.mapIdx_cons, List.sum_cons, tail, ih]
    rfl

theorem decodeScalar_eq (k : Bytes32) : decodeScalar k = (Scalar.clamp k).toNat := by
  rw [decodeScalar, decodeLittleEndian_eq, List.modify_modify_eq, ← Bytes32.toList_modify,
    ← Bytes32.toList_modify]
  rfl

theorem decodeCoordinate_eq (u : Bytes32) : decodeCoordinate u = u.toNat % 2 ^ 255 := by
  rw [decodeCoordinate, decodeLittleEndian_eq, ← Bytes32.toList_modify]
  exact u.toNat_clearTop

theorem encodeCoordinate_val (x : Element) : encodeCoordinate x.val = encoding x := by
  rw [encodeCoordinate, encoding, Bytes32.ofNat, Nat.mod_eq_of_lt (ZMod.val_lt x)]
  congr 1
  funext i
  apply UInt8.toNat_inj.mp
  have low := Nat.and_two_pow_sub_one_eq_mod (x.val >>> (8 * i.val)) 8
  rw [UInt8.toNat_ofNat', UInt8.toNat_ofNat', low, Nat.mod_mod]

end Coding

section Ladder

structure State where
  x2 : Element
  z2 : Element
  x3 : Element
  z3 : Element

def State.swapIf (swap : Bool) (s : State) : State :=
  if swap then ⟨s.x3, s.z3, s.x2, s.z2⟩ else s

def a24 : Element := 121665

def step (x1 : Element) (s : State) : State :=
  let a := s.x2 + s.z2
  let aa := a ^ 2
  let b := s.x2 - s.z2
  let bb := b ^ 2
  let e := aa - bb
  let c := s.x3 + s.z3
  let d := s.x3 - s.z3
  let da := d * a
  let cb := c * b
  { x3 := (da + cb) ^ 2
    z3 := x1 * (da - cb) ^ 2
    x2 := aa * bb
    z2 := e * (aa + a24 * e) }

def run (x1 : Element) (k : Nat) : (count : Nat) → (swap : Bool) → State → State
  | 0, swap, s => s.swapIf swap
  | t + 1, swap, s =>
      let bit := k >>> t &&& 1 == 1
      run x1 k t bit (step x1 (s.swapIf (swap ^^ bit)))

def multiply (k u : Nat) : Element :=
  let s := run u k 255 false ⟨1, 0, u, 1⟩
  s.x2 * s.z2 ^ (prime - 2)

def State.rungs (s : State) : Rungs Element := ⟨⟨s.x2, s.z2⟩, ⟨s.x3, s.z3⟩⟩

theorem rungs_swapIf_true (s : State) :
    (s.swapIf true).rungs = ⟨s.rungs.second, s.rungs.first⟩ := rfl

theorem swapIf_xor (before bit : Bool) (s : State) :
    s.swapIf (before ^^ bit) = (s.swapIf before).swapIf bit := by
  cases before <;> cases bit <;> rfl

/-- The factor that is one less goes with a square that is more by what it multiplies. -/
theorem rungs_step (x1 : Element) (s : State) :
    (step x1 s).rungs =
      ⟨s.rungs.first.double Curve.montgomery.doublingFactor,
        s.rungs.first.add x1 s.rungs.second⟩ := by
  simp only [State.rungs, step, Ratio.double, Ratio.add, a24, Curve.doublingFactor_montgomery,
    Rungs.mk.injEq, Ratio.mk.injEq]
  refine ⟨⟨trivial, ?_⟩, ?_, ?_⟩
  · ring
  · ring
  · ring

theorem rungs_swapIf_step (x1 : Element) (bit : Bool) (s : State) :
    ((step x1 (s.swapIf bit)).swapIf bit).rungs =
      s.rungs.step Curve.montgomery.doublingFactor x1 bit := by
  cases bit with
  | false => exact rungs_step x1 s
  | true =>
    rw [rungs_swapIf_true, rungs_step, rungs_swapIf_true, Ratio.add_comm]
    rfl

theorem shiftRight_and_one_beq (n t : Nat) : (n >>> t &&& 1 == 1) = n.testBit t := by
  rw [Nat.testBit_eq_decide_div_mod_eq, Nat.shiftRight_eq_div_pow, Nat.and_one_is_mod,
    beq_eq_decide]

/-- Through all the bits, the registers exchanged as the swap bit says are the rungs. -/
theorem rungs_run (x1 : Element) (bytes : Bytes32) (count : Nat) (swap : Bool) (s : State) :
    (run x1 bytes.toNat count swap s).rungs =
      (bytes.lowBits count).foldl (Rungs.step Curve.montgomery.doublingFactor x1)
        (s.swapIf swap).rungs := by
  induction count generalizing swap s with
  | zero => rfl
  | succ t ih =>
    rw [run, Bytes32.lowBits, List.foldl_cons, ih, shiftRight_and_one_beq, ← Bytes32.bit_eq,
      swapIf_xor, rungs_swapIf_step]

theorem multiply_eq (bytes : Bytes32) (u : Nat) :
    multiply bytes.toNat u = (Rungs.climb Curve.montgomery.doublingFactor (u : Element)
      (Scalar.bits bytes)).first.value := by
  have registers := rungs_run u bytes 255 false ⟨1, 0, u, 1⟩
  rw [multiply, Limbs.pow_modulus_sub_two]
  exact congrArg (fun rungs => rungs.first.value) registers

end Ladder

section Agreement

def x25519 (k u : Bytes32) : Bytes32 :=
  encodeCoordinate (multiply (decodeScalar k) (decodeCoordinate u)).val

theorem x25519_eq (k u : Bytes32) :
    x25519 k u = encoding (Rungs.climb Curve.montgomery.doublingFactor (UPoint.element ⟨u⟩)
      (Scalar.bits (Scalar.clamp k))).first.value := by
  rw [x25519, encodeCoordinate_val, decodeScalar_eq, decodeCoordinate_eq, multiply_eq]
  rfl

theorem mulClamped_eq_standard (k u : Bytes32) :
    (Id.run (UPoint.mulClamped ⟨u⟩ k)).bytes = x25519 k u := by
  have written := (UPoint.mulBits_returns_climb ⟨u⟩ (Scalar.bits (Scalar.clamp k))).run
  rw [x25519_eq]
  exact congrArg UPoint.bytes written

/-- On any octets, be they canonical or not, the function of the library and the key agreement of a
secret with a public key give the octets of the standard. -/
theorem x25519_eq_standard (k u : Bytes32) :
    Id.run (Curve25519.x25519 k u) = x25519 k u ∧
      (Id.run ((Secret.ofKey k).agree (.ofBytes u))).bytes = x25519 k u := by
  have clamped : (Id.run ((Secret.ofKey k).agree (.ofBytes u))).bytes =
      (Id.run (UPoint.mulBits ⟨u⟩ (Scalar.bits (Scalar.clamp (Scalar.clamp k))))).bytes := rfl
  rw [Scalar.clamp_clamp] at clamped
  exact ⟨mulClamped_eq_standard k u, clamped.trans (mulClamped_eq_standard k u)⟩

end Agreement

end Curve25519.Standard
