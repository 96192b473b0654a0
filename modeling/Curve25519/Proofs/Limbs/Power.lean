import Curve25519.Limbs.Power
import Curve25519.Proofs.Limbs.Encoding
import Curve25519.Proofs.Limbs.Product

/-! The two fixed powers of an element.
Each link of the chain puts two runs of ones together, so that its exponent is known from the
lengths of the runs alone; the inverse then comes from Fermat's theorem, and obeys the laws of the
inverse whatever limbs stand for the elements. -/

namespace Curve25519.Limbs

variable {terms : Nat} {x : Element} {a b : Limbs}

theorem ones_mul_ones (x : Element) (upper lower : Nat) :
    (x ^ (2 ^ upper - 1)) ^ 2 ^ lower * x ^ (2 ^ lower - 1) = x ^ (2 ^ (upper + lower) - 1) := by
  rw [← pow_mul, ← pow_add]
  congr 1
  have first : 0 < 2 ^ upper := pow_pos (by decide) _
  have second : 0 < 2 ^ lower := pow_pos (by decide) _
  rw [pow_add, Nat.sub_mul, Nat.one_mul]
  have third : 2 ^ lower ≤ 2 ^ upper * 2 ^ lower := Nat.le_mul_of_pos_left _ first
  omega

theorem Denotes.joinOnes {α : Type} {next : Limbs → Procedure α} {final : α → Prop}
    {upper : Nat} (lower : Nat) (first : Denotes 1 (x ^ (2 ^ upper - 1)) a)
    (second : Denotes 1 (x ^ (2 ^ lower - 1)) b) (positive : 0 < lower)
    (rest : ∀ c, Denotes 1 (x ^ (2 ^ (upper + lower) - 1)) c → Returns (next c) final) :
    Returns (fun m => do
      let moved ← Limbs.squareTimes a lower
      let joined ← Limbs.mul moved b
      next joined m) final := by
  refine (first.squareTimes (by decide) lower positive).bind fun moved shifted => ?_
  rw [← ones_mul_ones] at rest
  exact (shifted.mul second (by decide) (by decide)).bind rest

theorem IsFactor.powOnes (factor : IsFactor x a) :
    Returns (fun _ => Limbs.powOnes a) (fun powers =>
      Denotes 1 (x ^ (2 ^ 250 - 1)) powers.1 ∧ Denotes 1 (x ^ 11) powers.2) := by
  unfold Limbs.powOnes
  refine factor.square.bind fun x2 h2 => ?_
  refine (h2.square (by decide)).bind fun x4 h4 => ?_
  refine (h4.square (by decide)).bind fun x8 h8 => ?_
  refine (factor.mul (h8.isFactor (by decide))).bind fun x9 h9 => ?_
  refine (h2.mul h9 (by decide) (by decide)).bind fun x11 h11 => ?_
  refine (h11.square (by decide)).bind fun x22 h22 => ?_
  refine (h9.mul h22 (by decide) (by decide)).bind fun ones5 h5 => ?_
  have eleven : x ^ 2 * (x * ((x ^ 2) ^ 2) ^ 2) = x ^ 11 := by ring
  have five : x * ((x ^ 2) ^ 2) ^ 2 * (x ^ 2 * (x * ((x ^ 2) ^ 2) ^ 2)) ^ 2 = x ^ (2 ^ 5 - 1) := by
    ring
  rw [eleven] at h11
  rw [five] at h5
  refine h5.joinOnes 5 h5 (by decide) fun ones10 h10 => ?_
  refine h10.joinOnes 10 h10 (by decide) fun ones20 h20 => ?_
  refine h20.joinOnes 20 h20 (by decide) fun ones40 h40 => ?_
  refine h40.joinOnes 10 h10 (by decide) fun ones50 h50 => ?_
  refine h50.joinOnes 50 h50 (by decide) fun ones100 h100 => ?_
  refine h100.joinOnes 100 h100 (by decide) fun ones200 h200 => ?_
  refine h200.joinOnes 50 h50 (by decide) fun ones250 h250 => ?_
  exact .pure _ ⟨h250, h11⟩

theorem pow_modulus_sub_two (x : Element) : x ^ (prime - 2) = x⁻¹ := by
  by_cases zero : x = 0
  · rw [zero, inv_zero, zero_pow (by decide)]
  · have fermat : x ^ (prime - 2) * x = 1 := by
      rw [← pow_succ]
      exact ZMod.pow_card_sub_one_eq_one zero
    exact eq_inv_of_mul_eq_one_left fermat

theorem IsFactor.invert_pow (factor : IsFactor x a) :
    Returns (fun _ => Limbs.invert a) (Denotes 1 (x ^ (prime - 2))) := by
  unfold Limbs.invert
  refine factor.powOnes.bind fun powers ⟨ones, eleven⟩ => ?_
  refine (ones.squareTimes (by decide) 5 (by decide)).bind fun moved shifted => ?_
  have exponent : (x ^ (2 ^ 250 - 1)) ^ 2 ^ 5 * x ^ 11 = x ^ (prime - 2) := by
    rw [← pow_mul, ← pow_add]
    congr 1
  rw [← exponent]
  exact shifted.mul eleven (by decide) (by decide)

theorem IsFactor.invert (factor : IsFactor x a) :
    Returns (fun _ => Limbs.invert a) (Denotes 1 x⁻¹) := by
  rw [← pow_modulus_sub_two]
  exact factor.invert_pow

theorem Denotes.invert (denotes : Denotes terms x a) (few : terms ≤ 7) :
    Returns (fun _ => Limbs.invert a) (Denotes 1 x⁻¹) :=
  (denotes.isFactor few).invert

theorem IsFactor.rootPower (factor : IsFactor x a) :
    Returns (fun _ => Limbs.rootPower a) (Denotes 1 (x ^ ((prime - 5) / 8))) := by
  unfold Limbs.rootPower
  refine factor.powOnes.bind fun powers ⟨ones, _⟩ => ?_
  refine (ones.squareTimes (by decide) 2 (by decide)).bind fun moved shifted => ?_
  have exponent : x * (x ^ (2 ^ 250 - 1)) ^ 2 ^ 2 = x ^ ((prime - 5) / 8) := by
    rw [← pow_mul, ← pow_succ']
    congr 1
  rw [← exponent]
  exact factor.mul (shifted.isFactor (by decide))

section Laws
variable {y : Element}

theorem IsFactor.mul_invert (factor : IsFactor x a) (nonzero : x ≠ 0) :
    Returns (fun _ => do encode (← Limbs.mul a (← Limbs.invert a)))
      (fun bytes => bytes.toNat = 1) := by
  apply factor.invert.bind
  intro inverse denotes
  apply (factor.mul (denotes.isFactor (by decide))).bind
  intro product one
  rw [mul_inv_cancel₀ nonzero] at one
  apply one.encode.mono
  intro bytes written
  rw [written, toNat_encoding, ZMod.val_one]

theorem IsFactor.invert_zero (factor : IsFactor 0 a) :
    Returns (fun _ => do encode (← Limbs.invert a)) (fun bytes => bytes = Bytes32.zero) := by
  apply factor.invert.bind
  intro inverse denotes
  rw [inv_zero] at denotes
  rw [← encoding_zero]
  exact denotes.encode

theorem IsFactor.invert_invert (factor : IsFactor x a) :
    Returns (fun _ => do encode (← Limbs.invert (← Limbs.invert a)))
      (fun bytes => bytes = Id.run (encode a)) := by
  apply factor.invert.bind
  intro inverse denotes
  apply (denotes.invert (by decide)).bind
  intro again denotes'
  apply encode_returns_of_element_eq
  rw [denotes'.element, inv_inv, factor.element]

theorem IsFactor.invert_mul (first : IsFactor x a) (second : IsFactor y b) :
    Returns (fun _ => do
      let inverse ← Limbs.invert (← Limbs.mul a b)
      let inverses ← Limbs.mul (← Limbs.invert a) (← Limbs.invert b)
      equal inverse inverses) (fun same => same = true) := by
  apply (first.mul second).bind
  intro product hproduct
  apply (hproduct.invert (by decide)).bind
  intro inverse hinverse
  apply first.invert.bind
  intro inverseA hA
  apply second.invert.bind
  intro inverseB hB
  apply (hA.mul hB (by decide) (by decide)).bind
  intro inverses hinverses
  apply (equal_returns inverse inverses).mono
  intro same isSame
  rw [isSame, hinverse.element, hinverses.element, mul_inv, decide_eq_true_iff]

/-- The chain raises any factor to just the two powers that it is meant for. The first of them is the
inverse: the product with the element is one, unless the element is zero, whose inverse is zero; the
inverse of the inverse is the element, and that of a product is the product of the inverses. -/
theorem powers_exact (a b : Limbs) (belowA : a.Below (2 ^ 54)) (belowB : b.Below (2 ^ 54)) :
    Returns (fun _ => invert a) (fun c => c.element = a.element ^ (prime - 2)) ∧
    Returns (fun _ => rootPower a) (fun c => c.element = a.element ^ ((prime - 5) / 8)) ∧
    (a.element ≠ 0 → Returns (fun _ => do encode (← mul a (← invert a)))
      (fun bytes => bytes.toNat = 1)) ∧
    (a.element = 0 → Returns (fun _ => do encode (← invert a))
      (fun bytes => bytes = Bytes32.zero)) ∧
    Returns (fun _ => do encode (← invert (← invert a))) (fun bytes => bytes = Id.run (encode a)) ∧
    Returns (fun _ => do
      let inverse ← invert (← mul a b)
      let inverses ← mul (← invert a) (← invert b)
      equal inverse inverses) (fun same => same = true) := by
  have first : IsFactor a.element a := ⟨belowA, rfl⟩
  have second : IsFactor b.element b := ⟨belowB, rfl⟩
  have inverse := first.invert_pow.mono fun c denotes => denotes.element
  have root := first.rootPower.mono fun c denotes => denotes.element
  refine ⟨inverse, root, first.mul_invert, ?_, first.invert_invert, first.invert_mul second⟩
  intro zero
  exact IsFactor.invert_zero ⟨belowA, zero⟩

theorem powers_exact_largestFactor :
    let inverse := Id.run (invert largestFactor)
    let inverses := Id.run do mul inverse (← invert minusOne)
    largestFactor.Below (2 ^ 54) ∧ minusOne.Below (2 ^ 54) ∧ zero.Below (2 ^ 54) ∧
      largestFactor.element ≠ 0 ∧ zero.element = 0 ∧
      inverse.element = largestFactor.element ^ (prime - 2) ∧
      (Id.run (do encode (← mul largestFactor inverse))).toNat = 1 ∧
      Id.run (do encode (← invert zero)) = Bytes32.zero ∧
      Id.run (do encode (← invert inverse)) = Id.run (encode largestFactor) ∧
      Id.run (do equal (← invert (← mul largestFactor minusOne)) inverses) = true := by
  intro inverse inverses
  have below : largestFactor.Below (2 ^ 54) := by decide
  have below' : minusOne.Below (2 ^ 54) := by decide
  have belowZero : zero.Below (2 ^ 54) := by decide
  have nonzero : largestFactor.element ≠ 0 := by
    intro zero
    have value := element_val largestFactor
    rw [zero, ZMod.val_zero] at value
    exact absurd value (by decide)
  obtain ⟨power, _, one, _, again, product⟩ := powers_exact largestFactor minusOne below below'
  obtain ⟨_, _, _, none, _⟩ := powers_exact zero minusOne belowZero below'
  exact ⟨below, below', belowZero, nonzero, zero_denotes.element, power.run, (one nonzero).run,
    (none zero_denotes.element).run, again.run, product.run⟩

end Laws

end Curve25519.Limbs
