import Curve25519.Proofs.Limbs.Encoding

/-! Differences and negatives, and the lower of an element and its negative.
A difference starts from sixteen times the modulus, of which no limb is exceeded by the subtrahend;
what it leaves has limbs small enough for the next sum or difference, so that one undoes the other.
An element other than zero and its negative lie on different sides of half the modulus, and the lower
of the two needs no more than 254 bits. -/

namespace Curve25519

section Halves

def IsLow (x : Element) : Prop := x.val ≤ (prime - 1) / 2

/-- The lesser of the two integers that stand for an element and for its negative. -/
def lesser (x : Element) : Nat := min x.val (prime - x.val)

theorem lesser_le (x : Element) : lesser x ≤ (prime - 1) / 2 := by
  have odd := prime_eq_twice_half
  unfold lesser
  omega

theorem val_negIf_high (x : Element) :
    (if decide ((prime - 1) / 2 < x.val) then -x else x).val = lesser x := by
  have bound := ZMod.val_lt x
  have odd := prime_eq_twice_half
  unfold lesser
  by_cases high : (prime - 1) / 2 < x.val
  · have nonzero : x ≠ 0 := by
      intro zero
      rw [zero, ZMod.val_zero] at high
      omega
    rw [decide_eq_true high, if_pos rfl, ZMod.neg_val, if_neg nonzero]
    omega
  · rw [decide_eq_false high, if_neg Bool.false_ne_true]
    omega

theorem low_of_negIf (x : Element) :
    IsLow (if decide ((prime - 1) / 2 < x.val) then -x else x) := by
  rw [IsLow, val_negIf_high]
  exact lesser_le x

theorem high_neg {x : Element} (nonzero : x ≠ 0) :
    decide ((prime - 1) / 2 < (-x).val) = !decide ((prime - 1) / 2 < x.val) := by
  have bound := ZMod.val_lt x
  have odd := prime_eq_twice_half
  rw [ZMod.neg_val, if_neg nonzero, ← decide_not, decide_eq_decide]
  omega

theorem eq_of_sq_eq {x y : Element} (same : x ^ 2 = y ^ 2) (low : IsLow x) (low' : IsLow y) :
    x = y := by
  rcases sq_eq_sq_iff_eq_or_eq_neg.mp same with equal | opposite
  · exact equal
  · unfold IsLow at low low'
    rw [opposite, ZMod.neg_val] at low
    by_cases zero : y = 0
    · rw [opposite, zero, neg_zero]
    · have odd := prime_eq_twice_half
      rw [if_neg zero] at low
      omega

theorem lesser_sq (x : Element) : (lesser x : Element) ^ 2 = x ^ 2 := by
  have bound := ZMod.val_lt x
  have value : (x.val : Element) = x := ZMod.natCast_zmod_val x
  rcases min_choice x.val (prime - x.val) with same | opposite
  · rw [lesser, same, value]
  · rw [lesser, opposite, Nat.cast_sub bound.le, ZMod.natCast_self, zero_sub, value, neg_sq]

theorem val_eq_lesser {x y : Element} (low : IsLow y) (same : y ^ 2 = x ^ 2) :
    y.val = lesser x := by
  have small : lesser x < prime := (lesser_le x).trans_lt (by decide)
  have low' : IsLow (lesser x) := by
    rw [IsLow, ZMod.val_natCast_of_lt small]
    exact lesser_le x
  have equal : y = (lesser x : Element) := eq_of_sq_eq (same.trans (lesser_sq x).symm) low low'
  rw [equal, ZMod.val_natCast_of_lt small]

end Halves

namespace Limbs

section Room
variable {x : Element} {a b : Limbs}

theorem AtMost.below {bound : Nat} (atMost : a.AtMost b) (below : b.Below bound) :
    a.Below bound := by
  unfold AtMost at atMost
  simp only [UInt64.le_iff_toNat_le] at atMost
  unfold Below at *
  omega

theorem AtMost.below_sixteenPrimes (atMost : a.AtMost sixteenPrimes) : a.Below (2 ^ 55) :=
  atMost.below (by decide)

theorem Denotes.reduced (denotes : Denotes 1 x a) :
    a.Below (2 ^ 51 + 2 ^ 18) ∧ a.element = x :=
  ⟨denotes.below.mono (by decide), denotes.element⟩

end Room

section Undone
variable {a b : Limbs}

theorem encode_sub_add_returns (atMost : b.AtMost sixteenPrimes)
    (fits : SumsFit a sixteenPrimes) :
    Returns (fun _ => do encode (← add (← sub a b) b))
      (fun bytes => bytes = Id.run (encode a)) := by
  apply (sub_returns a b atMost fits).bind
  intro d difference
  -- A reduced result leaves room for whatever may be a subtrahend.
  have room : SumsFit d b := (difference.below.sums atMost.below_sixteenPrimes).mono (by decide)
  apply (add_returns d b room).bind
  intro c sum
  apply encode_returns_of_element_eq
  rw [sum.2, difference.element, sub_add_cancel]

theorem encode_add_neg_returns (atMost : b.AtMost sixteenPrimes) :
    Returns (fun _ => do encode (← add b (← neg b))) (fun bytes => bytes = Bytes32.zero) := by
  apply (neg_returns b atMost).bind
  intro d opposite
  have room : SumsFit b d := (atMost.below_sixteenPrimes.sums opposite.below).mono (by decide)
  apply (add_returns b d room).bind
  intro c sum
  apply (encode_returns c).mono
  intro bytes written
  rw [written, sum.2, opposite.element, add_neg_cancel, encoding_zero]

theorem encode_neg_neg_returns (atMost : b.AtMost sixteenPrimes) :
    Returns (fun _ => do encode (← neg (← neg b))) (fun bytes => bytes = Id.run (encode b)) := by
  apply (neg_returns b atMost).bind
  intro d opposite
  apply (neg_returns d (opposite.atMost (by decide))).bind
  intro c again
  apply encode_returns_of_element_eq
  rw [again.element, opposite.element, neg_neg]

end Undone

/-- Limbs are subtracted and negated without a borrow where none exceeds that of sixteen times the
modulus and the minuend leaves room for these; what comes out is reduced and stands for the right
element. A sum stands for the right element wherever its limbs fit. So a sum undoes a difference, and
a negative is undone by a second one, down to the octets. -/
theorem differences_exact (a b : Limbs) :
    (b.AtMost sixteenPrimes → SumsFit a sixteenPrimes →
      Returns (fun _ => sub a b) (fun c =>
        c.Below (2 ^ 51 + 2 ^ 18) ∧ c.element = a.element - b.element) ∧
      Returns (fun _ => neg b) (fun c => c.Below (2 ^ 51 + 2 ^ 18) ∧ c.element = -b.element) ∧
      Returns (fun _ => do encode (← add (← sub a b) b))
        (fun bytes => bytes = Id.run (encode a)) ∧
      Returns (fun _ => do encode (← add b (← neg b))) (fun bytes => bytes = Bytes32.zero) ∧
      Returns (fun _ => do encode (← neg (← neg b))) (fun bytes => bytes = Id.run (encode b))) ∧
    (SumsFit a b → Returns (fun _ => add a b) (fun c => c.element = a.element + b.element)) := by
  constructor
  · intro atMost fits
    have difference := (sub_returns a b atMost fits).mono fun c denotes => denotes.reduced
    have opposite := (neg_returns b atMost).mono fun c denotes => denotes.reduced
    exact ⟨difference, opposite, encode_sub_add_returns atMost fits,
      encode_add_neg_returns atMost, encode_neg_neg_returns atMost⟩
  · intro fits
    exact (add_returns a b fits).mono fun c sum => sum.2

def largestMinuend : Limbs :=
  ⟨0xff8000000000012f, 0xff8000000000000f, 0xff8000000000000f, 0xff8000000000000f,
    0xff8000000000000f⟩

theorem differences_exact_largest :
    let difference := Id.run (sub largestMinuend sixteenPrimes)
    let opposite := Id.run (neg sixteenPrimes)
    sixteenPrimes.AtMost sixteenPrimes ∧ SumsFit largestMinuend sixteenPrimes ∧
      SumsFit one minusOne ∧
      difference.Below (2 ^ 51 + 2 ^ 18) ∧
      difference.element = largestMinuend.element - sixteenPrimes.element ∧
      opposite.Below (2 ^ 51 + 2 ^ 18) ∧ opposite.element = -sixteenPrimes.element ∧
      Id.run (do encode (← add difference sixteenPrimes)) = Id.run (encode largestMinuend) ∧
      (Id.run (add one minusOne)).element = one.element + minusOne.element := by
  intro difference opposite
  have atMost : sixteenPrimes.AtMost sixteenPrimes := by decide
  have room : SumsFit largestMinuend sixteenPrimes := by
    unfold SumsFit
    decide
  have room' : SumsFit one minusOne := by
    unfold SumsFit
    decide
  obtain ⟨sub, neg, undone, _⟩ := (differences_exact largestMinuend sixteenPrimes).1 atMost room
  have sum := (differences_exact one minusOne).2 room'
  exact ⟨atMost, room, room', sub.run.1, sub.run.2, neg.run.1, neg.run.2, undone.run,
    sum.run⟩

section Lower

theorem negIf_returns (choice : Bool) (a : Limbs) (atMost : a.AtMost sixteenPrimes) :
    Returns (fun _ => negIf choice a)
      (fun c => c.element = if choice then -a.element else a.element) := by
  unfold negIf
  apply (neg_returns a atMost).bind
  intro opposite denotes
  apply Returns.pure
  cases choice
  · rfl
  · exact denotes.element

variable {a : Limbs}

theorem AtMost.isHigh_returns (atMost : a.AtMost sixteenPrimes) :
    Returns (fun _ => isHigh a) (fun high => high = decide ((prime - 1) / 2 < a.element.val)) :=
  Limbs.isHigh_returns a (atMost.below_sixteenPrimes.mono (by decide))

theorem isHigh_neg_returns (atMost : a.AtMost sixteenPrimes) (nonzero : a.element ≠ 0) :
    Returns (fun _ => do
      let here ← isHigh a
      let there ← isHigh (← neg a)
      return (here, there)) (fun sides => sides.2 = !sides.1) := by
  apply atMost.isHigh_returns.bind
  intro here high
  apply (neg_returns a atMost).bind
  intro opposite denotes
  apply (denotes.atMost (by decide)).isHigh_returns.bind
  intro there high'
  apply Returns.pure
  rw [high, high', denotes.element]
  exact high_neg nonzero

theorem negIf_isHigh_returns (atMost : a.AtMost sixteenPrimes) :
    Returns (fun _ => do
      let lower ← negIf (← isHigh a) a
      return (lower, ← encode lower)) (fun result =>
        result.1.element.val = lesser a.element ∧ result.2.toNat = lesser a.element) := by
  apply atMost.isHigh_returns.bind
  intro high isHigh
  apply (negIf_returns high a atMost).bind
  intro lower turned
  apply (encode_returns lower).bind
  intro bytes written
  apply Returns.pure
  rw [isHigh] at turned
  have least : lower.element.val = lesser a.element := by
    rw [turned]
    exact val_negIf_high a.element
  exact ⟨least, by rw [written, toNat_encoding, least]⟩

/-- An element is high where its least integer exceeds half the modulus, whatever limbs stand for it.
Of an element other than zero and its negative just one is high; turned where it is high, an element
becomes the lesser of its integer and that of its negative, and bits 254 and 255 of it are clear. -/
theorem isHigh_exact (a : Limbs) :
    (a.Below (2 ^ 63) →
      Returns (fun _ => isHigh a) (fun high => high = true ↔ (prime - 1) / 2 < a.value)) ∧
    (a.AtMost sixteenPrimes →
      (a.value ≠ 0 → Returns (fun _ => do
        let here ← isHigh a
        let there ← isHigh (← neg a)
        return (here, there)) (fun sides => sides.2 = !sides.1)) ∧
      Returns (fun _ => do
        let lower ← negIf (← isHigh a) a
        return (lower, ← encode lower)) (fun result =>
          result.1.value = min a.value (prime - a.value) ∧
          result.2.toNat = min a.value (prime - a.value) ∧
          result.2.bit 254 = false ∧ result.2.bit 255 = false)) := by
  have value (c : Limbs) : c.value = c.element.val := (element_val c).symm
  constructor
  · intro below
    apply (isHigh_returns a below).mono
    intro high isHigh
    rw [isHigh, value, decide_eq_true_iff]
  · intro atMost
    constructor
    · intro nonzero
      apply isHigh_neg_returns atMost
      intro zero
      rw [value, zero, ZMod.val_zero] at nonzero
      exact nonzero rfl
    · apply (negIf_isHigh_returns atMost).mono
      intro result given
      obtain ⟨least, written⟩ := given
      have small : result.2.toNat < 2 ^ 254 := by
        rw [written]
        exact (lesser_le a.element).trans_lt (by decide)
      rw [value, value]
      exact ⟨least, written, Bytes32.bit_eq_false_of_lt small,
        Bytes32.bit_eq_false_of_lt (small.trans (by decide))⟩

def leastHigh : Limbs :=
  ⟨0xfffffffffffe4, 0xffffffffffffe, 0xffffffffffffe, 0xffffffffffffe, 0xbfffffffffffe⟩

theorem isHigh_exact_leastHigh :
    let lower := Id.run do negIf (← isHigh leastHigh) leastHigh
    leastHigh.toNat = (prime + 1) / 2 + prime ∧ leastHigh.Below (2 ^ 63) ∧
      leastHigh.AtMost sixteenPrimes ∧ leastHigh.value ≠ 0 ∧
      Id.run (isHigh leastHigh) = true ∧ Id.run (do isHigh (← neg leastHigh)) = false ∧
      lower.value = (prime - 1) / 2 ∧ (Id.run (encode lower)).bit 254 = false := by
  intro lower
  have spelled : leastHigh.toNat = (prime + 1) / 2 + prime := by decide
  have below : leastHigh.Below (2 ^ 63) := by decide
  have atMost : leastHigh.AtMost sixteenPrimes := by decide
  have value : leastHigh.value = (prime + 1) / 2 := by decide
  have nonzero : leastHigh.value ≠ 0 := by decide
  have high := (isHigh_exact leastHigh).1 below
  obtain ⟨sides, turned⟩ := (isHigh_exact leastHigh).2 atMost
  have isHigh : Id.run (isHigh leastHigh) = true := by
    rw [high.run, value]
    decide
  have other := (sides nonzero).run
  change Id.run (do Limbs.isHigh (← neg leastHigh)) = !Id.run (Limbs.isHigh leastHigh) at other
  rw [isHigh] at other
  obtain ⟨least, _, clear, _⟩ := turned.run
  change lower.value = _ at least
  have half : min leastHigh.value (prime - leastHigh.value) = (prime - 1) / 2 := by decide
  exact ⟨spelled, below, atMost, nonzero, isHigh, other, least.trans half, clear⟩

end Lower
end Limbs
end Curve25519
