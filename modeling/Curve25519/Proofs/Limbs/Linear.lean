import Mathlib.Tactic.LinearCombination
import Mathlib.Tactic.Ring
import Curve25519.Limbs.Linear
import Curve25519.Proofs.Primes
import Curve25519.Proofs.Returns

/-! The field elements that limbs stand for, and their sums and differences.
A limb vector denotes an element as a sum of so many reduced ones: one weak reduction or one
product leaves a single one, and each lazy sum adds the counts up. Seven are still allowed as a
factor or a subtrahend. -/

namespace Curve25519

theorem Word.toNat_low51 (x : UInt64) : (Word.low51 x).toNat = x.toNat % 2 ^ 51 := by
  rw [Word.low51, UInt64.toNat_and]
  exact Nat.and_two_pow_sub_one_eq_mod x.toNat 51

theorem Word.toNat_high51 (x : UInt64) : (Word.high51 x).toNat = x.toNat / 2 ^ 51 := by
  rw [Word.high51, UInt64.toNat_shiftRight]
  exact Nat.shiftRight_eq_div_pow x.toNat 51

theorem Word.high51_lt (x : UInt64) : (Word.high51 x).toNat < 2 ^ 13 := by
  have bound := x.toNat_lt
  rw [Word.toNat_high51]
  omega

namespace Limbs

def element (a : Limbs) : Element := a.toNat

def reducedBound : Nat := 0x8000000040000

/-- The limbs stand for the element, and are no larger than in a sum of so many reduced ones. -/
structure Denotes (terms : Nat) (x : Element) (a : Limbs) : Prop where
  below : a.Below (terms * reducedBound)
  element : a.element = x

theorem Below.mono {bound larger : Nat} {a : Limbs} (below : a.Below bound)
    (le : bound ≤ larger) : a.Below larger := by
  unfold Below at *
  omega

theorem Denotes.mono {terms more : Nat} {x : Element} {a : Limbs} (denotes : Denotes terms x a)
    (le : terms ≤ more) : Denotes more x a :=
  ⟨denotes.below.mono (Nat.mul_le_mul_right _ le), denotes.element⟩

theorem denotes_select {terms : Nat} {x y : Element} {a b : Limbs} (choice : Bool)
    (first : Denotes terms x a) (second : Denotes terms y b) :
    Denotes terms (if choice then y else x) (select choice a b) := by
  cases choice
  · exact first
  · exact second

theorem toNat_ofNat {n : Nat} (bound : n < 2 ^ 255) : (ofNat n).toNat = n := by
  simp only [ofNat, toNat, radix, Word.toNat_low51, UInt64.toNat_ofNat', Nat.shiftRight_eq_div_pow]
  omega

theorem ofNat_denotes {n : Nat} (bound : n < 2 ^ 255) : Denotes 1 n (ofNat n) := by
  refine ⟨?_, by rw [element, toNat_ofNat bound]⟩
  simp only [Below, ofNat, reducedBound, Word.toNat_low51]
  omega

theorem zero_denotes : Denotes 1 0 zero := by
  have denotes := ofNat_denotes (n := 0) (by decide)
  rw [Nat.cast_zero] at denotes
  exact denotes

theorem one_denotes : Denotes 1 1 one := by
  have denotes := ofNat_denotes (n := 1) (by decide)
  rw [Nat.cast_one] at denotes
  exact denotes

section Sums

theorem zipWith_returns (f : UInt64 → UInt64 → Procedure UInt64)
    (result : UInt64 → UInt64 → UInt64 → Prop) (a b : Limbs)
    (first : Returns (f a.l0 b.l0) (result a.l0 b.l0))
    (second : Returns (f a.l1 b.l1) (result a.l1 b.l1))
    (third : Returns (f a.l2 b.l2) (result a.l2 b.l2))
    (fourth : Returns (f a.l3 b.l3) (result a.l3 b.l3))
    (fifth : Returns (f a.l4 b.l4) (result a.l4 b.l4)) :
    Returns (fun m => zipWith (fun x y => f x y m) a b) (fun c =>
      result a.l0 b.l0 c.l0 ∧ result a.l1 b.l1 c.l1 ∧ result a.l2 b.l2 c.l2 ∧
        result a.l3 b.l3 c.l3 ∧ result a.l4 b.l4 c.l4) := by
  unfold zipWith
  refine first.bind fun c0 h0 => ?_
  refine second.bind fun c1 h1 => ?_
  refine third.bind fun c2 h2 => ?_
  refine fourth.bind fun c3 h3 => ?_
  refine fifth.bind fun c4 h4 => ?_
  exact .pure _ ⟨h0, h1, h2, h3, h4⟩

def SumsFit (a b : Limbs) : Prop :=
  a.l0.toNat + b.l0.toNat < UInt64.size ∧ a.l1.toNat + b.l1.toNat < UInt64.size ∧
    a.l2.toNat + b.l2.toNat < UInt64.size ∧ a.l3.toNat + b.l3.toNat < UInt64.size ∧
    a.l4.toNat + b.l4.toNat < UInt64.size

def SumsBelow (bound : Nat) (a b : Limbs) : Prop :=
  a.l0.toNat + b.l0.toNat < bound ∧ a.l1.toNat + b.l1.toNat < bound ∧
    a.l2.toNat + b.l2.toNat < bound ∧ a.l3.toNat + b.l3.toNat < bound ∧
    a.l4.toNat + b.l4.toNat < bound

instance (bound : Nat) (a b : Limbs) : Decidable (SumsBelow bound a b) :=
  inferInstanceAs (Decidable (_ ∧ _))

section Room
variable {bound other : Nat} {a b : Limbs}

theorem Below.sums (first : a.Below bound) (second : b.Below other) :
    SumsBelow (bound + other) a b := by
  unfold Below at first second
  unfold SumsBelow
  omega

theorem SumsBelow.left (room : SumsBelow bound a b) : a.Below bound := by
  unfold SumsBelow at room
  unfold Below
  omega

theorem SumsBelow.right (room : SumsBelow bound a b) : b.Below bound := by
  unfold SumsBelow at room
  unfold Below
  omega

theorem SumsBelow.mono (room : SumsBelow bound a b) (le : bound ≤ other) :
    SumsBelow other a b := by
  unfold SumsBelow at *
  omega

end Room

theorem add_returns (a b : Limbs) (fits : SumsFit a b) :
    Returns (fun _ => add a b) (fun c =>
      (c.l0.toNat = a.l0.toNat + b.l0.toNat ∧ c.l1.toNat = a.l1.toNat + b.l1.toNat ∧
        c.l2.toNat = a.l2.toNat + b.l2.toNat ∧ c.l3.toNat = a.l3.toNat + b.l3.toNat ∧
        c.l4.toNat = a.l4.toNat + b.l4.toNat) ∧ c.element = a.element + b.element) := by
  obtain ⟨f0, f1, f2, f3, f4⟩ := fits
  refine (zipWith_returns (fun x y _ => Word.add x y) (fun x y z => z.toNat = x.toNat + y.toNat)
    a b (Word.add_returns _ _ f0) (Word.add_returns _ _ f1) (Word.add_returns _ _ f2)
    (Word.add_returns _ _ f3) (Word.add_returns _ _ f4)).mono fun c limbs => ⟨limbs, ?_⟩
  obtain ⟨c0, c1, c2, c3, c4⟩ := limbs
  have sum : c.toNat = a.toNat + b.toNat := by
    simp only [toNat, c0, c1, c2, c3, c4]
    ring
  exact (congrArg Nat.cast sum).trans (Nat.cast_add _ _)

theorem Denotes.add {terms others : Nat} {x y : Element} {a b : Limbs}
    (first : Denotes terms x a) (second : Denotes others y b) (few : terms + others ≤ 4096) :
    Returns (fun _ => Limbs.add a b) (Denotes (terms + others) (x + y)) := by
  have belowA := first.below
  have belowB := second.below
  have sizes : (terms + others) * reducedBound ≤ 4096 * reducedBound :=
    Nat.mul_le_mul_right _ few
  have room : 4096 * reducedBound ≤ UInt64.size := by decide
  simp only [Below] at belowA belowB
  apply (add_returns a b (by unfold SumsFit; rw [Nat.add_mul] at sizes; omega)).mono
  rintro c ⟨⟨c0, c1, c2, c3, c4⟩, value⟩
  refine ⟨?_, by rw [value, first.element, second.element]⟩
  simp only [Below, Nat.add_mul]
  omega

end Sums

section Differences

/-- The carry out of the top limb is all that a weak reduction takes off, as a multiple of the
modulus. -/
theorem weakReduce_returns (a : Limbs) :
    Returns (fun _ => weakReduce a) (fun c =>
      c.Below reducedBound ∧ c.toNat + a.l4.toNat / 2 ^ 51 * prime = a.toNat) := by
  have b0 := a.l0.toNat_lt
  have b1 := a.l1.toNat_lt
  have b2 := a.l2.toNat_lt
  have b3 := a.l3.toNat_lt
  have b4 := a.l4.toNat_lt
  have nineteen : (19 : UInt64).toNat = 19 := rfl
  have size : UInt64.size = 2 ^ 64 := rfl
  unfold weakReduce
  refine (Word.mul_returns (Word.high51 a.l4) 19 (by
    rw [Word.toNat_high51, nineteen]; omega)).bind fun wrapped hw => ?_
  rw [Word.toNat_high51, nineteen] at hw
  refine (Word.add_returns _ _ (by rw [Word.toNat_low51]; omega)).bind fun c0 h0 => ?_
  refine (Word.add_returns _ _ (by
    rw [Word.toNat_low51, Word.toNat_high51]; omega)).bind fun c1 h1 => ?_
  refine (Word.add_returns _ _ (by
    rw [Word.toNat_low51, Word.toNat_high51]; omega)).bind fun c2 h2 => ?_
  refine (Word.add_returns _ _ (by
    rw [Word.toNat_low51, Word.toNat_high51]; omega)).bind fun c3 h3 => ?_
  refine (Word.add_returns _ _ (by
    rw [Word.toNat_low51, Word.toNat_high51]; omega)).bind fun c4 h4 => ?_
  rw [Word.toNat_low51] at h0
  rw [Word.toNat_low51, Word.toNat_high51] at h1 h2 h3 h4
  refine .pure _ ⟨?_, ?_⟩
  · simp only [Below, reducedBound]
    omega
  · simp only [toNat, radix, prime]
    omega

theorem weakReduce_denotes (a : Limbs) :
    Returns (fun _ => weakReduce a) (Denotes 1 a.element) := by
  refine (weakReduce_returns a).mono fun c ⟨below, value⟩ => ⟨by simpa using below, ?_⟩
  have cast := congrArg (Nat.cast (R := Element)) value
  simpa [element] using cast

theorem toNat_sixteenPrimes : sixteenPrimes.toNat = 16 * prime := by decide

theorem atMost_sixteenPrimes {bound : Nat} {a : Limbs} (below : a.Below bound)
    (le : bound ≤ sixteenPrimes.l0.toNat) : a.AtMost sixteenPrimes := by
  have lowestIsLeast : sixteenPrimes.l0.toNat ≤ sixteenPrimes.l1.toNat ∧
      sixteenPrimes.l0.toNat ≤ sixteenPrimes.l2.toNat ∧
      sixteenPrimes.l0.toNat ≤ sixteenPrimes.l3.toNat ∧
      sixteenPrimes.l0.toNat ≤ sixteenPrimes.l4.toNat := by decide
  simp only [Below] at below
  simp only [AtMost, UInt64.le_iff_toNat_le]
  omega

theorem sub_returns (a b : Limbs) (atMost : b.AtMost sixteenPrimes)
    (fits : SumsFit a sixteenPrimes) :
    Returns (fun _ => sub a b) (Denotes 1 (a.element - b.element)) := by
  unfold sub
  apply Returns.require_bind atMost
  obtain ⟨le0, le1, le2, le3, le4⟩ := atMost
  rw [UInt64.le_iff_toNat_le] at le0 le1 le2 le3 le4
  refine (add_returns a sixteenPrimes fits).bind fun raised ⟨⟨r0, r1, r2, r3, r4⟩, _⟩ => ?_
  refine (zipWith_returns (fun x y _ => Word.sub x y) (fun x y z => z.toNat = x.toNat - y.toNat)
    raised b (Word.sub_returns _ _ (by omega)) (Word.sub_returns _ _ (by omega))
    (Word.sub_returns _ _ (by omega)) (Word.sub_returns _ _ (by omega))
    (Word.sub_returns _ _ (by omega))).bind fun d ⟨d0, d1, d2, d3, d4⟩ => ?_
  -- Limb by limb nothing was borrowed, so that the integers differ by what was added before.
  have difference : d.toNat + b.toNat = a.toNat + 16 * prime := by
    rw [← toNat_sixteenPrimes]
    simp only [toNat, radix]
    omega
  have value : d.element = a.element - b.element := by
    have cast := congrArg (Nat.cast (R := Element)) difference
    simp only [Nat.cast_add, Nat.cast_mul, ZMod.natCast_self, mul_zero, add_zero] at cast
    exact eq_sub_of_add_eq cast
  rw [← value]
  exact weakReduce_denotes d

theorem neg_returns (a : Limbs) (atMost : a.AtMost sixteenPrimes) :
    Returns (fun _ => neg a) (Denotes 1 (-a.element)) := by
  unfold neg
  apply Returns.require_bind atMost
  obtain ⟨le0, le1, le2, le3, le4⟩ := atMost
  rw [UInt64.le_iff_toNat_le] at le0 le1 le2 le3 le4
  refine (zipWith_returns (fun x y _ => Word.sub x y) (fun x y z => z.toNat = x.toNat - y.toNat)
    sixteenPrimes a (Word.sub_returns _ _ le0) (Word.sub_returns _ _ le1)
    (Word.sub_returns _ _ le2) (Word.sub_returns _ _ le3)
    (Word.sub_returns _ _ le4)).bind fun d ⟨d0, d1, d2, d3, d4⟩ => ?_
  have difference : d.toNat + a.toNat = 16 * prime := by
    rw [← toNat_sixteenPrimes]
    simp only [toNat, radix]
    omega
  have value : d.element = -a.element := by
    have cast := congrArg (Nat.cast (R := Element)) difference
    simp only [Nat.cast_add, Nat.cast_mul, ZMod.natCast_self, mul_zero] at cast
    exact eq_neg_of_add_eq_zero_left cast
  rw [← value]
  exact weakReduce_denotes d

variable {terms others : Nat} {x y : Element} {a b : Limbs}

theorem Denotes.atMost (denotes : Denotes terms x a) (few : terms ≤ 7) :
    a.AtMost sixteenPrimes :=
  atMost_sixteenPrimes denotes.below ((Nat.mul_le_mul_right _ few).trans (by decide))

theorem Denotes.sub (first : Denotes terms x a) (second : Denotes others y b)
    (room : terms ≤ 4096 - 16) (few : others ≤ 7) :
    Returns (fun _ => Limbs.sub a b) (Denotes 1 (x - y)) := by
  have below := first.below
  have sizes : terms * reducedBound ≤ (4096 - 16) * reducedBound := Nat.mul_le_mul_right _ room
  have fits : SumsFit a sixteenPrimes := by
    have top : sixteenPrimes.Below (16 * reducedBound) := by decide
    have whole : 4096 * reducedBound ≤ UInt64.size := by decide
    simp only [Below] at below top
    unfold SumsFit
    omega
  rw [← first.element, ← second.element]
  exact sub_returns a b (second.atMost few) fits

theorem Denotes.neg (denotes : Denotes terms x a) (few : terms ≤ 7) :
    Returns (fun _ => Limbs.neg a) (Denotes 1 (-x)) := by
  rw [← denotes.element]
  exact neg_returns a (denotes.atMost few)

theorem Denotes.negIf (choice : Bool) (denotes : Denotes terms x a) (positive : 1 ≤ terms)
    (few : terms ≤ 7) :
    Returns (fun _ => Limbs.negIf choice a) (Denotes terms (if choice then -x else x)) := by
  unfold Limbs.negIf
  refine (denotes.neg few).bind fun c opposite => ?_
  exact .pure _ (denotes_select choice denotes (opposite.mono positive))

end Differences
end Limbs
end Curve25519
