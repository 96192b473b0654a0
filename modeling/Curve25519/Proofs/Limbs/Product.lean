import Curve25519.Limbs.Product
import Curve25519.Proofs.Limbs.Linear

/-! Products and repeated squares of the elements that limbs stand for.
Limbs below 2^54 keep each column of the long multiplication below 77 * 2^108 and the top one
below 5 * 2^108; such columns are carried without a loss, and what leaves the top is a multiple of
the modulus. A product is small enough for a factor again, so that a loop of squares runs on from
any of its rounds. -/

namespace Curve25519.Limbs
open DoubleWord (product)

def productBound : Nat := 0x8000000002001

theorem radix_pow_five : (radix : Element) ^ 5 = 19 := by
  have whole : radix ^ 5 = prime + 19 := by decide
  have cast := congrArg (Nat.cast (R := Element)) whole
  simpa using cast

theorem toNat_columnLow51 (column : DoubleWord) : column.low51.toNat = column.toNat % 2 ^ 51 := by
  rw [DoubleWord.low51, Word.toNat_low51, UInt64.toNat_ofNat']
  exact Nat.mod_mod_of_dvd _ (by decide)

theorem ofColumns_returns (c0 c1 c2 c3 c4 : DoubleWord) (b0 : c0.toNat < 77 * 2 ^ 108)
    (b1 : c1.toNat < 77 * 2 ^ 108) (b2 : c2.toNat < 77 * 2 ^ 108) (b3 : c3.toNat < 77 * 2 ^ 108)
    (b4 : c4.toNat < 5 * 2 ^ 108) :
    Returns (fun _ => ofColumns c0 c1 c2 c3 c4) (fun c =>
      c.Below productBound ∧ ∃ carried, c.toNat + carried * prime =
        c0.toNat + radix * (c1.toNat + radix * (c2.toNat + radix * (c3.toNat
          + radix * c4.toNat)))) := by
  have single : UInt64.size = 2 ^ 64 := rfl
  have double : DoubleWord.size = 2 ^ 128 := rfl
  have nineteen : (19 : UInt64).toNat = 19 := rfl
  unfold ofColumns
  refine (DoubleWord.carry_returns c0 (by omega)).bind fun k0 h0 => ?_
  refine (DoubleWord.addCarry_returns c1 k0 (by omega)).bind fun d1 s1 => ?_
  refine (DoubleWord.carry_returns d1 (by omega)).bind fun k1 h1 => ?_
  refine (DoubleWord.addCarry_returns c2 k1 (by omega)).bind fun d2 s2 => ?_
  refine (DoubleWord.carry_returns d2 (by omega)).bind fun k2 h2 => ?_
  refine (DoubleWord.addCarry_returns c3 k2 (by omega)).bind fun d3 s3 => ?_
  refine (DoubleWord.carry_returns d3 (by omega)).bind fun k3 h3 => ?_
  refine (DoubleWord.addCarry_returns c4 k3 (by omega)).bind fun d4 s4 => ?_
  refine (DoubleWord.carry_returns d4 (by omega)).bind fun k4 h4 => ?_
  refine (Word.mul_returns k4 19 (by rw [nineteen]; omega)).bind fun wrapped hw => ?_
  rw [nineteen] at hw
  refine (Word.add_returns _ _ (by rw [toNat_columnLow51]; omega)).bind fun bottom hb => ?_
  rw [toNat_columnLow51] at hb
  have fits := bottom.toNat_lt
  refine (Word.add_returns _ _ (by
    rw [toNat_columnLow51, Word.toNat_high51]; omega)).bind fun l1 hl => ?_
  rw [toNat_columnLow51, Word.toNat_high51] at hl
  refine .pure _ ⟨?_, k4.toNat, ?_⟩
  · simp only [Below, productBound, toNat_columnLow51, Word.toNat_low51]
    omega
  · simp only [toNat, radix, prime, toNat_columnLow51, Word.toNat_low51]
    omega

/-- The sum weighs less than so many products of two limbs below 2^54. -/
def ColumnBelow (weight sum : Nat) : Prop := sum < weight * 2 ^ 108

namespace ColumnBelow
variable {weight weight' s t : Nat}

theorem of_product {x y : UInt64} (first : x.toNat < weight * 2 ^ 54)
    (second : y.toNat < weight' * 2 ^ 54) : ColumnBelow (weight * weight') (product x y) := by
  have bound : x.toNat * y.toNat < weight * 2 ^ 54 * (weight' * 2 ^ 54) :=
    Nat.mul_lt_mul'' first second
  have share : weight * 2 ^ 54 * (weight' * 2 ^ 54) = weight * weight' * 2 ^ 108 := by ring
  exact bound.trans_eq share

theorem add (first : ColumnBelow weight s) (second : ColumnBelow weight' t) :
    ColumnBelow (weight + weight') (s + t) := by
  unfold ColumnBelow at *
  omega

theorem double (given : ColumnBelow weight s) : ColumnBelow (2 * weight) (2 * s) := by
  unfold ColumnBelow at *
  omega

theorem mono (given : ColumnBelow weight s) (le : weight ≤ weight') : ColumnBelow weight' s :=
  given.trans_le (Nat.mul_le_mul_right _ le)

end ColumnBelow

theorem ofColumns_element (s0 s1 s2 s3 s4 : Nat) (b0 : ColumnBelow 77 s0) (b1 : ColumnBelow 77 s1)
    (b2 : ColumnBelow 77 s2) (b3 : ColumnBelow 77 s3) (b4 : ColumnBelow 5 s4) :
    Returns (fun _ => do
      let c0 ← DoubleWord.ofSum s0
      let c1 ← DoubleWord.ofSum s1
      let c2 ← DoubleWord.ofSum s2
      let c3 ← DoubleWord.ofSum s3
      let c4 ← DoubleWord.ofSum s4
      ofColumns c0 c1 c2 c3 c4) (fun c => c.Below productBound ∧
        c.element = s0 + radix * (s1 + radix * (s2 + radix * (s3 + radix * s4)))) := by
  have double : DoubleWord.size = 2 ^ 128 := rfl
  unfold ColumnBelow at *
  refine (DoubleWord.ofSum_returns s0 (by omega)).bind fun c0 h0 => ?_
  refine (DoubleWord.ofSum_returns s1 (by omega)).bind fun c1 h1 => ?_
  refine (DoubleWord.ofSum_returns s2 (by omega)).bind fun c2 h2 => ?_
  refine (DoubleWord.ofSum_returns s3 (by omega)).bind fun c3 h3 => ?_
  refine (DoubleWord.ofSum_returns s4 (by omega)).bind fun c4 h4 => ?_
  rw [← h0] at b0
  rw [← h1] at b1
  rw [← h2] at b2
  rw [← h3] at b3
  rw [← h4] at b4
  apply (ofColumns_returns c0 c1 c2 c3 c4 b0 b1 b2 b3 b4).mono
  rintro c ⟨below, carried, value⟩
  rw [h0, h1, h2, h3, h4] at value
  have cast := congrArg (Nat.cast (R := Element)) value
  refine ⟨below, ?_⟩
  simpa [element] using cast

theorem mul_returns (a b : Limbs) (belowA : a.Below factorBound) (belowB : b.Below factorBound) :
    Returns (fun _ => mul a b)
      (fun c => c.Below productBound ∧ c.element = a.element * b.element) := by
  have single : UInt64.size = 2 ^ 64 := rfl
  have nineteen : (19 : UInt64).toNat = 19 := rfl
  unfold mul
  refine .require_bind belowA (.require_bind belowB ?_)
  change a.Below (1 * 2 ^ 54) at belowA
  change b.Below (1 * 2 ^ 54) at belowB
  obtain ⟨a0, a1, a2, a3, a4⟩ := belowA
  obtain ⟨b0, b1, b2, b3, b4⟩ := belowB
  refine (Word.mul_returns b.l1 19 (by rw [nineteen]; omega)).bind fun b1w h1 => ?_
  refine (Word.mul_returns b.l2 19 (by rw [nineteen]; omega)).bind fun b2w h2 => ?_
  refine (Word.mul_returns b.l3 19 (by rw [nineteen]; omega)).bind fun b3w h3 => ?_
  refine (Word.mul_returns b.l4 19 (by rw [nineteen]; omega)).bind fun b4w h4 => ?_
  rw [nineteen] at h1 h2 h3 h4
  have w1 : b1w.toNat < 19 * 2 ^ 54 := by omega
  have w2 : b2w.toNat < 19 * 2 ^ 54 := by omega
  have w3 : b3w.toNat < 19 * 2 ^ 54 := by omega
  have w4 : b4w.toNat < 19 * 2 ^ 54 := by omega
  -- From each column to the next one product of weight nineteen becomes one of weight one.
  refine (ofColumns_element _ _ _ _ _ ?_ ?_ ?_ ?_ ?_).mono fun c ⟨below, value⟩ => ⟨below, ?_⟩
  · exact (ColumnBelow.of_product a0 b0 |>.add (.of_product a4 w1) |>.add (.of_product a3 w2)
      |>.add (.of_product a2 w3) |>.add (.of_product a1 w4)).mono (by decide)
  · exact (ColumnBelow.of_product a1 b0 |>.add (.of_product a0 b1) |>.add (.of_product a4 w2)
      |>.add (.of_product a3 w3) |>.add (.of_product a2 w4)).mono (by decide)
  · exact (ColumnBelow.of_product a2 b0 |>.add (.of_product a1 b1) |>.add (.of_product a0 b2)
      |>.add (.of_product a4 w3) |>.add (.of_product a3 w4)).mono (by decide)
  · exact (ColumnBelow.of_product a3 b0 |>.add (.of_product a2 b1) |>.add (.of_product a1 b2)
      |>.add (.of_product a0 b3) |>.add (.of_product a4 w4)).mono (by decide)
  · exact (ColumnBelow.of_product a4 b0 |>.add (.of_product a3 b1) |>.add (.of_product a2 b2)
      |>.add (.of_product a1 b3) |>.add (.of_product a0 b4)).mono (by decide)
  · rw [value]
    simp only [element, toNat, product, h1, h2, h3, h4]
    push_cast
    linear_combination (-(
      (a.l4.toNat * b.l1.toNat + a.l3.toNat * b.l2.toNat + a.l2.toNat * b.l3.toNat
          + a.l1.toNat * b.l4.toNat : Element)
        + radix * (a.l4.toNat * b.l2.toNat + a.l3.toNat * b.l3.toNat + a.l2.toNat * b.l4.toNat)
        + radix ^ 2 * (a.l4.toNat * b.l3.toNat + a.l3.toNat * b.l4.toNat)
        + radix ^ 3 * (a.l4.toNat * b.l4.toNat))) * radix_pow_five

theorem square_returns (a : Limbs) (below : a.Below factorBound) :
    Returns (fun _ => square a)
      (fun c => c.Below productBound ∧ c.element = a.element ^ 2) := by
  have single : UInt64.size = 2 ^ 64 := rfl
  have nineteen : (19 : UInt64).toNat = 19 := rfl
  unfold square
  apply Returns.require_bind below
  change a.Below (1 * 2 ^ 54) at below
  obtain ⟨a0, a1, a2, a3, a4⟩ := below
  refine (Word.mul_returns a.l3 19 (by rw [nineteen]; omega)).bind fun a3w h3 => ?_
  refine (Word.mul_returns a.l4 19 (by rw [nineteen]; omega)).bind fun a4w h4 => ?_
  rw [nineteen] at h3 h4
  have w3 : a3w.toNat < 19 * 2 ^ 54 := by omega
  have w4 : a4w.toNat < 19 * 2 ^ 54 := by omega
  refine (ofColumns_element _ _ _ _ _ ?_ ?_ ?_ ?_ ?_).mono fun c ⟨below, value⟩ => ⟨below, ?_⟩
  · exact (ColumnBelow.of_product a0 a0 |>.add
      (ColumnBelow.of_product a1 w4 |>.add (.of_product a2 w3)).double).mono (by decide)
  · exact (ColumnBelow.of_product a3 w3 |>.add
      (ColumnBelow.of_product a0 a1 |>.add (.of_product a2 w4)).double).mono (by decide)
  · exact (ColumnBelow.of_product a1 a1 |>.add
      (ColumnBelow.of_product a0 a2 |>.add (.of_product a4 w3)).double).mono (by decide)
  · exact (ColumnBelow.of_product a4 w4 |>.add
      (ColumnBelow.of_product a0 a3 |>.add (.of_product a1 a2)).double).mono (by decide)
  · exact (ColumnBelow.of_product a2 a2 |>.add
      (ColumnBelow.of_product a0 a4 |>.add (.of_product a1 a3)).double).mono (by decide)
  · rw [value]
    simp only [element, toNat, product, h3, h4]
    push_cast
    linear_combination (-(
      (2 * a.l1.toNat * a.l4.toNat + 2 * a.l2.toNat * a.l3.toNat : Element)
        + radix * (2 * a.l2.toNat * a.l4.toNat + a.l3.toNat ^ 2)
        + radix ^ 2 * (2 * a.l3.toNat * a.l4.toNat)
        + radix ^ 3 * a.l4.toNat ^ 2)) * radix_pow_five

structure IsFactor (x : Element) (a : Limbs) : Prop where
  below : a.Below factorBound
  element : a.element = x

section Factors
variable {x y : Element} {a b : Limbs}

theorem Denotes.of_product (below : a.Below productBound) (value : a.element = x) :
    Denotes 1 x a :=
  ⟨below.mono (by decide), value⟩

theorem IsFactor.mul (first : IsFactor x a) (second : IsFactor y b) :
    Returns (fun _ => Limbs.mul a b) (Denotes 1 (x * y)) := by
  rw [← first.element, ← second.element]
  exact (mul_returns a b first.below second.below).mono
    fun c ⟨below, value⟩ => .of_product below value

theorem IsFactor.square (factor : IsFactor x a) :
    Returns (fun _ => Limbs.square a) (Denotes 1 (x ^ 2)) := by
  rw [← factor.element]
  exact (square_returns a factor.below).mono fun c ⟨below, value⟩ => .of_product below value

theorem IsFactor.atMost (factor : IsFactor x a) : a.AtMost sixteenPrimes :=
  atMost_sixteenPrimes factor.below (by decide)

theorem IsFactor.neg (factor : IsFactor x a) :
    Returns (fun _ => Limbs.neg a) (Denotes 1 (-x)) := by
  rw [← factor.element]
  exact neg_returns a factor.atMost

theorem IsFactor.sub (first : IsFactor x a) (second : IsFactor y b) :
    Returns (fun _ => Limbs.sub a b) (Denotes 1 (x - y)) := by
  have top : sixteenPrimes.Below (2 * factorBound) := by decide
  have room : SumsFit a sixteenPrimes := (first.below.sums top).mono (by decide)
  rw [← first.element, ← second.element]
  exact sub_returns a b second.atMost room

theorem add_isFactor (room : SumsBelow factorBound a b) :
    Returns (fun _ => add a b) (IsFactor (a.element + b.element)) := by
  have fits : SumsFit a b := room.mono (by decide)
  apply (add_returns a b fits).mono
  intro c given
  obtain ⟨⟨c0, c1, c2, c3, c4⟩, value⟩ := given
  refine ⟨?_, value⟩
  unfold SumsBelow at room
  unfold Below
  omega

end Factors

section Terms
variable {terms others : Nat} {x y : Element} {a b : Limbs}

theorem Denotes.factor (denotes : Denotes terms x a) (few : terms ≤ 7) : a.Below factorBound :=
  denotes.below.mono ((Nat.mul_le_mul_right _ few).trans (by decide))

theorem Denotes.isFactor (denotes : Denotes terms x a) (few : terms ≤ 7) : IsFactor x a :=
  ⟨denotes.factor few, denotes.element⟩

theorem Denotes.sums (first : Denotes terms x a) (second : Denotes others y b)
    (few : terms + others ≤ 7) : SumsBelow factorBound a b := by
  have room := first.below.sums second.below
  rw [← Nat.add_mul] at room
  exact room.mono ((Nat.mul_le_mul_right _ few).trans (by decide))

theorem Denotes.mul (first : Denotes terms x a) (second : Denotes others y b)
    (few : terms ≤ 7) (few' : others ≤ 7) :
    Returns (fun _ => Limbs.mul a b) (Denotes 1 (x * y)) :=
  (first.isFactor few).mul (second.isFactor few')

theorem Denotes.square (denotes : Denotes terms x a) (few : terms ≤ 7) :
    Returns (fun _ => Limbs.square a) (Denotes 1 (x ^ 2)) :=
  (denotes.isFactor few).square

end Terms

section Loop

theorem iterSquare_returns (a : Limbs) (below : a.Below productBound) (count : Nat) :
    Returns (fun _ => iterSquare a count)
      (fun c => c.Below productBound ∧ c.element = a.element ^ 2 ^ count) := by
  induction count generalizing a with
  | zero =>
    unfold iterSquare
    exact .pure a ⟨below, by simp⟩
  | succ count ih =>
    unfold iterSquare
    refine (square_returns a (below.mono (by decide))).bind fun c ⟨small, value⟩ => ?_
    have power : a.element ^ 2 ^ (count + 1) = c.element ^ 2 ^ count := by
      rw [value, ← pow_mul, pow_succ']
    rw [power]
    exact ih c small

/-- Only the first square may start from larger limbs. -/
theorem iterSquare_succ_returns (a : Limbs) (below : a.Below factorBound) (count : Nat) :
    Returns (fun _ => iterSquare a (count + 1))
      (fun c => c.Below productBound ∧ c.element = a.element ^ 2 ^ (count + 1)) := by
  unfold iterSquare
  refine (square_returns a below).bind fun c ⟨small, value⟩ => ?_
  have power : a.element ^ 2 ^ (count + 1) = c.element ^ 2 ^ count := by
    rw [value, ← pow_mul, pow_succ']
  rw [power]
  exact iterSquare_returns c small count

theorem iterSquare_add {m : Type → Type} [Monad m] [MonadRequire m] [LawfulMonad m] (a : Limbs)
    (rounds more : Nat) :
    (iterSquare a (rounds + more) : m Limbs) =
      iterSquare a rounds >>= fun middle => iterSquare middle more := by
  induction rounds generalizing a with
  | zero =>
    rw [Nat.zero_add, iterSquare, pure_bind]
  | succ rounds ih =>
    rw [Nat.succ_add, iterSquare, iterSquare, bind_assoc]
    apply bind_congr
    intro c
    exact ih c

theorem squareTimes_returns (a : Limbs) (below : a.Below factorBound) (count : Nat)
    (positive : 0 < count) :
    Returns (fun _ => squareTimes a count)
      (fun c => c.Below productBound ∧ c.element = a.element ^ 2 ^ count) := by
  obtain ⟨more, rfl⟩ := Nat.exists_eq_add_of_lt positive
  rw [Nat.zero_add]
  unfold squareTimes
  exact .require_bind (Nat.succ_pos more) (iterSquare_succ_returns a below more)

theorem squareTimes_cut {a c : Limbs} {rounds count : Nat} (within : rounds ≤ count)
    (middle : Id.run (iterSquare a rounds) = c) :
    Id.run (squareTimes a count) = Id.run (iterSquare c (count - rounds)) := by
  have split : count = rounds + (count - rounds) := by omega
  calc
    Id.run (squareTimes a count) = Id.run (iterSquare a count) := rfl
    _ = Id.run (iterSquare a (rounds + (count - rounds))) := by rw [← split]
    _ = Id.run (iterSquare (Id.run (iterSquare a rounds)) (count - rounds)) := by
      rw [iterSquare_add]
      rfl
    _ = Id.run (iterSquare c (count - rounds)) := by rw [middle]

/-- Limbs below 2^54 are multiplied, and squared any number of times, without a sum or a product that
wraps or a carry that is cut. The product, and what each round of squaring leaves, has limbs little
above 51 bits and stands for the right element. -/
theorem products_exact (a b : Limbs) (belowA : a.Below (2 ^ 54)) (belowB : b.Below (2 ^ 54))
    (count : Nat) (positive : 1 ≤ count) :
    Returns (fun _ => mul a b) (fun c =>
      c.Below (2 ^ 51 + 2 ^ 13 + 1) ∧ c.element = a.element * b.element) ∧
    Returns (fun _ => squareTimes a count) (fun c =>
      c.Below (2 ^ 51 + 2 ^ 13 + 1) ∧ c.element = a.element ^ 2 ^ count) ∧
    ∀ rounds, 1 ≤ rounds → rounds ≤ count →
      Returns (fun _ => iterSquare a rounds) (fun c =>
        c.Below (2 ^ 51 + 2 ^ 13 + 1) ∧ c.element = a.element ^ 2 ^ rounds ∧
          Id.run (squareTimes a count) = Id.run (iterSquare c (count - rounds))) := by
  refine ⟨mul_returns a b belowA belowB, squareTimes_returns a belowA count positive, ?_⟩
  intro rounds some within
  obtain ⟨before, rfl⟩ : ∃ before, rounds = before + 1 := ⟨rounds - 1, by omega⟩
  obtain ⟨c, ⟨small, value⟩, runs⟩ := iterSquare_succ_returns a belowA before
  have middle : Id.run (iterSquare a (before + 1)) = c := runs Id
  exact ⟨c, ⟨small, value, squareTimes_cut within middle⟩, fun m => runs m⟩

def largestFactor : Limbs :=
  ⟨0x3fffffffffffff, 0x3fffffffffffff, 0x3fffffffffffff, 0x3fffffffffffff, 0x3fffffffffffff⟩

theorem products_exact_largestFactor :
    let product := Id.run (mul largestFactor largestFactor)
    let fourth := Id.run (squareTimes largestFactor 2)
    largestFactor.Below (2 ^ 54) ∧ product.Below (2 ^ 51 + 2 ^ 13 + 1) ∧
      product.element = largestFactor.element * largestFactor.element ∧
      fourth.Below (2 ^ 51 + 2 ^ 13 + 1) ∧ fourth.element = largestFactor.element ^ 2 ^ 2 := by
  intro product fourth
  have below : largestFactor.Below (2 ^ 54) := by decide
  obtain ⟨multiplied, squared, _⟩ :=
    products_exact largestFactor largestFactor below below 2 (by decide)
  exact ⟨below, multiplied.run.1, multiplied.run.2, squared.run.1, squared.run.2⟩

variable {terms : Nat} {x : Element} {a : Limbs}

theorem Denotes.squareTimes (denotes : Denotes terms x a) (few : terms ≤ 7) (count : Nat)
    (positive : 0 < count) :
    Returns (fun _ => Limbs.squareTimes a count) (Denotes 1 (x ^ 2 ^ count)) := by
  rw [← denotes.element]
  exact (squareTimes_returns a (denotes.factor few) count positive).mono
    fun c ⟨below, value⟩ => .of_product below value

theorem twiceSquare_returns (a : Limbs) (below : a.Below factorBound) :
    Returns (fun _ => twiceSquare a) (Denotes 2 (2 * a.element ^ 2)) := by
  unfold twiceSquare
  refine (square_returns a below).bind fun s ⟨small, value⟩ => ?_
  have squared := Denotes.of_product small value
  rw [two_mul]
  exact squared.add squared (by decide)

end Loop

end Curve25519.Limbs
