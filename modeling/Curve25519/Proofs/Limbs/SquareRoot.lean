import Mathlib.NumberTheory.LegendreSymbol.Basic
import Curve25519.Limbs.SquareRoot
import Curve25519.Proofs.Limbs.Encoding
import Curve25519.Proofs.Limbs.Power

/-! Square roots of quotients of elements.
The candidate's square times v is u times a power of u v^7 that is a fourth root of one. That
root is one or minus one just where the quotient is a square, by Euler's criterion; the factor
taken for the other two turns the candidate into a root of i u / v. -/

namespace Curve25519.Limbs

def rootI : Element := sqrtMinusOne.element

theorem rootI_sq : rootI ^ 2 = -1 := by
  have whole : (sqrtMinusOne.toNat ^ 2 + 1) % prime = 0 := by decide
  have divides := (ZMod.natCast_eq_zero_iff _ _).mpr (Nat.dvd_of_mod_eq_zero whole)
  rw [Nat.cast_add, Nat.cast_pow, Nat.cast_one] at divides
  exact eq_neg_of_add_eq_zero_left divides

theorem rootI_ne_zero : rootI ≠ 0 := by
  intro zero
  have square := rootI_sq
  rw [zero] at square
  simp at square

theorem sqrtMinusOne_denotes : Denotes 1 rootI sqrtMinusOne :=
  ⟨(show sqrtMinusOne.Below (2 ^ 51) by decide).mono (by decide), rfl⟩

section Candidate
variable (u v : Element)

/-- The power of u v^7 that is left over when the candidate is squared. -/
def character : Element := (u * v ^ 7) ^ ((prime - 1) / 4)

def candidate : Element := u * v ^ 3 * (u * v ^ 7) ^ ((prime - 5) / 8)

theorem candidate_sq : v * candidate u v ^ 2 = u * character u v := by
  have exponent : (prime - 1) / 4 = (prime - 5) / 8 * 2 + 1 := by decide
  rw [candidate, character, exponent, pow_succ (u * v ^ 7), pow_mul]
  ring

theorem candidate_zero (zero : u = 0 ∨ v = 0) : candidate u v = 0 := by
  have product : u * v ^ 3 = 0 := by
    rcases zero with zero | zero <;> simp [zero]
  rw [candidate, product, zero_mul]

variable {u v}

theorem character_sq_eq_one_iff (first : u ≠ 0) (second : v ≠ 0) :
    character u v ^ 2 = 1 ↔ IsSquare (u / v) := by
  have exponent : (prime - 1) / 4 * 2 = prime / 2 := by decide
  have nonzero : u * v ^ 7 ≠ 0 := mul_ne_zero first (pow_ne_zero 7 second)
  have shape : u * v ^ 7 = u / v * (v ^ 4 * v ^ 4) := by
    field_simp
  have power : v ^ 4 * v ^ 4 ≠ 0 := mul_ne_zero (pow_ne_zero 4 second) (pow_ne_zero 4 second)
  rw [character, ← pow_mul, exponent, ← ZMod.euler_criterion prime nonzero, shape]
  constructor
  · intro square
    have quotient := square.div (IsSquare.mul_self (v ^ 4))
    rwa [mul_div_cancel_right₀ _ power] at quotient
  · intro square
    exact square.mul (IsSquare.mul_self (v ^ 4))

theorem character_cases (first : u ≠ 0) (second : v ≠ 0) :
    character u v = 1 ∨ character u v = -1 ∨ character u v = rootI ∨ character u v = -rootI := by
  have nonzero : u * v ^ 7 ≠ 0 := mul_ne_zero first (pow_ne_zero 7 second)
  have fourth : character u v ^ 2 * character u v ^ 2 = 1 := by
    have exponent : (prime - 1) / 4 * (2 + 2) = prime - 1 := by decide
    rw [character, ← pow_add, ← pow_mul, exponent]
    exact ZMod.pow_card_sub_one_eq_one nonzero
  rcases mul_self_eq_one_iff.mp fourth with square | square
  · rcases mul_self_eq_one_iff.mp ((sq _).symm.trans square) with one | minus
    · exact .inl one
    · exact .inr (.inl minus)
  · rw [← rootI_sq] at square
    exact .inr (.inr (sq_eq_sq_iff_eq_or_eq_neg.mp square))

variable (u v) in
def corrected : Element :=
  if u * character u v = -u ∨ u * character u v = -u * rootI then rootI * candidate u v
  else candidate u v

theorem check_iff :
    u * character u v = u ∨ u * character u v = -u ↔ u = 0 ∨ v ≠ 0 ∧ IsSquare (u / v) := by
  by_cases first : u = 0
  · simp [first]
  by_cases second : v = 0
  · have none : character u v = 0 := by
      rw [character, second, zero_pow (by decide), mul_zero, zero_pow (by decide)]
    rw [none]
    simp [first, second, eq_comm]
  have one : u * character u v = u ↔ character u v = 1 := mul_eq_left₀ first
  have minus : u * character u v = -u ↔ character u v = -1 := by
    rw [← mul_neg_one u, mul_right_inj' first]
  rw [one, minus, ← mul_self_eq_one_iff, ← sq, character_sq_eq_one_iff first second]
  simp [first, second]

theorem corrected_zero (zero : u = 0 ∨ v = 0) : corrected u v = 0 := by
  rw [corrected, candidate_zero u v zero, mul_zero, ite_self]

theorem corrected_sq (first : u ≠ 0) (second : v ≠ 0) :
    v * corrected u v ^ 2 = if character u v ^ 2 = 1 then u else rootI * u := by
  have root := candidate_sq u v
  have i := rootI_sq
  have minus : (-1 : Element) ≠ 1 := by decide
  have turned : v * (rootI * candidate u v) ^ 2 = -(u * character u v) := by
    rw [← root]
    linear_combination v * candidate u v ^ 2 * i
  have one_ne : rootI ≠ -1 := by
    intro same
    rw [same] at i
    simp only [even_two.neg_pow, one_pow] at i
    exact minus i.symm
  have minusIff : u * character u v = -u ↔ character u v = -1 := by
    rw [← mul_neg_one u, mul_right_inj' first]
  have minusRootIff : u * character u v = -u * rootI ↔ character u v = -rootI := by
    rw [neg_mul_comm, mul_right_inj' first]
  simp only [corrected, minusIff, minusRootIff]
  rcases character_cases first second with value | value | value | value
  · have keep : ¬((1 : Element) = -1 ∨ (1 : Element) = -rootI) := by
      rintro (same | same)
      · exact minus same.symm
      · exact one_ne (by rw [same, neg_neg])
    rw [value, if_neg keep, one_pow, if_pos rfl, root, value, mul_one]
  · rw [value, if_pos (.inl rfl), turned, value, even_two.neg_pow, one_pow, if_pos rfl]
    ring
  · have keep : ¬(rootI = -1 ∨ rootI = -rootI) := by
      rintro (same | same)
      · exact one_ne same
      · have double : 2 * rootI = 0 := by linear_combination same
        exact rootI_ne_zero ((mul_eq_zero.mp double).resolve_left two_ne_zero)
    rw [value, if_neg keep, i, if_neg minus, root, value]
    ring
  · rw [value, if_pos (.inr rfl), turned, value, even_two.neg_pow, i, if_neg minus]
    ring

end Candidate

/-- The element r is the root that is returned for u / v. -/
structure IsRoot (u v : Element) (root : Root) (r : Element) : Prop where
  denotes : Denotes 1 r root.root
  even : r.val % 2 = 0
  isSquare : root.isSquare = true ↔ u = 0 ∨ v ≠ 0 ∧ IsSquare (u / v)
  sq : v ≠ 0 → v * r ^ 2 = if root.isSquare then u else rootI * u
  zero : u = 0 ∨ v = 0 → r = 0

theorem even_of_negIf (x : Element) :
    (if decide (x.val % 2 = 1) then -x else x).val % 2 = 0 := by
  have odd : prime % 2 = 1 := by decide
  have bound := ZMod.val_lt x
  by_cases negative : x.val % 2 = 1
  · rw [decide_eq_true negative, if_pos rfl, ZMod.neg_val]
    split <;> omega
  · rw [decide_eq_false negative, if_neg Bool.false_ne_true]
    omega

theorem sq_negIf (choice : Bool) (x : Element) : (if choice then -x else x) ^ 2 = x ^ 2 := by
  cases choice
  · rfl
  · exact neg_sq x

theorem sqrtRatio_returns {u v : Element} {a b : Limbs} (first : IsFactor u a)
    (second : IsFactor v b) :
    Returns (fun _ => sqrtRatio a b) (fun root => ∃ r, IsRoot u v root r) := by
  unfold sqrtRatio
  refine second.square.bind fun b2 h2 => ?_
  refine ((h2.isFactor (by decide)).mul second).bind fun b3 h3 => ?_
  refine (h3.square (by decide)).bind fun b6 h6 => ?_
  refine ((h6.isFactor (by decide)).mul second).bind fun b7 h7 => ?_
  refine (first.mul (h3.isFactor (by decide))).bind fun ab3 h => ?_
  refine (first.mul (h7.isFactor (by decide))).bind fun ab7 h' => ?_
  refine (h'.isFactor (by decide)).rootPower.bind fun power hp => ?_
  refine (h.mul hp (by decide) (by decide)).bind fun c hc => ?_
  refine (hc.square (by decide)).bind fun c2 hc2 => ?_
  refine (second.mul (hc2.isFactor (by decide))).bind fun check hcheck => ?_
  have seventh : (v ^ 2 * v) ^ 2 * v = v ^ 7 := by ring
  have third : v ^ 2 * v = v ^ 3 := by ring
  rw [seventh, third] at hc hcheck
  change Denotes 1 (candidate u v) c at hc
  change Denotes 1 (v * candidate u v ^ 2) check at hcheck
  rw [candidate_sq] at hcheck
  refine (equal_returns check a).bind fun correct isCorrect => ?_
  refine first.neg.bind fun opposite ho => ?_
  refine (equal_returns check opposite).bind fun flipped isFlipped => ?_
  refine first.neg.bind fun opposite' ho' => ?_
  refine (ho'.mul sqrtMinusOne_denotes (by decide) (by decide)).bind fun rotated hr => ?_
  refine (equal_returns check rotated).bind fun flippedByRoot isFlippedByRoot => ?_
  refine (sqrtMinusOne_denotes.mul hc (by decide) (by decide)).bind fun turned ht => ?_
  have chosen := denotes_select (flipped || flippedByRoot) hc ht
  rw [hcheck.element, first.element] at isCorrect
  rw [hcheck.element, ho.element] at isFlipped
  rw [hcheck.element, hr.element] at isFlippedByRoot
  have choice : (if (flipped || flippedByRoot) = true then rootI * candidate u v
      else candidate u v) = corrected u v := by
    simp only [isFlipped, isFlippedByRoot, Bool.or_eq_true, decide_eq_true_eq, corrected]
  rw [choice] at chosen
  refine (isNegative_returns _).bind fun negative isNegative => ?_
  rw [chosen.element] at isNegative
  refine (chosen.negIf negative le_rfl (by decide)).bind fun r hr => ?_
  refine .pure _ ⟨_, hr, ?_, ?_, ?_, ?_⟩
  · rw [isNegative]
    exact even_of_negIf _
  · simp only [isCorrect, isFlipped, Bool.or_eq_true, decide_eq_true_eq]
    exact check_iff
  · intro second
    rw [sq_negIf]
    by_cases first : u = 0
    · rw [corrected_zero (.inl first), first, mul_zero, ite_self, sq, mul_zero, mul_zero]
    · have test : (correct || flipped) = true ↔ character u v ^ 2 = 1 := by
        rw [character_sq_eq_one_iff first second]
        simp only [isCorrect, isFlipped, Bool.or_eq_true, decide_eq_true_eq, check_iff]
        simp [first, second]
      simp only [corrected_sq first second, test]
  · intro zero
    rw [corrected_zero zero, neg_zero, ite_self]

variable {x : Element} {a : Limbs}

theorem isSquare_returns (factor : IsFactor x a) :
    Returns (fun _ => Limbs.isSquare a) (fun square => square = true ↔ IsSquare x) := by
  have one := one_denotes.isFactor (by decide)
  unfold Limbs.isSquare
  refine (sqrtRatio_returns factor one).bind fun root ⟨r, given⟩ => ?_
  refine .pure _ (given.isSquare.trans ?_)
  rw [div_one]
  constructor
  · rintro (zero | ⟨_, square⟩)
    · rw [zero]
      exact IsSquare.zero
    · exact square
  · intro square
    exact .inr ⟨one_ne_zero, square⟩

theorem invSqrt_returns (factor : IsFactor x a) :
    Returns (fun _ => invSqrt a) (fun root => ∃ r, Denotes 1 r root.root ∧
      (root.isSquare = true ↔ x ≠ 0 ∧ IsSquare x) ∧ (root.isSquare = true → x * r ^ 2 = 1)) := by
  have one := one_denotes.isFactor (by decide)
  unfold invSqrt
  refine (sqrtRatio_returns one factor).mono fun root ⟨r, given⟩ => ?_
  have square : root.isSquare = true ↔ x ≠ 0 ∧ IsSquare x := by
    rw [given.isSquare, one_div, isSquare_inv]
    simp
  refine ⟨r, given.denotes, square, ?_⟩
  intro isSquare
  rw [given.sq (square.mp isSquare).1, if_pos isSquare]

theorem isSquare_iff_exists (x : Element) : IsSquare x ↔ ∃ root, root ^ 2 = x := by
  rw [isSquare_iff_exists_sq]
  simp only [eq_comm]

/-- The root that comes with a quotient is the even one of two. It is a root of the quotient where that
is a square, of the root of minus one times the quotient where it is not, and zero where the dividend or
the divisor is zero; a zero dividend counts as a square, over a zero divisor too. So the test for a
square and the root of an inverse are right for every element. -/
theorem sqrtRatio_root (a b : Limbs) (belowA : a.Below (2 ^ 54)) (belowB : b.Below (2 ^ 54)) :
    let x := a.element
    let y := b.element
    Returns (fun _ => sqrtRatio a b) (fun given =>
      let r := given.root.element
      r.val % 2 = 0 ∧
      (given.isSquare = true ↔ x = 0 ∨ y ≠ 0 ∧ ∃ root, root ^ 2 = x / y) ∧
      (given.isSquare = true → (y ≠ 0 → y * r ^ 2 = x) ∧ (x = 0 → r = 0)) ∧
      (y = 0 ∧ x ≠ 0 → given.isSquare = false ∧ r = 0) ∧
      (given.isSquare = false → ¬(y = 0 ∧ x ≠ 0) → y * r ^ 2 = sqrtMinusOne.element * x)) ∧
    Returns (fun _ => isSquare a) (fun square => square = true ↔ ∃ root, root ^ 2 = x) ∧
    Returns (fun _ => invSqrt a) (fun given =>
      (given.isSquare = true ↔ x ≠ 0 ∧ ∃ root, root ^ 2 = x) ∧
      (given.isSquare = true → x * given.root.element ^ 2 = 1)) := by
  intro x y
  have first : IsFactor x a := ⟨belowA, rfl⟩
  have second : IsFactor y b := ⟨belowB, rfl⟩
  simp only [← isSquare_iff_exists]
  refine ⟨?_, isSquare_returns first, ?_⟩
  · apply (sqrtRatio_returns first second).mono
    intro given isRoot
    obtain ⟨r, isRoot⟩ := isRoot
    rw [isRoot.denotes.element]
    refine ⟨isRoot.even, isRoot.isSquare, ?_, ?_, ?_⟩
    · intro square
      exact ⟨fun nonzero => (isRoot.sq nonzero).trans (if_pos square), fun zero => isRoot.zero (.inl zero)⟩
    · intro degenerate
      obtain ⟨zero, nonzero⟩ := degenerate
      refine ⟨Bool.eq_false_iff.mpr fun square => ?_, isRoot.zero (.inr zero)⟩
      exact (isRoot.isSquare.mp square).elim nonzero fun both => both.1 zero
    · intro nonsquare regular
      have nonzero : x ≠ 0 := fun zero =>
        Bool.eq_false_iff.mp nonsquare (isRoot.isSquare.mpr (.inl zero))
      have nonzero' : y ≠ 0 := fun zero => regular ⟨zero, nonzero⟩
      exact (isRoot.sq nonzero').trans (if_neg (Bool.eq_false_iff.mp nonsquare))
  · apply (invSqrt_returns first).mono
    intro given isRoot
    obtain ⟨r, denotes, square, inverse⟩ := isRoot
    rw [denotes.element]
    exact ⟨square, inverse⟩

theorem sqrtRatio_root_two :
    let given := Id.run (sqrtRatio (ofNat 2) one)
    (ofNat 2).Below (2 ^ 54) ∧ one.Below (2 ^ 54) ∧ given.isSquare = false ∧
      given.root.element ^ 2 = sqrtMinusOne.element * 2 := by
  intro given
  have belowA : (ofNat 2).Below (2 ^ 54) := by decide
  have belowB : one.Below (2 ^ 54) := by decide
  have two : (ofNat 2).element = 2 :=
    (ofNat_denotes (n := 2) (by decide)).element.trans Nat.cast_ofNat
  obtain ⟨_, square, _, _, other⟩ := (sqrtRatio_root (ofNat 2) one belowA belowB).1.run
  rw [two, one_denotes.element, div_one] at square
  rw [two, one_denotes.element, one_mul] at other
  have nonsquare : given.isSquare = false := by
    rw [Bool.eq_false_iff]
    intro isSquare
    rcases square.mp isSquare with zero | ⟨_, root⟩
    · exact two_ne_zero zero
    · exact two_not_isSquare ((isSquare_iff_exists 2).mpr root)
  exact ⟨belowA, belowB, nonsquare, other nonsquare fun degenerate => one_ne_zero degenerate.1⟩

end Curve25519.Limbs
