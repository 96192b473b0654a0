import Curve25519.Proofs.Bytes32
import Curve25519.Proofs.Montgomery.Curve

/-! The arithmetic of u-coordinates as fractions.
Doubling, and addition of two points whose difference is known, carry fractions that stand for
points over to such fractions whatever the points are, as long as the difference has a u-coordinate
other than zero. So the ladder holds two neighbouring multiples at each step. Where the
u-coordinate is zero both fractions stay zero or infinite, and that is all there is to say. -/

namespace Curve25519

/-- A fraction u / w, infinite when the denominator is zero. -/
structure Ratio (F : Type) where
  u : F
  w : F

namespace Ratio

section Formulas
variable {F : Type} [CommRing F]

def neutral : Ratio F := ⟨1, 0⟩

def ofAffine (u : F) : Ratio F := ⟨u, 1⟩

def double (factor : F) (x : Ratio F) : Ratio F :=
  let sumSquare := (x.u + x.w) ^ 2
  let diffSquare := (x.u - x.w) ^ 2
  ⟨sumSquare * diffSquare,
    (sumSquare - diffSquare) * (factor * (sumSquare - diffSquare) + diffSquare)⟩

def add (difference : F) (x y : Ratio F) : Ratio F :=
  let cross := (x.u + x.w) * (y.u - y.w)
  let cross' := (x.u - x.w) * (y.u + y.w)
  ⟨(cross + cross') ^ 2, difference * (cross - cross') ^ 2⟩

theorem add_comm (difference : F) (x y : Ratio F) : add difference x y = add difference y x := by
  simp only [add, mk.injEq]
  constructor <;> ring

theorem add_eq (difference : F) (x y : Ratio F) :
    add difference x y =
      ⟨4 * (x.u * y.u - x.w * y.w) ^ 2, 4 * difference * (x.u * y.w - y.u * x.w) ^ 2⟩ := by
  simp only [add, mk.injEq]
  constructor <;> ring

theorem double_eq {factor coefficient : F} (same : 4 * factor = coefficient + 2) (x : Ratio F) :
    double factor x = ⟨(x.u ^ 2 - x.w ^ 2) ^ 2,
      4 * x.u * x.w * (x.u ^ 2 + coefficient * x.u * x.w + x.w ^ 2)⟩ := by
  simp only [double, mk.injEq]
  constructor
  · ring
  · linear_combination 4 * (x.u * x.w) ^ 2 * same

end Formulas

def value {F : Type} [Field F] (x : Ratio F) : F := x.u * x.w⁻¹

end Ratio

namespace Montgomery

variable {F : Type} [Field F] {M : Montgomery F}

def doublingFactor (M : Montgomery F) : F := (M.coefficient + 2) / 4

theorem four_mul_doublingFactor (M : Montgomery F) :
    4 * M.doublingFactor = M.coefficient + 2 :=
  mul_div_cancel₀ _ M.four_ne_zero

/-- The fraction stands for the u-coordinate of the point, and only that of the neutral element is
infinite. -/
structure Represents (x : Ratio F) (P : M.Point) : Prop where
  infinite : x.w = 0 ↔ P = 0
  nonzero : P = 0 → x.u ≠ 0
  finite : P ≠ 0 → x.u = u P * x.w

namespace Represents

variable {P Q : M.Point} {x y : Ratio F}

theorem ne_zero (given : Represents x P) : x ≠ ⟨0, 0⟩ := by
  intro zeros
  subst zeros
  exact given.nonzero (given.infinite.mp rfl) rfl

theorem neutral : Represents .neutral (0 : M.Point) :=
  ⟨by simp [Ratio.neutral], fun _ => one_ne_zero, fun nonzero => absurd rfl nonzero⟩

theorem ofAffine (nonzero : P ≠ 0) : Represents (.ofAffine (u P)) P :=
  ⟨by simp [Ratio.ofAffine, nonzero], fun zero => absurd zero nonzero,
    fun _ => (mul_one _).symm⟩

theorem value (given : Represents x P) : x.value = u P := by
  by_cases zero : P = 0
  · rw [Ratio.value, given.infinite.mpr zero, inv_zero, mul_zero, zero, u_zero]
  · have denominator : x.w ≠ 0 := fun w => zero (given.infinite.mp w)
    rw [Ratio.value, given.finite zero, mul_inv_cancel_right₀ denominator]

theorem scale {factor u' w' : F} (nonzero : factor ≠ 0) (infinite : w' = 0 ↔ P = 0)
    (numerator : P = 0 → u' ≠ 0) (finite : P ≠ 0 → u' = u P * w') :
    Represents ⟨factor * u', factor * w'⟩ P := by
  refine ⟨?_, fun zero => mul_ne_zero nonzero (numerator zero), ?_⟩
  · simp [nonzero, infinite]
  · intro point
    simp only [finite point]
    ring

theorem neutral_add (first : Represents x (0 : M.Point)) (second : Represents y Q)
    (apart : u Q ≠ 0) : Represents (x.add (u Q) y) Q := by
  have nonzero : Q ≠ 0 := by
    rintro rfl
    exact apart u_zero
  have denominator : y.w ≠ 0 := fun w => nonzero (second.infinite.mp w)
  have shape : x.add (u Q) y =
      ⟨4 * u Q * (x.u * y.w) ^ 2 * u Q, 4 * u Q * (x.u * y.w) ^ 2 * 1⟩ := by
    rw [Ratio.add_eq, first.infinite.mpr rfl, second.finite nonzero]
    congr 1 <;> ring
  rw [shape]
  refine scale (mul_ne_zero (mul_ne_zero M.four_ne_zero apart)
    (pow_ne_zero 2 (mul_ne_zero (first.nonzero rfl) denominator))) ?_ ?_ ?_
  · simp [nonzero]
  · exact fun zero => absurd zero nonzero
  · exact fun _ => (mul_one _).symm

variable [DecidableEq F]

/-- The doubling law holds of every point, the neutral one and those of order two or four too. -/
theorem double (given : Represents x P) :
    Represents (x.double M.doublingFactor) (P + P) := by
  rw [Ratio.double_eq M.four_mul_doublingFactor]
  by_cases zero : P = 0
  · have w := given.infinite.mpr zero
    rw [zero, add_zero, w]
    refine ⟨by simp, fun _ => ?_, fun nonzero => absurd rfl nonzero⟩
    simpa using given.nonzero zero
  have denominator : x.w ≠ 0 := fun w => zero (given.infinite.mp w)
  have equation := onCurve P
  unfold OnCurve at equation
  have numerator : (x.u ^ 2 - x.w ^ 2) ^ 2 = x.w ^ 4 * (u P ^ 2 - 1) ^ 2 := by
    rw [given.finite zero]
    ring
  have lower : 4 * x.u * x.w * (x.u ^ 2 + M.coefficient * x.u * x.w + x.w ^ 2) =
      x.w ^ 4 * (4 * M.twist * v P ^ 2) := by
    rw [given.finite zero]
    linear_combination -4 * x.w ^ 4 * equation
  rw [numerator, lower]
  apply scale (pow_ne_zero 4 denominator)
  · rw [add_self_eq_zero_iff]
    simp [M.four_ne_zero, M.twist_ne_zero]
  · intro order
    exact pow_ne_zero 2 (sub_ne_zero.mpr (u_sq_ne_one (add_self_eq_zero_iff.mp order)))
  · intro finite
    rw [← double_law (fun order => finite (add_self_eq_zero_iff.mpr order))]
    ring

/-- The addition law holds of any two points whose difference has a u-coordinate other than
zero. -/
theorem add (first : Represents x P) (second : Represents y Q) (apart : u (P - Q) ≠ 0) :
    Represents (x.add (u (P - Q)) y) (P + Q) := by
  by_cases zero : P = 0
  · subst zero
    rw [zero_sub, u_neg] at apart ⊢
    rw [zero_add]
    exact neutral_add first second apart
  by_cases zero' : Q = 0
  · subst zero'
    rw [sub_zero] at apart ⊢
    rw [Ratio.add_comm, add_zero]
    exact neutral_add second first apart
  have denominator : x.w ≠ 0 := fun w => zero (first.infinite.mp w)
  have denominator' : y.w ≠ 0 := fun w => zero' (second.infinite.mp w)
  have shape : x.add (u (P - Q)) y = ⟨4 * (x.w * y.w) ^ 2 * (u P * u Q - 1) ^ 2,
      4 * (x.w * y.w) ^ 2 * (u (P - Q) * (u P - u Q) ^ 2)⟩ := by
    rw [Ratio.add_eq, first.finite zero, second.finite zero']
    congr 1 <;> ring
  rw [shape]
  refine scale (mul_ne_zero M.four_ne_zero
    (pow_ne_zero 2 (mul_ne_zero denominator denominator'))) ?_ ?_ ?_
  · rw [mul_eq_zero, or_iff_right apart, sq_eq_zero_iff, sub_eq_zero,
      u_eq_iff zero zero', ← eq_neg_iff_add_eq_zero]
    refine or_iff_right fun same => apart ?_
    rw [same, sub_self, u_zero]
  · intro opposite
    -- Opposite points differ by twice the first, whose doubling law gives the coordinate.
    have twice : P - Q = P + P := by
      rw [eq_neg_of_add_eq_zero_right opposite, sub_neg_eq_add]
    have order : v P ≠ 0 := by
      intro order
      rw [twice, add_self_eq_zero_iff.mpr order] at apart
      exact apart u_zero
    have law := double_law order
    have same : u Q = u P := by
      rw [eq_neg_of_add_eq_zero_right opposite, u_neg]
    rw [same, ← sq, ← law, ← twice]
    exact mul_ne_zero (mul_ne_zero (mul_ne_zero M.four_ne_zero M.twist_ne_zero)
      (pow_ne_zero 2 order)) apart
  · intro sum
    have distinct : u P ≠ u Q := by
      intro same
      rcases (u_eq_iff zero zero').mp same with equal | opposite
      · exact apart (by rw [equal, sub_self, u_zero])
      · exact sum (by rw [opposite, neg_add_cancel])
    rw [← sum_difference zero zero' distinct]
    ring

end Represents

structure Rungs (F : Type) where
  first : Ratio F
  second : Ratio F

namespace Rungs

section Steps
variable {R : Type} [CommRing R]

/-- The textbook step: the rung that the bit selects is doubled, and the other becomes the sum. -/
def step (factor difference : R) (rungs : Rungs R) (bit : Bool) : Rungs R :=
  if bit then ⟨rungs.first.add difference rungs.second, rungs.second.double factor⟩
  else ⟨rungs.first.double factor, rungs.first.add difference rungs.second⟩

def climb (factor difference : R) (bits : List Bool) : Rungs R :=
  bits.foldl (step factor difference) ⟨.neutral, .ofAffine difference⟩

end Steps

/-- With a zero difference each rung keeps a zero on one of its sides. -/
theorem climb_zero {F : Type} [Field F] (factor : F) (bits : List Bool) :
    (climb factor 0 bits).first.value = 0 := by
  have run : ∀ rungs : Rungs F, rungs.first.u * rungs.first.w = 0 →
      rungs.second.u * rungs.second.w = 0 →
      (bits.foldl (Rungs.step factor 0) rungs).first.u *
        (bits.foldl (Rungs.step factor 0) rungs).first.w = 0 := by
    induction bits with
    | nil => exact fun _ first _ => first
    | cons bit rest ih =>
      intro rungs first second
      have sum : (rungs.first.add 0 rungs.second).u * (rungs.first.add 0 rungs.second).w = 0 := by
        simp [Ratio.add]
      have twice (x : Ratio F) (zero : x.u * x.w = 0) : (x.double factor).u *
          (x.double factor).w = 0 := by
        have gap : (x.u + x.w) ^ 2 - (x.u - x.w) ^ 2 = 4 * (x.u * x.w) := by ring
        simp only [Ratio.double, gap, zero]
        ring
      cases bit with
      | false => exact ih _ (twice _ first) sum
      | true => exact ih _ sum (twice _ second)
  have product := run ⟨.neutral, .ofAffine 0⟩ (mul_zero _) (zero_mul _)
  rcases mul_eq_zero.mp product with zero | zero
  · rw [Ratio.value, climb, zero, zero_mul]
  · rw [Ratio.value, climb, zero, inv_zero, mul_zero]

section Multiples
variable {F : Type} [Field F] [DecidableEq F] {M : Montgomery F} {P : M.Point}

structure Holds (P : M.Point) (n : Nat) (rungs : Rungs F) : Prop where
  first : Represents rungs.first (n • P)
  second : Represents rungs.second ((n + 1) • P)

theorem Holds.start (nonzero : P ≠ 0) : Holds P 0 ⟨.neutral, .ofAffine (u P)⟩ := by
  constructor
  · rw [zero_nsmul]
    exact .neutral
  · rw [zero_add, one_nsmul]
    exact .ofAffine nonzero

theorem Holds.step {n : Nat} {rungs : Rungs F} (given : Holds P n rungs) (nonzero : u P ≠ 0)
    (bit : Bool) :
    Holds P (2 * n + bit.toNat) (rungs.step M.doublingFactor (u P) bit) := by
  have difference : n • P - (n + 1) • P = -P := by
    rw [succ_nsmul, sub_add_cancel_left]
  have sum : Represents (rungs.first.add (u P) rungs.second) ((2 * n + 1) • P) := by
    have law := given.first.add given.second (by rwa [difference, u_neg])
    rw [difference, u_neg, ← add_nsmul] at law
    have count : 2 * n + 1 = n + (n + 1) := by omega
    rwa [count]
  cases bit with
  | false =>
    refine ⟨?_, sum⟩
    have law := given.first.double
    rw [← add_nsmul, ← two_mul] at law
    exact law
  | true =>
    refine ⟨sum, ?_⟩
    have law := given.second.double
    have count : 2 * n + 1 + 1 = n + 1 + (n + 1) := by omega
    rw [← add_nsmul, ← count] at law
    exact law

theorem climb_holds (nonzero : u P ≠ 0) (bits : List Bool) :
    Holds P (bitsToNat bits) (climb M.doublingFactor (u P) bits) := by
  have run : ∀ (n : Nat) (rungs : Rungs F), Holds P n rungs →
      Holds P (bits.foldl (fun high bit => 2 * high + bit.toNat) n)
        (bits.foldl (Rungs.step M.doublingFactor (u P)) rungs) := by
    induction bits with
    | nil => exact fun _ _ given => given
    | cons bit rest ih => exact fun _ _ given => ih _ _ (given.step nonzero bit)
  refine run 0 _ (Holds.start ?_)
  rintro rfl
  exact nonzero u_zero

/-- Whatever the point, the first rung of its ladder has the u-coordinate of the multiple. -/
theorem climb_value (P : M.Point) (bits : List Bool) :
    (climb M.doublingFactor (u P) bits).first.value = u (bitsToNat bits • P) := by
  by_cases zero : u P = 0
  · rw [u_nsmul_of_u_eq_zero zero, zero]
    exact climb_zero _ bits
  · exact (climb_holds zero bits).first.value

end Multiples
end Rungs

end Montgomery
end Curve25519
