import Mathlib.AlgebraicGeometry.EllipticCurve.Affine.Point
import Mathlib.Tactic.FieldSimp
import Mathlib.Tactic.LinearCombination
import Curve25519.Proofs.Primes

/-! The curves d v^2 = u^3 + A u^2 + u and the groups of their points.
With x = d u and y = d^2 v such a curve is y^2 = x^3 + d A x^2 + d^2 x, whose group law is known.
The factor d tells a curve, with d = 1, and its twists apart. Nothing here depends on the field. -/

namespace Curve25519

/-- A smooth curve d v^2 = u^3 + A u^2 + u. -/
structure Montgomery (F : Type) [Field F] where
  coefficient : F
  twist : F
  two_ne_zero : (2 : F) ≠ 0
  twist_ne_zero : twist ≠ 0
  smooth : coefficient ^ 2 ≠ 4

namespace Montgomery

variable {F : Type} [Field F]

def curve (M : Montgomery F) : WeierstrassCurve.Affine F :=
  ⟨0, M.twist * M.coefficient, 0, M.twist ^ 2, 0⟩

abbrev Point (M : Montgomery F) : Type := M.curve.Point

def OnCurve (M : Montgomery F) (u v : F) : Prop :=
  M.twist * v ^ 2 = u ^ 3 + M.coefficient * u ^ 2 + u

theorem four_ne_zero (M : Montgomery F) : (4 : F) ≠ 0 := by
  have square : (4 : F) = 2 ^ 2 := by norm_num
  rw [square]
  exact pow_ne_zero 2 M.two_ne_zero

section Coordinates
variable {M : Montgomery F}

instance : WeierstrassCurve.IsElliptic M.curve := by
  refine ⟨IsUnit.mk0 _ ?_⟩
  have discriminant : M.curve.Δ = 2 ^ 4 * M.twist ^ 6 * (M.coefficient ^ 2 - 4) := by
    simp only [curve, WeierstrassCurve.Δ, WeierstrassCurve.b₂, WeierstrassCurve.b₄,
      WeierstrassCurve.b₆, WeierstrassCurve.b₈]
    ring
  rw [discriminant]
  exact mul_ne_zero (mul_ne_zero (pow_ne_zero _ M.two_ne_zero) (pow_ne_zero _ M.twist_ne_zero))
    (sub_ne_zero.mpr M.smooth)

theorem equation_iff (u v : F) :
    M.curve.Equation (M.twist * u) (M.twist ^ 2 * v) ↔ M.OnCurve u v := by
  have scaled := mul_right_inj' (b := M.twist * v ^ 2) (c := u ^ 3 + M.coefficient * u ^ 2 + u)
    (pow_ne_zero 3 M.twist_ne_zero)
  rw [WeierstrassCurve.Affine.equation_iff, OnCurve, ← scaled]
  simp only [curve]
  ring_nf

def point (u v : F) (onCurve : M.OnCurve u v) : M.Point :=
  .some (M.twist * u) (M.twist ^ 2 * v)
    (WeierstrassCurve.Affine.equation_iff_nonsingular.mp ((equation_iff u v).mpr onCurve))

/-- The u-coordinate of a point, and zero for the neutral element. -/
def u : M.Point → F
  | .zero => 0
  | .some x _ _ => x / M.twist

def v : M.Point → F
  | .zero => 0
  | .some _ y _ => y / M.twist ^ 2

@[simp] theorem u_zero : u (0 : M.Point) = 0 := rfl

@[simp] theorem v_zero : v (0 : M.Point) = 0 := rfl

@[simp] theorem u_point (u' v' : F) (onCurve : M.OnCurve u' v') : u (point u' v' onCurve) = u' :=
  mul_div_cancel_left₀ _ M.twist_ne_zero

@[simp] theorem v_point (u' v' : F) (onCurve : M.OnCurve u' v') : v (point u' v' onCurve) = v' :=
  mul_div_cancel_left₀ _ (pow_ne_zero 2 M.twist_ne_zero)

theorem point_ne_zero (u v : F) (onCurve : M.OnCurve u v) : point u v onCurve ≠ 0 :=
  WeierstrassCurve.Affine.Point.some_ne_zero _

theorem some_eq_point {x y u v : F} (nonsingular : M.curve.Nonsingular x y)
    (first : x = M.twist * u) (second : y = M.twist ^ 2 * v) :
    ∃ onCurve, (.some x y nonsingular : M.Point) = point u v onCurve := by
  subst first second
  exact ⟨(equation_iff u v).mp nonsingular.1, rfl⟩

theorem zero_or_point (P : M.Point) : P = 0 ∨ ∃ u v, ∃ onCurve, P = point u v onCurve := by
  cases P with
  | zero => exact .inl rfl
  | some x y nonsingular =>
    have first : M.twist * (x / M.twist) = x := mul_div_cancel₀ _ M.twist_ne_zero
    have second : M.twist ^ 2 * (y / M.twist ^ 2) = y :=
      mul_div_cancel₀ _ (pow_ne_zero 2 M.twist_ne_zero)
    exact .inr ⟨_, _, some_eq_point nonsingular first.symm second.symm⟩

/-- Both coordinates of any point satisfy the equation, those of the neutral element too. -/
theorem onCurve (P : M.Point) : M.OnCurve (u P) (v P) := by
  rcases zero_or_point P with rfl | ⟨u', v', onCurve, rfl⟩
  · simp [OnCurve]
  · simpa using onCurve

theorem neg_point (u v : F) (onCurve : M.OnCurve u v) :
    ∃ opposite, -point u v onCurve = point u (-v) opposite := by
  refine some_eq_point ?_ rfl ?_
  simp only [WeierstrassCurve.Affine.negY, curve]
  ring

@[simp] theorem u_neg (P : M.Point) : u (-P) = u P := by
  rcases zero_or_point P with rfl | ⟨u', v', onCurve, rfl⟩
  · simp
  · obtain ⟨opposite, eq⟩ := neg_point u' v' onCurve
    rw [eq, u_point, u_point]

@[simp] theorem v_neg (P : M.Point) : v (-P) = -v P := by
  rcases zero_or_point P with rfl | ⟨u', v', onCurve, rfl⟩
  · simp
  · obtain ⟨opposite, eq⟩ := neg_point u' v' onCurve
    rw [eq, v_point, v_point]

theorem v_eq_or_eq_neg {u v v' : F} (first : M.OnCurve u v) (second : M.OnCurve u v') :
    v = v' ∨ v = -v' := by
  rw [← sq_eq_sq_iff_eq_or_eq_neg]
  exact mul_left_cancel₀ M.twist_ne_zero (first.trans second.symm)

theorem u_sq_ne_one {P : M.Point} (zero : v P = 0) : u P ^ 2 ≠ 1 := by
  intro one
  have equation := onCurve P
  unfold OnCurve at equation
  rw [zero] at equation
  have product : u P * (M.coefficient * u P + 2) = 0 := by
    linear_combination -equation - u P * one
  have nonzero : u P ≠ 0 := by
    intro zero
    rw [zero] at one
    norm_num at one
  have root := (mul_eq_zero.mp product).resolve_left nonzero
  apply M.smooth
  linear_combination (M.coefficient * u P - 2) * root - M.coefficient ^ 2 * one

theorem v_eq_zero_of_u_eq_zero {P : M.Point} (zero : u P = 0) : v P = 0 := by
  have equation := onCurve P
  unfold OnCurve at equation
  rw [zero] at equation
  have square : M.twist * v P ^ 2 = 0 := by linear_combination equation
  rwa [mul_eq_zero, or_iff_right M.twist_ne_zero, sq_eq_zero_iff] at square

def orderTwo (M : Montgomery F) : M.Point := point 0 0 (by simp [OnCurve])

theorem u_eq_zero_iff (P : M.Point) : u P = 0 ↔ P = 0 ∨ P = M.orderTwo := by
  constructor
  · intro zero
    have zero' := v_eq_zero_of_u_eq_zero zero
    rcases zero_or_point P with rfl | ⟨u', v', onCurve, rfl⟩
    · exact .inl rfl
    · rw [u_point] at zero
      rw [v_point] at zero'
      subst zero zero'
      exact .inr rfl
  · rintro (rfl | rfl)
    · rfl
    · exact u_point 0 0 _

end Coordinates

section Group
variable [DecidableEq F] {M : Montgomery F} {u₁ v₁ u₂ v₂ : F}
  (first : M.OnCurve u₁ v₁) (second : M.OnCurve u₂ v₂)

theorem u_add_of_slope (slope : F) (distinct : ¬(u₁ = u₂ ∧ v₁ = -v₂))
    (same : M.curve.slope (M.twist * u₁) (M.twist * u₂) (M.twist ^ 2 * v₁) (M.twist ^ 2 * v₂) =
      M.twist * slope) :
    u (point u₁ v₁ first + point u₂ v₂ second) =
      M.twist * slope ^ 2 - M.coefficient - u₁ - u₂ := by
  have lines : ¬(M.twist * u₁ = M.twist * u₂ ∧
      M.twist ^ 2 * v₁ = M.curve.negY (M.twist * u₂) (M.twist ^ 2 * v₂)) := by
    rintro ⟨equal, opposite⟩
    refine distinct ⟨mul_left_cancel₀ M.twist_ne_zero equal,
      mul_left_cancel₀ (pow_ne_zero 2 M.twist_ne_zero) (opposite.trans ?_)⟩
    simp only [WeierstrassCurve.Affine.negY, curve]
    ring
  have coordinate : M.curve.addX (M.twist * u₁) (M.twist * u₂) (M.twist * slope) =
      M.twist * (M.twist * slope ^ 2 - M.coefficient - u₁ - u₂) := by
    simp only [WeierstrassCurve.Affine.addX, curve]
    ring
  rw [point, point, WeierstrassCurve.Affine.Point.add_some lines]
  change M.curve.addX _ _ _ / M.twist = _
  rw [same, coordinate, mul_div_cancel_left₀ _ M.twist_ne_zero]

theorem u_add_of_ne (apart : u₁ ≠ u₂) :
    u (point u₁ v₁ first + point u₂ v₂ second) =
      M.twist * ((v₁ - v₂) / (u₁ - u₂)) ^ 2 - M.coefficient - u₁ - u₂ := by
  refine u_add_of_slope first second _ (fun same => apart same.1) ?_
  have twist := M.twist_ne_zero
  have difference := sub_ne_zero.mpr apart
  rw [WeierstrassCurve.Affine.slope_of_X_ne (fun same => apart (mul_left_cancel₀ twist same)),
    ← mul_sub, ← mul_sub]
  field_simp

theorem u_double (nonzero : v₁ ≠ 0) :
    u (point u₁ v₁ first + point u₁ v₁ first) =
      M.twist * ((3 * u₁ ^ 2 + 2 * M.coefficient * u₁ + 1) / (2 * M.twist * v₁)) ^ 2
        - M.coefficient - u₁ - u₁ := by
  have two := M.two_ne_zero
  have twist := M.twist_ne_zero
  have apart : v₁ ≠ -v₁ := by
    intro same
    have twice : 2 * v₁ = 0 := by linear_combination same
    exact nonzero ((mul_eq_zero.mp twice).resolve_left two)
  refine u_add_of_slope first first _ (fun same => apart same.2) ?_
  have opposite : M.curve.negY (M.twist * u₁) (M.twist ^ 2 * v₁) = M.twist ^ 2 * -v₁ := by
    simp only [WeierstrassCurve.Affine.negY, curve]
    ring
  have lines : M.twist ^ 2 * v₁ ≠ M.curve.negY (M.twist * u₁) (M.twist ^ 2 * v₁) := by
    rw [opposite]
    exact fun same => apart (mul_left_cancel₀ (pow_ne_zero 2 twist) same)
  have run : M.twist ^ 2 * v₁ - M.twist ^ 2 * -v₁ = 2 * M.twist ^ 2 * v₁ := by ring
  rw [WeierstrassCurve.Affine.slope_of_Y_ne rfl lines, opposite, run]
  simp only [curve]
  field_simp
  ring

theorem point_add_point_eq_zero_iff :
    point u₁ v₁ first + point u₂ v₂ second = 0 ↔ u₁ = u₂ ∧ v₁ = -v₂ := by
  obtain ⟨opposite, eq⟩ := neg_point u₂ v₂ second
  rw [← eq_neg_iff_add_eq_zero, eq]
  constructor
  · intro same
    have coordinate := congrArg u same
    have coordinate' := congrArg v same
    rw [u_point, u_point] at coordinate
    rw [v_point, v_point] at coordinate'
    exact ⟨coordinate, coordinate'⟩
  · rintro ⟨rfl, rfl⟩
    rfl

end Group

section Laws
variable [DecidableEq F] {M : Montgomery F} {P Q : M.Point}

/-- The law of the chord through two points, which holds of the tangent where they agree. -/
theorem chord (nonzero : P ≠ 0) (nonzero' : Q ≠ 0) (sum : P + Q ≠ 0) :
    (u P - u Q) ^ 2 * u (P + Q) = (u P + u Q) * (1 + u P * u Q) + 2 * M.coefficient * u P * u Q
      - 2 * M.twist * v P * v Q := by
  obtain rfl | ⟨u₁, v₁, first, rfl⟩ := zero_or_point P
  · exact absurd rfl nonzero
  obtain rfl | ⟨u₂, v₂, second, rfl⟩ := zero_or_point Q
  · exact absurd rfl nonzero'
  simp only [u_point, v_point]
  unfold OnCurve at first second
  by_cases apart : u₁ = u₂
  · subst apart
    have same : v₁ = v₂ := (v_eq_or_eq_neg first second).resolve_right fun opposite =>
      sum ((point_add_point_eq_zero_iff first second).mpr ⟨rfl, opposite⟩)
    subst same
    linear_combination 2 * first
  · have difference := sub_ne_zero.mpr apart
    rw [u_add_of_ne first second apart]
    field_simp
    linear_combination first + second

theorem double_law (nonzero : v P ≠ 0) :
    4 * M.twist * v P ^ 2 * u (P + P) = (u P ^ 2 - 1) ^ 2 := by
  obtain rfl | ⟨u₁, v₁, first, rfl⟩ := zero_or_point P
  · exact absurd rfl nonzero
  simp only [u_point, v_point] at *
  have two := M.two_ne_zero
  have twist := M.twist_ne_zero
  rw [u_double first nonzero]
  unfold OnCurve at first
  field_simp
  linear_combination (-16 * (M.coefficient + 2 * u₁)) * first

theorem add_self_eq_zero_iff : P + P = 0 ↔ v P = 0 := by
  obtain rfl | ⟨u₁, v₁, first, rfl⟩ := zero_or_point P
  · simp
  rw [point_add_point_eq_zero_iff, v_point]
  constructor
  · rintro ⟨-, same⟩
    have twice : 2 * v₁ = 0 := by linear_combination same
    exact (mul_eq_zero.mp twice).resolve_left M.two_ne_zero
  · intro zero
    rw [zero, neg_zero]
    exact ⟨rfl, rfl⟩

theorem u_eq_iff (nonzero : P ≠ 0) (nonzero' : Q ≠ 0) : u P = u Q ↔ P = Q ∨ P = -Q := by
  constructor
  · intro same
    obtain rfl | ⟨u₁, v₁, first, rfl⟩ := zero_or_point P
    · exact absurd rfl nonzero
    obtain rfl | ⟨u₂, v₂, second, rfl⟩ := zero_or_point Q
    · exact absurd rfl nonzero'
    rw [u_point, u_point] at same
    subst same
    rcases v_eq_or_eq_neg first second with rfl | opposite
    · exact .inl rfl
    · exact .inr (eq_neg_of_add_eq_zero_left
        ((point_add_point_eq_zero_iff first second).mpr ⟨rfl, opposite⟩))
  · rintro (rfl | rfl)
    · rfl
    · exact u_neg Q

theorem sum_difference (nonzero : P ≠ 0) (nonzero' : Q ≠ 0) (apart : u P ≠ u Q) :
    (u P - u Q) ^ 2 * (u (P + Q) * u (P - Q)) = (u P * u Q - 1) ^ 2 := by
  have sum : P + Q ≠ 0 := fun zero => apart (by
    rw [eq_neg_of_add_eq_zero_left zero, u_neg])
  have difference : P + -Q ≠ 0 := fun zero => apart (by
    rw [eq_neg_of_add_eq_zero_left zero, neg_neg])
  have first := chord nonzero nonzero' sum
  have second := chord nonzero (neg_ne_zero.mpr nonzero') difference
  rw [u_neg, v_neg] at second
  have equation := onCurve P
  have equation' := onCurve Q
  unfold OnCurve at equation equation'
  rw [sub_eq_add_neg P Q]
  apply mul_left_cancel₀ (pow_ne_zero 2 (sub_ne_zero.mpr apart))
  linear_combination (u P - u Q) ^ 2 * u (P + -Q) * first
    + ((u P + u Q) * (1 + u P * u Q) + 2 * M.coefficient * u P * u Q
      - 2 * M.twist * v P * v Q) * second
    - 4 * (M.twist * v Q ^ 2) * equation
    - 4 * (u P ^ 3 + M.coefficient * u P ^ 2 + u P) * equation'

theorem two_nsmul_of_u_eq_zero (zero : u P = 0) : 2 • P = 0 := by
  rw [two_nsmul, add_self_eq_zero_iff]
  exact v_eq_zero_of_u_eq_zero zero

theorem u_nsmul_of_u_eq_zero (zero : u P = 0) (n : Nat) : u (n • P) = 0 := by
  have twice := two_nsmul_of_u_eq_zero zero
  rcases Nat.even_or_odd' n with ⟨half, even | odd⟩
  · rw [even, mul_nsmul, twice, nsmul_zero, u_zero]
  · rw [odd, succ_nsmul, mul_nsmul, twice, nsmul_zero, zero_add, zero]

end Laws

end Montgomery
end Curve25519
