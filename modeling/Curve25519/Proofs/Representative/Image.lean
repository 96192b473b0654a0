import Curve25519.Proofs.Representative.Inverse

/-! The range of the direct map.
Both candidates d and -d - A for an element r have the encodability (2 r d)^2. So just one of them is
on the curve where r is not zero, and it can be encoded again; the relation of a representative to its
point gives an element for each point that can. Zero alone leads to zero. -/

namespace Curve25519

namespace Representative

section Candidates
variable (r : Element)

theorem encodability_ratio : encodability (ratio r) = (2 * r * ratio r) ^ 2 := by
  rw [encodability]
  linear_combination -2 * ratio r * ratio_mul r

theorem encodability_reflect (u : Element) : encodability (-(u + Curve.a)) = encodability u := by
  rw [encodability, encodability]
  ring

theorem encodability_image : encodability (image r) = (2 * r * ratio r) ^ 2 := by
  rw [image]
  split
  · exact encodability_ratio r
  · rw [encodability_reflect, encodability_ratio]

end Candidates

section Range
variable {r : Element}

theorem encodability_image_ne_zero (nonzero : r ≠ 0) : encodability (image r) ≠ 0 := by
  rw [encodability_image]
  exact pow_ne_zero 2 (mul_ne_zero (mul_ne_zero two_ne_zero nonzero) (ratio_ne_zero r))

theorem encodability_image_isSquare : IsSquare (encodability (image r)) :=
  encodability_image r ▸ IsSquare.sq _

theorem image_zero : image 0 = 0 := by
  have value : ratio 0 = -Curve.a := by
    have product := ratio_mul 0
    rwa [zero_pow two_ne_zero, mul_zero, add_zero, mul_one] at product
  have off : ¬IsSquare (Curve.cubic (-Curve.a)) := by
    have cubic : Curve.cubic (-Curve.a) = -Curve.a := by
      rw [Curve.cubic]
      ring
    rw [cubic, isSquare_neg_iff]
    exact Curve.a_not_isSquare
  rw [image, value, if_neg off, neg_add_cancel, neg_zero]

theorem image_eq_zero_iff : image r = 0 ↔ r = 0 := by
  constructor
  · intro zero
    by_contra nonzero
    apply encodability_image_ne_zero nonzero
    rw [zero, encodability, mul_zero, zero_mul]
  · rintro rfl
    exact image_zero

/-- The direct map leads to the curve, never to the twist. -/
theorem cubic_image_isSquare (r : Element) : IsSquare (Curve.cubic (image r)) := by
  by_cases zero : r = 0
  · rw [zero, image_zero, Curve.cubic]
    exact ⟨0, by ring⟩
  · have square : IsSquare (encodability (ratio r)) := encodability_ratio r ▸ IsSquare.sq _
    have nonzero : encodability (ratio r) ≠ 0 := by
      rw [encodability_ratio, ← encodability_image]
      exact encodability_image_ne_zero zero
    by_cases onCurve : IsSquare (Curve.cubic (ratio r))
    · rwa [image, if_pos onCurve]
    · rwa [image, if_neg onCurve, isSquare_cubic_iff nonzero square]

theorem exists_standsFor {u : Element} (high : Bool) (nonzero : encodability u ≠ 0)
    (square : IsSquare (encodability u)) : ∃ r, StandsFor u high r := by
  obtain ⟨root, same⟩ := square
  have unit : root ≠ 0 := by
    rintro rfl
    exact nonzero (same.trans (mul_zero 0))
  rw [encodability] at same
  cases high with
  | true =>
    refine ⟨(u + Curve.a) / root, ?_⟩
    change 2 * u * ((u + Curve.a) / root) ^ 2 = -(u + Curve.a)
    field_simp
    linear_combination -(u + Curve.a) * same
  | false =>
    refine ⟨u / root, ?_⟩
    change 2 * (u + Curve.a) * (u / root) ^ 2 = -u
    field_simp
    linear_combination -u * same

theorem mem_range_image_iff (u : Element) :
    u ∈ Set.range image ↔
      u = 0 ∨ IsSquare (Curve.cubic u) ∧ encodability u ≠ 0 ∧ IsSquare (encodability u) := by
  constructor
  · rintro ⟨r, rfl⟩
    by_cases zero : r = 0
    · exact .inl (image_eq_zero_iff.mpr zero)
    · exact .inr ⟨cubic_image_isSquare r, encodability_image_ne_zero zero,
        encodability_image_isSquare⟩
  · rintro (rfl | ⟨onCurve, nonzero, square⟩)
    · exact ⟨0, image_zero⟩
    · obtain ⟨r, stands⟩ := exists_standsFor true nonzero square
      exact ⟨r, stands.image nonzero square onCurve⟩

end Range

section Procedure

theorem element_directMap (r : Limbs) (below : r.Below Limbs.factorBound) :
    (Id.run (directMap r)).element = image r.element :=
  (directMap_returns r below).run.element

theorem exists_limbs (x : Element) : ∃ r : Limbs, r.Below Limbs.factorBound ∧ r.element = x := by
  obtain ⟨u, ⟨below, _⟩, same⟩ := exists_admissible x
  exact ⟨u, below, same⟩

/-- On any limbs that may be a factor, the denominator of the direct map is not zero and the map leads
to the curve; its values are zero, for zero alone, and the coordinates of the curve where -2u(u + A)
is a square other than zero. -/
theorem directMap_range :
    (∀ r : Limbs, r.Below Limbs.factorBound →
      let mapped := (Id.run (directMap r)).element
      1 + 2 * r.element ^ 2 ≠ 0 ∧ IsSquare (mapped ^ 3 + Curve.a * mapped ^ 2 + mapped) ∧
        (mapped = 0 ↔ r.element = 0)) ∧
    {mapped | ∃ r : Limbs, r.Below Limbs.factorBound ∧ (Id.run (directMap r)).element = mapped} =
      {0} ∪ {u | IsSquare (u ^ 3 + Curve.a * u ^ 2 + u) ∧ -2 * u * (u + Curve.a) ≠ 0 ∧
        IsSquare (-2 * u * (u + Curve.a))} := by
  constructor
  · intro r below
    rw [element_directMap r below]
    exact ⟨denominator_ne_zero _, cubic_image_isSquare _, image_eq_zero_iff⟩
  · ext u
    rw [Set.mem_union, Set.mem_singleton_iff]
    refine Iff.trans ?_ (mem_range_image_iff u)
    constructor
    · rintro ⟨r, below, rfl⟩
      exact ⟨r.element, (element_directMap r below).symm⟩
    · rintro ⟨x, rfl⟩
      obtain ⟨r, below, rfl⟩ := exists_limbs x
      exact ⟨r, below, element_directMap r below⟩

end Procedure

end Representative
end Curve25519
