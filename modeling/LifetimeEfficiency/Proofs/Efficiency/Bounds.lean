import LifetimeEfficiency.Proofs.Efficiency.Constructed
import LifetimeEfficiency.Proofs.Spline.Hull
/-!
# Bounds of efficiencies

A curve is bounded by its coefficients between the outer knots, a step function by its heights everywhere.
-/
namespace LifetimeEfficiency

variable {K : Type} [Field K] [LinearOrder K] [IsStrictOrderedRing K]

theorem Steps.abs_value_le (s : Steps K) (x : K) : |s.value x| ≤ s.maxAbs := by
  have hheight (i : Nat) : |s.heights.getD i 0| ≤ s.maxAbs :=
    Scalar.abs_getD_le_largest s.heights i
  have hzero : |(0 : K)| ≤ s.maxAbs := abs_zero.trans_le (Scalar.largest_nonneg _)
  simp only [value, firstHeight, lastHeight, Scalar.exact_zero]
  split_ifs
  · exact hheight _
  · exact hzero
  · exact hheight _
  · exact hzero
  · exact hheight _

/-- A curve on accepted knots stays among the four coefficients of each interval. No efficiency exceeds its bound, a spline between its
outer knots and any other one anywhere. -/
theorem Efficiency.bounded_by_coefs :
    (∀ (points coefs : List K) (k : Knots K) (c : Curve K), Knots.ofList points = .ok k →
      Curve.ofCoefs k coefs = .ok c → ∀ i < k.intervals, ∀ x, k.u i ≤ x → x ≤ k.u (i + 1) →
        min (min (c.coef i) (c.coef (i + 1))) (min (c.coef (i + 2)) (c.coef (i + 3))) ≤ c.value x ∧
        c.value x ≤ max (max (c.coef i) (c.coef (i + 1))) (max (c.coef (i + 2)) (c.coef (i + 3)))) ∧
    ∀ {α : Type} (e : Efficiency K α) (value : α → K), e.Constructed → ∀ x,
      (∀ k coefs, e.shape = .spline k coefs → k.first ≤ x ∧ x ≤ k.last) →
        |(e.profile value).value x| ≤ (e.profile value).maxValue := by
  constructor
  · intro points coefs k c hk hc i hi x hle hge
    obtain ⟨-, hinc⟩ := Knots.ofList_eq_ok_iff.mp hk
    obtain ⟨rfl, -⟩ := Curve.ofCoefs_eq_ok_iff.mp hc
    constructor
    · apply Curve.le_value hinc hi hle hge
      simp [Curve.active, List.range_succ]
    · apply Curve.value_le hinc hi hle hge
      simp [Curve.active, List.range_succ]
  · intro α e value he x hspan
    have hprofile := he.profile value
    obtain ⟨name, shape⟩ := e
    cases shape with
    | spline k coefs =>
      obtain ⟨hfirst, hlast⟩ := hspan k coefs rfl
      exact Curve.abs_value_le hprofile hfirst hlast
    | binned boundaries heights => exact Steps.abs_value_le _ x
    | threshold t => exact Steps.abs_value_le _ x

theorem Efficiency.bounded_by_coefs_at_spline :
    let k : Knots ℚ := ⟨[0, 1, 3]⟩
    let coefs : List ℚ := [2, 7, 1, 8, 2]
    let c : Curve ℚ := ⟨k, coefs⟩
    let e : Efficiency ℚ ℚ := ⟨"eff", .spline k coefs⟩
    Knots.ofList [0, 1, 3] = .ok k ∧ Curve.ofCoefs k coefs = .ok c ∧ e.Constructed ∧
      (1 ≤ c.value 2 ∧ c.value 2 ≤ 8) ∧ |(e.profile id).value 2| ≤ 8 := by
  intro k coefs c e
  have hk : Knots.ofList [0, 1, 3] = .ok k :=
    Knots.ofList_eq_ok_iff.mpr ⟨rfl, ⟨by decide, by norm_num [k]⟩⟩
  have hc : Curve.ofCoefs k coefs = .ok c := if_pos rfl
  have hok : Efficiency.ofKnots "eff" k coefs = .ok e := if_pos rfl
  have he : e.Constructed := .ofKnots hk hok
  obtain ⟨hhull, hbound⟩ := Efficiency.bounded_by_coefs (K := ℚ)
  refine ⟨hk, hc, he, ?_, ?_⟩
  · have h := hhull _ coefs k c hk hc 1 (by decide) 2 (by decide) (by decide)
    exact ⟨le_trans (by decide) h.1, h.2.trans (by decide)⟩
  · refine (hbound e id he 2 ?_).trans (by decide)
    intro k' coefs' hshape
    cases hshape
    exact ⟨by decide, by decide⟩

end LifetimeEfficiency
