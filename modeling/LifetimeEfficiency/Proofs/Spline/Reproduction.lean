import LifetimeEfficiency.Proofs.Spline.Pivots
import Mathlib.Analysis.Calculus.Deriv.Polynomial
import Mathlib.MeasureTheory.Integral.IntervalIntegral.FundThmCalculus
/-!
# Interpolation gives curves back

A curve that is sampled at its knots satisfies all equations of interpolation, so its own coefficients are what is returned. A cubic is
such a curve on any knots, with its polar form for coefficients.
-/
namespace LifetimeEfficiency

variable {K : Type} [Field K] [LinearOrder K] [IsStrictOrderedRing K]

namespace Spline

section Samples

variable {c : Curve K} {ends : EndConditions K} {values b : List K} {n : Nat}
  (hk : c.knots.Increasing) (hn : c.knots.size = n + 2)
  (hvalues : ∀ i < n + 2, values.getD i 0 = c.value (c.knots.u i))
  (hleft : ends.left.HoldsAt c.knots.first (c.intervalPolynomial 0))
  (hright : ends.right.HoldsAt c.knots.last (c.intervalPolynomial n))

include hk hn hvalues

theorem outer_of_samples : c.coef 0 = values.getD 0 0 ∧ c.coef (n + 3) = values.getD (n + 1) 0 := by
  rw [hvalues 0 (by omega), hvalues (n + 1) (by omega), ← Knots.last_eq hn]
  exact ⟨(Curve.value_first_eq_coef hk).symm, (Curve.value_last_eq_coef hk hn).symm⟩

include hleft hright

theorem holds_of_samples {i : Nat} {e : Equation K} (he : (equations c.knots values ends)[i]? = some e) :
    e.Holds (c.coef i) (c.coef (i + 1)) (c.coef (i + 2)) := by
  obtain ⟨hfirst, hlast⟩ := outer_of_samples hk hn hvalues
  have hlt : i < n + 2 := by
    obtain ⟨hi, -⟩ := List.getElem?_eq_some_iff.mp he
    rwa [length_equations (by omega), hn] at hi
  rcases Nat.eq_zero_or_pos i with rfl | hpos
  · rw [equations_head, ← hfirst] at he
    cases he
    exact (leftEquation_holds_iff hk _).mpr hleft
  rcases Nat.lt_or_ge i (n + 1) with hi | hi
  · obtain ⟨j, rfl⟩ := Nat.exists_eq_succ_of_ne_zero hpos.ne'
    rw [equations_inner values ends (by omega), hvalues (j + 1) hlt] at he
    cases he
    have hintervals := Knots.intervals_eq hn
    exact (innerEquation_holds_iff hk (by omega) _).mpr rfl
  · obtain rfl : i = n + 1 := by omega
    rw [equations_last values ends hn, ← hlast] at he
    cases he
    exact (rightEquation_holds_iff hk hn _).mpr hright

theorem eq_coefs_of_samples (hcoefs : c.coefs.length = n + 4)
    (h : interpolate c.knots values ends = .ok b) : b = c.coefs := by
  have hrows {i : Nat} {e : Equation K} (he : (equations c.knots values ends)[i]? = some e) :=
    holds_of_samples hk hn hvalues hleft hright he
  obtain ⟨hfirst, hlast⟩ := outer_of_samples hk hn hvalues
  simp only [Curve.coef_eq] at hrows hfirst hlast
  exact eq_of_holds hn h hcoefs hfirst hlast fun i e he => hrows he

end Samples

omit [IsStrictOrderedRing K] in
theorem getD_samples {k : Knots K} {n : Nat} (hn : k.size = n + 2) (f : K → K) :
    ∀ i < n + 2, (k.points.map f).getD i 0 = f (k.u i) := by
  intro i hi
  have hlt : i < k.points.length := hi.trans_eq hn.symm
  rw [k.u_natCast hlt, List.getD_eq_getElem _ _ (by rwa [List.length_map]), List.getElem_map]

/-- From the samples of a curve, and its own derivatives at the ends, interpolation returns nothing but its coefficients. -/
theorem interpolate_samples {points coefs b : List K} {k : Knots K} {c : Curve K}
    {ends : EndConditions K} (hk : Knots.ofList points = .ok k) (hc : Curve.ofCoefs k coefs = .ok c)
    (hleft : ends.left.HoldsAt k.first (c.intervalPolynomial 0))
    (hright : ends.right.HoldsAt k.last (c.intervalPolynomial (points.length - 2)))
    (h : interpolate k (points.map c.value) ends = .ok b) : b = coefs := by
  obtain ⟨rfl, hinc⟩ := Knots.ofList_eq_ok_iff.mp hk
  obtain ⟨rfl, hcoefs⟩ := Curve.ofCoefs_eq_ok_iff.mp hc
  obtain ⟨n, hn⟩ := Nat.exists_eq_add_of_le' hinc.two_le
  have hpoints : k.points.length - 2 = n := by
    rw [show k.points.length = n + 2 from hn, Nat.add_sub_cancel]
  rw [hpoints] at hright
  exact eq_coefs_of_samples (c := ⟨k, coefs⟩) hinc hn (getD_samples hn _) hleft hright
    (by rw [hcoefs, hn]) h

theorem interpolate_samples_at_mixed_ends :
    let k : Knots ℚ := ⟨[0, 1, 3]⟩
    let c : Curve ℚ := ⟨k, [1, -2, 5, 0, 4]⟩
    let ends : EndConditions ℚ := ⟨.secondDerivative 32, .firstDerivative 6⟩
    Knots.ofList [0, 1, 3] = .ok k ∧ Curve.ofCoefs k [1, -2, 5, 0, 4] = .ok c ∧
      ends.left.HoldsAt k.first (c.intervalPolynomial 0) ∧
      ends.right.HoldsAt k.last (c.intervalPolynomial 1) ∧
      ∃ b, interpolate k ([0, 1, 3].map c.value) ends = .ok b ∧ b = [1, -2, 5, 0, 4] := by
  intro k c ends
  have hk : Knots.ofList [0, 1, 3] = .ok k :=
    Knots.ofList_eq_ok_iff.mpr ⟨rfl, ⟨by decide, by decide⟩⟩
  have hc : Curve.ofCoefs k [1, -2, 5, 0, 4] = .ok c := rfl
  have hleft : ends.left.HoldsAt k.first (c.intervalPolynomial 0) := by
    refine (Cubic.eval_derivative_derivative _ _).trans ?_
    decide +kernel
  have hright : ends.right.HoldsAt k.last (c.intervalPolynomial 1) := by
    refine (Cubic.eval_derivative _ _).trans ?_
    decide +kernel
  have hgrade : k.Graded := by
    unfold Knots.Graded
    decide +kernel
  have hlen : ([0, 1, 3].map c.value).length = k.size := rfl
  obtain ⟨b, hb⟩ := interpolate_of_graded (Knots.ofList_eq_ok_iff.mp hk).2 hgrade hlen ends
  exact ⟨hk, hc, hleft, hright, b, hb, interpolate_samples hk hc hleft hright hb⟩

/-! A cubic in the place of the curve. -/

section Cubic

variable {k : Knots K} {p : Cubic K} {ends : EndConditions K} {b : List K} {n : Nat}
  (hk : k.Increasing) (hn : k.size = n + 2)

include hk

theorem value_ofCubic {x : K} (hfirst : k.first ≤ x) (hlast : x ≤ k.last) :
    (Curve.ofCubic k p).value x = p.value x := by
  obtain ⟨i, hi, hle, hge, hlt⟩ := hk.exists_interval hfirst hlast
  rw [Curve.value_inside hk hi hle hge hlt, Curve.intervalPolynomial_ofCubic hk p hi]

theorem integral_ofCubic : (Curve.ofCubic k p).integral = p.integral k.first k.last := by
  obtain ⟨n, hn⟩ := Nat.exists_eq_add_of_le' hk.two_le
  have hpiece : ∀ i ∈ List.range k.intervals,
      ((Curve.ofCubic k p).intervalPolynomial i).integral (k.u (i : Nat)) (k.u (i + 1)) =
        p.primitive (k.u (i + 1 : Nat)) - p.primitive (k.u i) := by
    intro i hi
    rw [Curve.intervalPolynomial_ofCubic hk p (List.mem_range.mp hi), Cubic.integral_eq,
      Nat.cast_succ]
  rw [Curve.integral_eq, Cubic.integral_eq, Knots.last_eq hn, ← Knots.intervals_eq hn]
  exact (congrArg List.sum (List.map_congr_left hpiece)).trans
    (List.sum_range_sub _ fun i : Nat => p.primitive (k.u i))

include hn

theorem eq_ofCubic_of_interpolate (hleft : ends.left.HoldsAt k.first p)
    (hright : ends.right.HoldsAt k.last p) (h : interpolate k (k.points.map p.value) ends = .ok b) :
    (⟨k, b⟩ : Curve K) = Curve.ofCubic k p := by
  have hintervals := Knots.intervals_eq hn
  have hvalues : ∀ i < n + 2, (k.points.map p.value).getD i 0 =
      (Curve.ofCubic k p).value (k.u i) := by
    intro i hi
    rw [getD_samples hn _ i hi, value_ofCubic hk hk.first_le (hk.le_last _)]
  have hcoefs : (Curve.ofCubic k p).coefs.length = n + 4 := by
    simp [Curve.ofCubic, hn]
  have hb := eq_coefs_of_samples (c := Curve.ofCubic k p) hk hn hvalues
    (by rwa [Curve.intervalPolynomial_ofCubic hk p (by omega)])
    (by rwa [Curve.intervalPolynomial_ofCubic hk p (by omega)]) hcoefs h
  rw [hb]
  rfl

end Cubic

end Spline

namespace Cubic

theorem hasDerivAt_primitive (p : Cubic ℝ) (x : ℝ) : HasDerivAt p.primitive (p.value x) x := by
  have h0 := (hasDerivAt_id' x).const_mul p.c0
  have h1 := ((hasDerivAt_pow 2 x).const_mul p.c1).div_const 2
  have h2 := ((hasDerivAt_pow 3 x).const_mul p.c2).div_const 3
  have h3 := ((hasDerivAt_pow 4 x).const_mul p.c3).div_const 4
  refine HasDerivAt.congr_deriv (((h0.fun_add h1).fun_add h2).fun_add h3) ?_
  rw [value_eq]
  ring

theorem continuous_value (p : Cubic ℝ) : Continuous p.value := by
  unfold value
  simp only [Scalar.exact_mulAdd]
  fun_prop

theorem integral_eq_intervalIntegral (p : Cubic ℝ) (a b : ℝ) : p.integral a b = ∫ x in a..b, p.value x := by
  rw [integral_eq, intervalIntegral.integral_eq_sub_of_hasDerivAt
    (fun x _ => p.hasDerivAt_primitive x) (p.continuous_value.intervalIntegrable a b)]

end Cubic

namespace Spline

/-- From the samples of a cubic, and its derivatives at the ends, interpolation returns a curve that is the cubic between the outer knots
and has its integral. -/
theorem interpolate_cubic {points b : List ℝ} {k : Knots ℝ} {p : Cubic ℝ} {ends : EndConditions ℝ}
    (hk : Knots.ofList points = .ok k) (hleft : ends.left.HoldsAt k.first p)
    (hright : ends.right.HoldsAt k.last p) (h : interpolate k (points.map p.value) ends = .ok b) :
    ∃ c, Curve.ofCoefs k b = .ok c ∧
      (∀ x, k.first ≤ x → x ≤ k.last → c.value x = p.value x) ∧
      c.integral = ∫ x in k.first..k.last, p.value x := by
  obtain ⟨rfl, hinc⟩ := Knots.ofList_eq_ok_iff.mp hk
  obtain ⟨n, hn⟩ := Nat.exists_eq_add_of_le' hinc.two_le
  have hcurve := eq_ofCubic_of_interpolate hinc hn hleft hright h
  have hlength := (length_of_interpolate hn h).2
  refine ⟨⟨k, b⟩, Curve.ofCoefs_eq_ok_iff.mpr ⟨rfl, by rw [hlength, hn]⟩, ?_, ?_⟩
  · intro x hfirst hlast
    rw [hcurve]
    exact value_ofCubic hinc hfirst hlast
  · rw [hcurve, integral_ofCubic hinc, Cubic.integral_eq_intervalIntegral]

theorem interpolate_cubic_at_mixed_ends :
    let k : Knots ℝ := ⟨[0, 1, 3]⟩
    let p : Cubic ℝ := ⟨2, -1, 3, 1⟩
    let ends : EndConditions ℝ := ⟨.firstDerivative (-1), .secondDerivative 24⟩
    Knots.ofList [0, 1, 3] = .ok k ∧ ends.left.HoldsAt k.first p ∧ ends.right.HoldsAt k.last p ∧
      ∃ b, interpolate k ([0, 1, 3].map p.value) ends = .ok b ∧
        ∃ c, Curve.ofCoefs k b = .ok c ∧
          (∀ x, k.first ≤ x → x ≤ k.last → c.value x = p.value x) ∧
          c.integral = ∫ x in k.first..k.last, p.value x := by
  intro k p ends
  have hk : Knots.ofList (K := ℝ) [0, 1, 3] = .ok k :=
    Knots.ofList_eq_ok_iff.mpr ⟨rfl, by decide, by norm_num [k]⟩
  have hfirst : k.first = 0 := rfl
  have hlast : k.last = 3 := rfl
  have hleft : ends.left.HoldsAt k.first p := by
    refine (Cubic.eval_derivative _ _).trans ?_
    rw [hfirst, Cubic.slope]
    norm_num [p]
  have hright : ends.right.HoldsAt k.last p := by
    refine (Cubic.eval_derivative_derivative _ _).trans ?_
    rw [hlast, Cubic.curvature]
    norm_num [p]
  have hgrade : k.Graded := by
    intro i hi j hj
    have hintervals : k.intervals = 2 := rfl
    rw [hintervals] at hi hj
    have h0 : k.width 0 = 1 - 0 := rfl
    have h1 : k.width 1 = 3 - 1 := rfl
    interval_cases i <;> interval_cases j <;> norm_num [h0, h1]
  have hlen : ([0, 1, 3].map p.value).length = k.size := rfl
  obtain ⟨b, hb⟩ := interpolate_of_graded (Knots.ofList_eq_ok_iff.mp hk).2 hgrade hlen ends
  exact ⟨hk, hleft, hright, b, hb, interpolate_cubic hk hleft hright hb⟩

end Spline
end LifetimeEfficiency
