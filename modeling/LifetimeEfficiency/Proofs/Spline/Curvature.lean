import LifetimeEfficiency.Proofs.Spline.Interpolation
import LifetimeEfficiency.Spline.Smoothing
import Mathlib.Analysis.Calculus.Deriv.Polynomial
import Mathlib.MeasureTheory.Integral.IntervalIntegral.FundThmCalculus
/-!
# Curvature of a natural spline

Half the second derivatives at the knots vanish at both ends and solve a tridiagonal system in the second differences of the values.
The integral of the squared second derivative is a quadratic form in them.
-/
namespace LifetimeEfficiency

section Field

variable {K : Type} [Field K] [LinearOrder K] [IsStrictOrderedRing K]

namespace Cubic

theorem slope_eq (p : Cubic K) {a b : K} (h : b - a ≠ 0) :
    p.slope a = (p.value b - p.value a) / (b - a) -
        (b - a) * (2 * p.curvature a + p.curvature b) / 6 ∧
      p.slope b = (p.value b - p.value a) / (b - a) +
        (b - a) * (p.curvature a + 2 * p.curvature b) / 6 := by
  simp only [value_eq, slope, curvature]
  constructor <;> field_simp <;> ring

end Cubic

/-- The second difference of values around the knot after number `i`. -/
def Knots.secondDifference (k : Knots K) (v : Nat → K) (i : Nat) : K :=
  k.r i * (v i - v (i + 1)) - k.r (i + 1) * (v (i + 1) - v (i + 2))

/-- Numbers that are half the second derivatives of a natural spline at the knots. -/
structure Knots.HalfCurvatures (k : Knots K) (v β : Nat → K) : Prop where
  first : β 0 = 0
  last : β (k.size - 1) = 0
  inner {i : Nat} (hi : i + 2 < k.size) :
    k.width i * β i + k.p (i + 1) * β (i + 1) + k.width (i + 1) * β (i + 2) =
      k.secondDifference v i

def Curve.halfCurvature (c : Curve K) (i : Nat) : K :=
  if i < c.knots.intervals then (c.intervalPolynomial i).curvature (c.knots.u i) / 2 else 0

namespace Curve

variable {c : Curve K} {values : List K} {n : Nat} (hk : c.knots.Increasing)
  (hn : c.knots.size = n + 2)
  (h : Spline.interpolate c.knots values EndConditions.natural = .ok c.coefs)

include hk hn h

theorem curvature_first : (c.intervalPolynomial 0).curvature c.knots.first = 0 := by
  have hleft := Spline.left_holds_of_interpolate hk hn h
  rw [← Cubic.eval_derivative_derivative]
  exact hleft.trans Scalar.exact_zero

theorem curvature_last : (c.intervalPolynomial n).curvature c.knots.last = 0 := by
  have hright := Spline.right_holds_of_interpolate hk hn h
  rw [← Cubic.eval_derivative_derivative]
  exact hright.trans Scalar.exact_zero

theorem curvature_eq {i : Nat} (hi : i < n + 1) :
    (c.intervalPolynomial i).curvature (c.knots.u i) = 2 * c.halfCurvature i ∧
      (c.intervalPolynomial i).curvature (c.knots.u (i + 1)) = 2 * c.halfCurvature (i + 1) := by
  have hintervals := Knots.intervals_eq hn
  constructor
  · rw [halfCurvature, if_pos (hintervals ▸ hi), mul_div_cancel₀ _ two_ne_zero]
  · rcases Nat.lt_or_ge (i + 1) (n + 1) with hlt | hge
    · have hjoins := c.intervalPolynomial_joins hk (hintervals ▸ hlt)
      rw [halfCurvature, if_pos (hintervals ▸ hlt), mul_div_cancel₀ _ two_ne_zero,
        hjoins.curvature, Nat.cast_succ]
    · obtain rfl : i = n := by omega
      have hlast : c.knots.u (i + 1) = c.knots.last := (Knots.last_eq hn).symm
      rw [halfCurvature, if_neg (by omega), hlast, curvature_last hk hn h, mul_zero]

theorem value_ends {i : Nat} (hi : i < n + 1) :
    (c.intervalPolynomial i).value (c.knots.u i) = values.getD i 0 ∧
      (c.intervalPolynomial i).value (c.knots.u (i + 1)) = values.getD (i + 1) 0 := by
  have hintervals := Knots.intervals_eq hn
  have hlt := hk.u_lt_succ (hintervals ▸ hi)
  have hvalue {j : Nat} (hj : j < n + 2) := Spline.value_of_interpolate hk hn h hj
  constructor
  · rw [← hvalue (by omega), value_between hk (hintervals ▸ hi) le_rfl hlt.le]
  · rw [← hvalue (by omega), Nat.cast_succ, value_between hk (hintervals ▸ hi) hlt.le le_rfl]

theorem halfCurvatures_of_interpolate :
    c.knots.HalfCurvatures (fun i => values.getD i 0) c.halfCurvature where
  first := by
  -- Neighbouring polynomials have one slope at their knot, which is the system.
    have hcurv := (curvature_eq hk hn h (Nat.succ_pos n)).1
    have hzero : (c.intervalPolynomial 0).curvature (c.knots.u (0 : Nat)) = 0 :=
      curvature_first hk hn h
    rw [hzero] at hcurv
    exact (mul_eq_zero.mp hcurv.symm).resolve_left two_ne_zero
  last := if_neg (Nat.lt_irrefl _)
  inner {i} hi := by
    have hlt : i + 1 < c.knots.intervals := by
      rw [Knots.intervals_eq hn]
      omega
    have hne := (sub_pos.mpr (hk.u_lt_succ (Nat.lt_of_succ_lt hlt))).ne'
    have hne' := (sub_pos.mpr (hk.u_lt_succ hlt)).ne'
    have hjoins := c.intervalPolynomial_joins hk hlt
    obtain ⟨hcurv, hcurv1⟩ := curvature_eq hk hn h (i := i) (by omega)
    obtain ⟨hcurv1', hcurv2⟩ := curvature_eq hk hn h (i := i + 1) (by omega)
    obtain ⟨hvalue, hvalue1⟩ := value_ends hk hn h (i := i) (by omega)
    obtain ⟨hvalue1', hvalue2⟩ := value_ends hk hn h (i := i + 1) (by omega)
    have hslope := ((c.intervalPolynomial i).slope_eq hne).2
    have hslope' := ((c.intervalPolynomial (i + 1)).slope_eq hne').1
    push_cast at *
    rw [hcurv, hcurv1, hvalue, hvalue1] at hslope
    rw [hcurv1', hcurv2, hvalue1', hvalue2] at hslope'
    have hjoin := hslope.symm.trans (hjoins.slope.trans hslope')
    simp only [Knots.secondDifference, Knots.p, Knots.r, Knots.width, Knots.h, add_sub_cancel_right,
      Scalar.exact_ofNat]
    linear_combination 3 * hjoin

end Curve

end Field

namespace Cubic

theorem hasDerivAt_value (p : Cubic ℝ) (x : ℝ) : HasDerivAt p.value (p.slope x) x := by
  have hp := p.toPolynomial.hasDerivAt x
  simpa only [eval_toPolynomial, eval_derivative] using hp

theorem hasDerivAt_slope (p : Cubic ℝ) (x : ℝ) : HasDerivAt p.slope (p.curvature x) x := by
  have hp := p.toPolynomial.derivative.hasDerivAt x
  simpa only [eval_derivative, eval_derivative_derivative] using hp

theorem continuous_curvature (p : Cubic ℝ) : Continuous p.curvature := by
  unfold curvature
  fun_prop

/-- The curvature of a cubic is linear, so the integral of its square is a form in the curvatures at the ends. -/
theorem integral_curvature_sq (p : Cubic ℝ) (a b : ℝ) :
    ∫ x in a..b, p.curvature x ^ 2 =
      (b - a) / 3 * (p.curvature a ^ 2 + p.curvature a * p.curvature b + p.curvature b ^ 2) := by
  have hderiv (x : ℝ) : HasDerivAt
      (fun x => 4 * p.c2 ^ 2 * x + 12 * p.c2 * p.c3 * x ^ 2 + 12 * p.c3 ^ 2 * x ^ 3)
      (p.curvature x ^ 2) x := by
    have hlinear := (hasDerivAt_id' x).const_mul (4 * p.c2 ^ 2)
    have hsquare := (hasDerivAt_pow 2 x).const_mul (12 * p.c2 * p.c3)
    have hcube := (hasDerivAt_pow 3 x).const_mul (12 * p.c3 ^ 2)
    refine HasDerivAt.congr_deriv ((hlinear.fun_add hsquare).fun_add hcube) ?_
    simp only [curvature]
    ring
  have hcont : Continuous fun x => p.curvature x ^ 2 := p.continuous_curvature.pow 2
  rw [intervalIntegral.integral_eq_sub_of_hasDerivAt (fun x _ => hderiv x)
    (hcont.intervalIntegrable a b)]
  simp only [curvature]
  ring

end Cubic

namespace Curve

/-- The integral of the squared second derivative over the knots. -/
noncomputable def roughness (c : Curve ℝ) : ℝ :=
  ∫ x in c.knots.first..c.knots.last, deriv (deriv c.value) x ^ 2

variable {c : Curve ℝ}

theorem deriv_deriv_value (hk : c.knots.Increasing) {i : Nat} (hi : i < c.knots.intervals) {x : ℝ}
    (hx : x ∈ Set.Ioo (c.knots.u i) (c.knots.u (i + 1))) :
    deriv (deriv c.value) x = (c.intervalPolynomial i).curvature x := by
  have hvalue {y : ℝ} (hy : y ∈ Set.Ioo (c.knots.u i) (c.knots.u (i + 1))) :
      deriv c.value y = (c.intervalPolynomial i).slope y := by
    have hnear : c.value =ᶠ[nhds y] (c.intervalPolynomial i).value := by
      filter_upwards [Ioo_mem_nhds hy.1 hy.2] with y' hy'
      exact value_inside hk hi hy'.1.le hy'.2.le fun _ => hy'.2
    rw [hnear.deriv_eq, ((c.intervalPolynomial i).hasDerivAt_value y).deriv]
  have hnear : deriv c.value =ᶠ[nhds x] (c.intervalPolynomial i).slope := by
    filter_upwards [Ioo_mem_nhds hx.1 hx.2] with y hy
    exact hvalue hy
  rw [hnear.deriv_eq, ((c.intervalPolynomial i).hasDerivAt_slope x).deriv]

theorem roughness_eq {values : List ℝ} {n : Nat} (hk : c.knots.Increasing)
    (hn : c.knots.size = n + 2)
    (h : Spline.interpolate c.knots values EndConditions.natural = .ok c.coefs) :
    c.roughness = 4 / 3 * ∑ i ∈ Finset.range (n + 1), c.knots.width i *
      (c.halfCurvature i ^ 2 + c.halfCurvature i * c.halfCurvature (i + 1) +
        c.halfCurvature (i + 1) ^ 2) := by
  have hintervals := Knots.intervals_eq hn
  have hcongr {i : Nat} (hi : i < n + 1) : Set.EqOn
      (fun x => deriv (deriv c.value) x ^ 2) (fun x => (c.intervalPolynomial i).curvature x ^ 2)
      (Set.Ioo (c.knots.u i) (c.knots.u (i + 1))) := by
    intro x hx
    exact congrArg (· ^ 2) (deriv_deriv_value hk (hintervals ▸ hi) hx)
  have hle {i : Nat} (hi : i < n + 1) : c.knots.u i ≤ c.knots.u (i + 1) :=
    (hk.u_lt_succ (hintervals ▸ hi)).le
  have hpiece {i : Nat} (hi : i < n + 1) :
      ∫ x in c.knots.u i..c.knots.u (i + 1), deriv (deriv c.value) x ^ 2 =
        4 / 3 * (c.knots.width i * (c.halfCurvature i ^ 2 +
          c.halfCurvature i * c.halfCurvature (i + 1) + c.halfCurvature (i + 1) ^ 2)) := by
    obtain ⟨hcurv, hcurv'⟩ := curvature_eq hk hn h hi
    rw [intervalIntegral.integral_congr_Ioo_of_le (hle hi) (hcongr hi),
      Cubic.integral_curvature_sq, hcurv, hcurv', Knots.width, Knots.h]
    ring
  have hsum := intervalIntegral.sum_integral_adjacent_intervals (n := n + 1)
    (a := fun i : Nat => c.knots.u i) (f := fun x => deriv (deriv c.value) x ^ 2) (μ := MeasureTheory.volume)
    fun i hi => by
      have hcont := ((c.intervalPolynomial i).continuous_curvature.pow 2).intervalIntegrable
        (μ := MeasureTheory.volume) (c.knots.u i) (c.knots.u (i + 1))
      rw [Nat.cast_succ]
      refine hcont.congr_uIoo ?_
      rw [Set.uIoo_of_le (hle hi)]
      exact (hcongr hi).symm
  rw [roughness, Knots.last_eq hn, Finset.mul_sum]
  refine hsum.symm.trans (Finset.sum_congr rfl fun i hi => ?_)
  rw [Nat.cast_succ]
  exact hpiece (Finset.mem_range.mp hi)

end Curve

end LifetimeEfficiency
