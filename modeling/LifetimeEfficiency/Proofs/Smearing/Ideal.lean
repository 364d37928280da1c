import LifetimeEfficiency.Proofs.Smearing.Moments
/-!
# The functions themselves

The error function as an integral, and the kernel as the solution of its differential equation that starts at the scaled
complementary error function.
-/
namespace LifetimeEfficiency.Smearing

open Real

noncomputable def idealGauss (x : ℝ) : ℝ := rexp (-x ^ 2)

noncomputable def idealStart (z : ℂ) : ℂ :=
  Complex.exp (z ^ 2) * (1 - ∫ t in (0 : ℝ)..1, (2 / √π : ℝ) * z * Complex.exp (-(z * t) ^ 2))

/-- The solution of `K' = -2 z K + 2 exp (-x²) / √π` with that value. -/
noncomputable def idealKernel (x : ℝ) (z : ℂ) : ℂ :=
  Complex.exp (-2 * z * x) * (idealStart z +
    ∫ t in (0 : ℝ)..x, (2 / √π * idealGauss t : ℝ) * Complex.exp (2 * z * t))

noncomputable def ideal : Smearing ℝ where
  erf x := ∫ t in (0 : ℝ)..x, 2 / √π * idealGauss t
  gauss := idealGauss
  kernel x z := ⟨(idealKernel x z.toComplex).re, (idealKernel x z.toComplex).im⟩
  rootPi := √π
  rootTwo := √2

theorem continuous_idealGauss : Continuous idealGauss := by
  unfold idealGauss
  fun_prop

theorem hasDerivAt_idealKernel (x : ℝ) (z : ℂ) :
    HasDerivAt (fun x => idealKernel x z)
      (-2 * z * idealKernel x z + (2 / √π * idealGauss x : ℝ)) x := by
  have hlinear : HasDerivAt (fun x : ℝ => -2 * z * (x : ℂ)) (-2 * z * 1) x :=
    (hasDerivAt_id' x).ofReal_comp.const_mul (-2 * z)
  have hexp := hlinear.cexp
  have hcont : Continuous fun t : ℝ =>
      ((2 / √π * idealGauss t : ℝ) : ℂ) * Complex.exp (2 * z * t) := by
    have hgauss := continuous_idealGauss
    fun_prop
  have hintegral := (hcont.integral_hasStrictDerivAt 0 x).hasDerivAt
  have hprod := hexp.fun_mul (hintegral.const_add (idealStart z))
  refine HasDerivAt.congr_deriv hprod ?_
  have hcancel : Complex.exp (-2 * z * x) * Complex.exp (2 * z * x) = 1 := by
    rw [← Complex.exp_add]
    simp
  unfold idealKernel
  linear_combination ((2 / √π * idealGauss x : ℝ) : ℂ) * hcancel

theorem lawful_ideal (z : Complex ℝ) : ideal.Lawful z where
  erf x := by
    have hcont : Continuous fun t => 2 / √π * idealGauss t :=
      continuous_const.mul continuous_idealGauss
    exact (hcont.integral_hasStrictDerivAt 0 x).hasDerivAt
  gauss x := by
    have hsquare : HasDerivAt (fun x : ℝ => -x ^ 2) (-(2 * x)) x := by
      simpa using (hasDerivAt_pow 2 x).fun_neg
    refine HasDerivAt.congr_deriv hsquare.exp ?_
    simp only [ideal, idealGauss]
    ring
  kernel x := hasDerivAt_idealKernel x z.toComplex

end LifetimeEfficiency.Smearing
