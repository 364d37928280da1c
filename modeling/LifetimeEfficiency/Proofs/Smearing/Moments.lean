import LifetimeEfficiency.Proofs.Complex
import LifetimeEfficiency.Smearing.Moments
/-!
# The limit-dependent moments as primitives

The error function, the Gaussian and the kernel enter through their derivatives alone. Differentiating a moment leaves a polynomial
times the kernel, and the moments of one total order recombine with the decay factors to a power of the variable.
-/
namespace LifetimeEfficiency

/-- The derivatives of an error function, a Gaussian and a decay smeared by it. -/
structure Smearing.Lawful (s : Smearing ℝ) (z : Complex ℝ) : Prop where
  erf (x : ℝ) : HasDerivAt s.erf (2 / s.rootPi * s.gauss x) x
  gauss (x : ℝ) : HasDerivAt s.gauss (-2 * x * s.gauss x) x
  kernel (x : ℝ) : HasDerivAt (fun x => (s.kernel x z).toComplex)
    (-2 * z.toComplex * (s.kernel x z).toComplex + (2 / s.rootPi * s.gauss x : ℝ)) x

theorem Smearing.Lawful.continuous_kernel {s : Smearing ℝ} {z : Complex ℝ} (hs : s.Lawful z) :
    Continuous fun x => (s.kernel x z).toComplex :=
  continuous_iff_continuousAt.mpr fun x => (hs.kernel x).continuousAt

namespace Moments

open Finset (range mem_range sum_congr sum_mul sum_range_succ)

def kernelFactorSlope (x : ℝ) : Nat → ℝ
  | 0 => 0
  | 1 => -2
  | 2 => -8 * x
  | _ => -12 * (2 * x * x - 1)

theorem hasDerivAt_kernelFactor (x : ℝ) (j : Nat) :
    HasDerivAt (fun x : ℝ => kernelFactor x j) (kernelFactorSlope x j) x := by
  have hid := hasDerivAt_id' x
  have hsquare : HasDerivAt (fun x : ℝ => 2 * x * x) (2 * 1 * x + 2 * x * 1) x :=
    (hid.const_mul 2).fun_mul hid
  match j with
  | 0 => exact hasDerivAt_const x _
  | 1 =>
    have h := hid.const_mul (-2)
    rwa [mul_one] at h
  | 2 =>
    have hsub : HasDerivAt (fun x : ℝ => 2 * x * x - 1) (2 * 1 * x + 2 * x * 1) x :=
      hsquare.sub_const 1
    have h := hsub.const_mul (-2)
    refine HasDerivAt.congr_deriv (by simpa [kernelFactor] using h) ?_
    rw [kernelFactorSlope]
    ring
  | j + 3 =>
    have hsub : HasDerivAt (fun x : ℝ => 2 * x * x - 3) (2 * 1 * x + 2 * x * 1) x :=
      hsquare.sub_const 3
    have h := (hid.const_mul (-4)).fun_mul hsub
    refine HasDerivAt.congr_deriv (by simpa [kernelFactor] using h) ?_
    simp only [kernelFactorSlope]
    ring

/-- Each polynomial comes from the one before as the Hermite polynomials do. -/
theorem kernelFactor_succ (x : ℝ) {j : Nat} (hj : j < 3) :
    kernelFactor x (j + 1) = 2 * x * kernelFactor x j - kernelFactorSlope x j := by
  match j, hj with
  | 0, _ =>
    simp only [kernelFactor, kernelFactorSlope, Scalar.exact_one, Scalar.exact_ofNat]
    ring
  | 1, _ =>
    simp only [kernelFactor, kernelFactorSlope, Scalar.exact_one, Scalar.exact_ofNat]
    ring
  | 2, _ =>
    simp only [kernelFactor, kernelFactorSlope, Scalar.exact_one, Scalar.exact_ofNat]
    ring

noncomputable def remainder (s : Smearing ℝ) (x : ℝ) : Nat → ℝ
  | 0 => s.erf x
  | j + 1 => 2 / s.rootPi * kernelFactor x j * s.gauss x

theorem toComplex_get (s : Smearing ℝ) (x : ℝ) (z : Complex ℝ) {j : Nat} (hj : j < 4) :
    ((gauss s x z).get j).toComplex =
      (s.kernel x z).toComplex * kernelFactor x j + remainder s x j := by
  match j, hj with
  | 0, _ => simp [gauss, get, remainder]
  | 1, _ => simp [gauss, get, remainder, mul_comm]
  | 2, _ => simp [gauss, get, remainder, mul_comm]
  | 3, _ => simp [gauss, get, remainder, mul_comm]

/-- The products of moments and decay factors of total order `n`. -/
noncomputable def combined (m : Moments ℝ) (z : Complex ℝ) (n : Nat) : ℂ :=
  (∑ j ∈ range (n + 1), n.choose j * ((m.get j).toComplex * ((decay z).get (n - j)).toComplex)) / 2 ^ n

theorem sum_slopes {z : Complex ℝ} (hz : z.toComplex ≠ 0) (x : ℝ) {n : Nat} (hn : n < 4) :
    ∑ j ∈ range (n + 1), n.choose j *
      ((kernelFactorSlope x j - 2 * z.toComplex * kernelFactor x j) * ((decay z).get (n - j)).toComplex) =
        2 ^ n * (x : ℂ) ^ n := by
  -- The inverse powers of the decay cancel, and what is left is one power of the variable.
  match n, hn with
  | 0, _ =>
    simp [kernelFactor, kernelFactorSlope, decay, get]
    field_simp
  | 1, _ =>
    simp [sum_range_succ, kernelFactor, kernelFactorSlope, decay, get]
    field_simp
    ring
  | 2, _ =>
    simp [sum_range_succ, kernelFactor, kernelFactorSlope, decay, get]
    field_simp
    ring
  | 3, _ =>
    simp [sum_range_succ, kernelFactor, kernelFactorSlope, decay, get, Nat.choose]
    field_simp
    ring

section Derivatives

variable {s : Smearing ℝ} {z : Complex ℝ} (hs : s.Lawful z)

include hs

theorem hasDerivAt_remainder (x : ℝ) {j : Nat} (hj : j < 4) :
    HasDerivAt (fun x => remainder s x j) (-(kernelFactor x j * (2 / s.rootPi * s.gauss x))) x := by
  cases j with
  | zero =>
    refine (hs.erf x).congr_deriv ?_
    rw [kernelFactor, Scalar.exact_one]
    ring
  | succ j =>
    have hfactor := (hasDerivAt_kernelFactor x j).const_mul (2 / s.rootPi)
    refine (hfactor.mul (hs.gauss x)).congr_deriv ?_
    rw [kernelFactor_succ x (Nat.lt_of_succ_lt_succ hj)]
    ring

theorem hasDerivAt_get (x : ℝ) {j : Nat} (hj : j < 4) :
    HasDerivAt (fun x => ((gauss s x z).get j).toComplex)
      ((kernelFactorSlope x j - 2 * z.toComplex * kernelFactor x j) * (s.kernel x z).toComplex) x := by
  -- The error function and the Gaussian drop out.
  have hfactor := (hasDerivAt_kernelFactor x j).ofReal_comp
  have hrest := (hasDerivAt_remainder hs x hj).ofReal_comp
  have hsum := ((hs.kernel x).fun_mul hfactor).fun_add hrest
  have heq : (fun x => ((gauss s x z).get j).toComplex) =
      fun x => (s.kernel x z).toComplex * kernelFactor x j + remainder s x j := by
    funext x
    exact toComplex_get s x z hj
  rw [heq]
  refine HasDerivAt.congr_deriv hsum ?_
  push_cast
  ring

/-- Each combination is a primitive of the kernel times one power. -/
theorem hasDerivAt_combined (hz : z.toComplex ≠ 0) (x : ℝ) {n : Nat} (hn : n < 4) :
    HasDerivAt (fun x => (gauss s x z).combined z n) (x ^ n * (s.kernel x z).toComplex) x := by
  have hterm (j : Nat) (hj : j ∈ range (n + 1)) :
      HasDerivAt (fun x => (n.choose j : ℂ) *
          (((gauss s x z).get j).toComplex * ((decay z).get (n - j)).toComplex))
        (n.choose j * (((kernelFactorSlope x j - 2 * z.toComplex * kernelFactor x j) *
          (s.kernel x z).toComplex) * ((decay z).get (n - j)).toComplex)) x := by
    have hlt : j < 4 := by
      rw [mem_range] at hj
      omega
    exact ((hasDerivAt_get hs x hlt).mul_const _).const_mul _
  have hsum := (HasDerivAt.fun_sum hterm).div_const (2 ^ n)
  refine HasDerivAt.congr_deriv hsum ?_
  have hpower : (2 : ℂ) ^ n ≠ 0 := pow_ne_zero n two_ne_zero
  rw [div_eq_iff hpower, mul_right_comm, mul_comm ((x : ℂ) ^ n), ← sum_slopes hz x hn, sum_mul]
  refine sum_congr rfl fun j _ => ?_
  ring

end Derivatives

end Moments
end LifetimeEfficiency
