import LifetimeEfficiency.Proofs.Polynomial
import LifetimeEfficiency.Spline.Exponential
import Mathlib.Analysis.Calculus.Deriv.Polynomial
import Mathlib.Analysis.SpecialFunctions.ExpDeriv
import Mathlib.MeasureTheory.Integral.IntervalIntegral.FundThmCalculus
import Mathlib.Tactic.LinearCombination
/-!
# Cubics against an exponential

A cubic times a decaying exponential has a primitive that holds all derivatives of the cubic, each divided by one more power of the rate.
The incomplete gamma functions bring the same sums: without their exponential parts those at the lower limit, and with them, by
Taylor's formula, those at the upper one.
-/
namespace LifetimeEfficiency

open Finset Polynomial

def sumM {K ε : Type} [Scalar K] (terms : List (Except ε K)) : Except ε K :=
  terms.foldl (fun total term => do return (← total) + (← term)) (.ok 0)

theorem sumM_eq_ok {K ε : Type} [Scalar K] (xs : List K) :
    sumM (xs.map fun x => (.ok x : Except ε K)) = .ok (Scalar.sum xs) := by
  have hfold (a : K) : (xs.map fun x => (.ok x : Except ε K)).foldl
      (fun total term => do return (← total) + (← term)) (.ok a) = .ok (xs.foldl (· + ·) a) := by
    induction xs generalizing a with
    | nil => rfl
    | cons x xs ih => exact ih (a + x)
  exact hfold 0

variable {K : Type} [Field K] [LinearOrder K]

theorem sumM_map_ok {ε ι : Type} (l : List ι) (f : ι → K) :
    sumM (l.map fun i => (.ok (f i) : Except ε K)) = .ok (l.map f).sum := by
  rw [← Scalar.sum_eq, ← sumM_eq_ok, List.map_map]
  rfl

namespace Cubic

theorem shifted_eq [IsStrictOrderedRing K] (p : Cubic K) (offset : K) :
    p.shifted offset = ⟨p.value offset, p.slope offset, p.curvature offset / 2, p.c3⟩ := by
  by_cases h : offset = 0
  · simp [shifted, h, value_eq, slope, curvature]
  · simp only [shifted, beq_iff_eq, Scalar.exact_zero, h, if_false, Scalar.exact_ofNat, value_eq, slope,
      curvature, Cubic.mk.injEq]
    refine ⟨?_, ?_, ?_, trivial⟩ <;> ring

/-- All derivatives, each divided by one more power of the rate. -/
noncomputable def weightedDerivatives (p : Cubic K) (gamma x : K) : K :=
  ∑ j ∈ range 4, (derivative^[j] p.toPolynomial).eval x / gamma ^ (j + 1)

omit [LinearOrder K] in
theorem derivative_three (p : Cubic K) : derivative^[3] p.toPolynomial = C (6 * p.c3) := by
  have hsix : (C 6 : K[X]) = C 3 * C 2 := by
    rw [← C_mul]
    norm_num
  rw [Function.iterate_succ_apply, Function.iterate_succ_apply, Function.iterate_succ_apply,
    Function.iterate_zero_apply]
  simp only [toPolynomial, derivative_add, derivative_mul, derivative_C, derivative_X, derivative_X_pow, C_mul]
  simp
  linear_combination -C p.c3 * hsix

theorem weightedDerivatives_eq (p : Cubic K) (gamma x : K) :
    p.weightedDerivatives gamma x = p.value x / gamma + p.slope x / gamma ^ 2 +
      p.curvature x / gamma ^ 3 + 6 * p.c3 / gamma ^ 4 := by
  rw [weightedDerivatives, sum_range_succ, derivative_three, eval_C]
  simp [sum_range_succ, eval_toPolynomial, eval_derivative, eval_derivative_derivative]

theorem sum_derivatives (p : Cubic K) {gamma : K} (hgamma : gamma ≠ 0) (x : K) :
    gamma * p.weightedDerivatives gamma x -
        ∑ j ∈ range 4, (derivative^[j + 1] p.toPolynomial).eval x / gamma ^ (j + 1) = p.value x := by
  -- The terms cancel from one power of the rate to the next, and a fourth derivative there is none.
  have hterm (j : Nat) : gamma * ((derivative^[j] p.toPolynomial).eval x / gamma ^ (j + 1)) =
      (derivative^[j] p.toPolynomial).eval x / gamma ^ j := by
    rw [pow_succ', ← mul_div_assoc, mul_div_mul_left _ _ hgamma]
  have hfourth : (derivative^[4] p.toPolynomial).eval x = 0 := by
    rw [Function.iterate_succ_apply', derivative_three, derivative_C, eval_zero]
  rw [weightedDerivatives, mul_sum, ← sum_sub_distrib]
  simp only [hterm]
  rw [sum_range_sub' fun j => (derivative^[j] p.toPolynomial).eval x / gamma ^ j, hfourth, pow_zero, div_one,
    zero_div, sub_zero, Function.iterate_zero_apply, eval_toPolynomial]

section Shifted

variable [IsStrictOrderedRing K] (p : Cubic K) {gamma : K} (lo : K)

theorem sum_shifted : ∑ n ∈ range 4, (p.shifted lo).coef n * n.factorial / gamma ^ (n + 1) =
    p.weightedDerivatives gamma lo := by
  rw [weightedDerivatives_eq, shifted_eq]
  simp [sum_range_succ, coef, Nat.factorial]
  ring

/-- Taylor's formula for each of the derivatives. -/
theorem sum_shifted_mul (hgamma : gamma ≠ 0) (w : K) :
    ∑ n ∈ range 4, (p.shifted lo).coef n * n.factorial *
        (∑ k ∈ range (n + 1), (gamma * w) ^ k / k.factorial) / gamma ^ (n + 1) =
      p.weightedDerivatives gamma (lo + w) := by
  rw [weightedDerivatives_eq, shifted_eq]
  simp only [sum_range_succ, range_zero, sum_empty, coef, Nat.factorial, value_eq, slope, curvature]
  push_cast
  field_simp
  ring

end Shifted

end Cubic

namespace DecayFunctions

theorem factorial_eq (n : Nat) : factorial n = n.factorial := by
  induction n with
  | zero => rfl
  | succ n ih => rw [factorial, ih, Nat.factorial_succ]

/-- The exponential takes sums to products, and the incomplete gamma functions are finite sums of its multiples. -/
structure Lawful (d : DecayFunctions K) : Prop where
  exp_add (x y : K) : d.exp (x + y) = d.exp x * d.exp y
  lowerGamma (n : Nat) {x : K} (hx : 0 < x) :
    d.lowerGamma (n + 1) x = some (1 - d.exp (-x) * ∑ k ∈ range (n + 1), x ^ k / k.factorial)

noncomputable def primitive (d : DecayFunctions K) (gamma : K) (p : Cubic K) (x : K) : K :=
  -d.exp (-gamma * x) * p.weightedDerivatives gamma x

variable {d : DecayFunctions K} {gamma : K}

theorem addPower_eq {w part : K} {n : Nat} (h : d.lowerGamma (n + 1) (gamma * w) = some part) (q : Cubic K) (total : K) :
    d.addPower gamma w q (total, gamma ^ (n + 1)) n =
      .ok (total + q.coef n * n.factorial * part / gamma ^ (n + 1), gamma ^ (n + 2)) := by
  unfold addPower
  rw [Scalar.exact_zero]
  by_cases hc : q.coef n = 0
  · simp [hc, pow_succ]
  · rw [if_neg (mt beq_iff_eq.mp hc), h, factorial_eq, pow_succ gamma (n + 1)]
    rfl

theorem foldlM_addPower {w : K} {part : Nat → K} (h : ∀ n, d.lowerGamma (n + 1) (gamma * w) = some (part n)) (q : Cubic K)
    (m : Nat) : (List.range m).foldlM (d.addPower gamma w q) (0, gamma) =
      .ok (∑ n ∈ range m, q.coef n * n.factorial * part n / gamma ^ (n + 1), gamma ^ (m + 1)) := by
  induction m with
  | zero =>
    rw [List.range_zero, List.foldlM_nil, range_zero, sum_empty, zero_add, pow_one]
    rfl
  | succ m ih =>
    rw [List.range_succ, List.foldlM_append, ih]
    exact (bind_pure _).trans ((addPower_eq (h m) q _).trans (by rw [sum_range_succ]))

section Lawful

variable [IsStrictOrderedRing K] (hd : d.Lawful) (hgamma : 0 < gamma)

include hd hgamma

theorem integral_eq {lo hi : K} (hlt : lo < hi) (p : Cubic K) :
    d.integral p lo hi gamma = .ok (d.primitive gamma p hi - d.primitive gamma p lo) := by
  have hwidth : 0 < gamma * (hi - lo) := mul_pos hgamma (sub_pos.mpr hlt)
  have hsplit : d.exp (-gamma * hi) = d.exp (-gamma * lo) * d.exp (-(gamma * (hi - lo))) := by
    rw [← hd.exp_add]
    congr 1
    ring
  have hhi := p.sum_shifted_mul lo hgamma.ne' (hi - lo)
  rw [add_sub_cancel] at hhi
  have hparts : ∑ n ∈ range 4, (p.shifted lo).coef n * n.factorial *
      (1 - d.exp (-(gamma * (hi - lo))) * ∑ k ∈ range (n + 1), (gamma * (hi - lo)) ^ k / k.factorial) /
        gamma ^ (n + 1) =
      p.weightedDerivatives gamma lo - d.exp (-(gamma * (hi - lo))) * p.weightedDerivatives gamma hi := by
    rw [← p.sum_shifted, ← hhi, mul_sum, ← sum_sub_distrib]
    refine sum_congr rfl fun n _ => ?_
    ring
  unfold integral
  rw [if_pos hlt.le]
  rw [Scalar.exact_zero, foldlM_addPower (fun n => hd.lowerGamma n hwidth)]
  refine congrArg Except.ok ((congrArg _ hparts).trans ?_)
  rw [primitive, primitive, hsplit]
  ring

/-- The integral is the difference of a primitive that holds every derivative of the cubic. -/
theorem decayed_cubic_integral (p : Cubic K) {lo hi : K} (hlt : lo < hi) :
    let F (x : K) := -d.exp (-gamma * x) *
      ∑ j ∈ range 4, (derivative^[j] p.toPolynomial).eval x / gamma ^ (j + 1)
    d.integral p lo hi gamma = .ok (F hi - F lo) :=
  integral_eq hd hgamma hlt p

end Lawful

noncomputable def real : DecayFunctions ℝ where
  exp := Real.exp
  lowerGamma n x :=
    if 0 < n ∧ 0 < x then some (1 - Real.exp (-x) * ∑ k ∈ range n, x ^ k / k.factorial) else none

theorem lawful_real : real.Lawful where
  exp_add := Real.exp_add
  lowerGamma n _ hx := if_pos ⟨n.succ_pos, hx⟩

theorem decayed_cubic_integral_of_line :
    real.integral (Cubic.linear 0 1) 0 1 1 = .ok (1 - 2 * Real.exp (-1)) := by
  refine (decayed_cubic_integral lawful_real one_pos _ one_pos).trans (congrArg Except.ok ?_)
  simp [sum_range_succ, Cubic.linear, Cubic.toPolynomial, real]
  ring

theorem hasDerivAt_primitive {gamma : ℝ} (hgamma : gamma ≠ 0) (p : Cubic ℝ) (x : ℝ) :
    HasDerivAt (real.primitive gamma p) (p.value x * Real.exp (-gamma * x)) x := by
  -- Differentiated, the sum loses its first term and is divided by the rate.
  have hexp := ((hasDerivAt_id' x).const_mul (-gamma)).exp.fun_neg
  have hsum : HasDerivAt (p.weightedDerivatives gamma)
      (∑ j ∈ range 4, (derivative^[j + 1] p.toPolynomial).eval x / gamma ^ (j + 1)) x := by
    refine HasDerivAt.fun_sum fun j _ => ?_
    rw [Function.iterate_succ_apply']
    exact (Polynomial.hasDerivAt _ x).div_const _
  refine HasDerivAt.congr_deriv (hexp.fun_mul hsum) ?_
  rw [← p.sum_derivatives hgamma x]
  ring

theorem integral_eq_intervalIntegral {gamma lo hi : ℝ} (hgamma : 0 < gamma) (hlt : lo < hi) (p : Cubic ℝ) :
    real.integral p lo hi gamma = .ok (∫ x in lo..hi, p.value x * Real.exp (-gamma * x)) := by
  have hcont : Continuous fun x => p.value x * Real.exp (-gamma * x) := by
    simp only [Cubic.value_eq]
    fun_prop
  rw [integral_eq lawful_real hgamma hlt, intervalIntegral.integral_eq_sub_of_hasDerivAt
    (fun x _ => hasDerivAt_primitive hgamma.ne' p x) (hcont.intervalIntegrable lo hi)]

end DecayFunctions
end LifetimeEfficiency
