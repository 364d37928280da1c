import LifetimeEfficiency.Polynomial
import LifetimeEfficiency.Proofs.Exact
import Mathlib.Algebra.CharZero.Infinite
import Mathlib.Algebra.Polynomial.Derivative
import Mathlib.Algebra.Polynomial.Roots
/-!
# Cubic polynomials in exact arithmetic

Values, slopes and curvatures of a cubic, as the polynomial and its derivatives. Sums and multiples of cubics are
carried along term by term, and two cubics that agree up to the curvature at a point join there smoothly.
-/
namespace LifetimeEfficiency.Cubic

open Polynomial

variable {K : Type} [Field K] [LinearOrder K]

noncomputable def toPolynomial (p : Cubic K) : K[X] :=
  C p.c0 + C p.c1 * X + C p.c2 * X ^ 2 + C p.c3 * X ^ 3

def slope (p : Cubic K) (x : K) : K := p.c1 + 2 * p.c2 * x + 3 * p.c3 * x ^ 2

def curvature (p : Cubic K) (x : K) : K := 2 * p.c2 + 6 * p.c3 * x

theorem value_eq (p : Cubic K) (x : K) :
    p.value x = p.c0 + p.c1 * x + p.c2 * x ^ 2 + p.c3 * x ^ 3 := by
  simp only [value, Scalar.exact_mulAdd]
  ring

theorem eval_toPolynomial (p : Cubic K) (x : K) : p.toPolynomial.eval x = p.value x := by
  simp [toPolynomial, value_eq]

omit [LinearOrder K] in
theorem eval_derivative (p : Cubic K) (x : K) :
    p.toPolynomial.derivative.eval x = p.slope x := by
  simp only [toPolynomial, slope, derivative_add, derivative_mul, derivative_C, derivative_X,
    derivative_X_pow, eval_add, eval_mul, eval_C, eval_X, eval_pow, eval_zero, eval_one]
  simp
  ring

omit [LinearOrder K] in
theorem eval_derivative_derivative (p : Cubic K) (x : K) :
    p.toPolynomial.derivative.derivative.eval x = p.curvature x := by
  simp only [toPolynomial, curvature, derivative_add, derivative_mul, derivative_C, derivative_X,
    derivative_X_pow, eval_add, eval_mul, eval_C, eval_X, eval_pow, eval_zero, eval_one]
  simp
  ring

@[simp] theorem add_c0 (p q : Cubic K) : (p + q).c0 = p.c0 + q.c0 := rfl

@[simp] theorem add_c1 (p q : Cubic K) : (p + q).c1 = p.c1 + q.c1 := rfl

@[simp] theorem add_c2 (p q : Cubic K) : (p + q).c2 = p.c2 + q.c2 := rfl

@[simp] theorem add_c3 (p q : Cubic K) : (p + q).c3 = p.c3 + q.c3 := rfl

theorem value_linear (intercept slope x : K) :
    (linear intercept slope).value x = intercept + slope * x := by
  simp [value_eq, linear]

theorem slope_linear (intercept slope x : K) : (linear intercept slope).slope x = slope := by
  simp [Cubic.slope, linear]

theorem value_constant (c x : K) : (constant c).value x = c := by
  simp [value_eq, constant]

theorem value_shifted (p : Cubic K) (offset x : K) :
    (p.shifted offset).value x = p.value (x + offset) := by
  by_cases h : offset = 0
  · simp [shifted, h]
  · simp only [value_eq, shifted, beq_iff_eq, Scalar.exact_zero, h, if_false]
    ring

/-- A quantity that goes along with sums and multiples of cubics. -/
structure IsLinear (φ : Cubic K → K) : Prop where
  zero : φ zero = 0
  add (p q : Cubic K) : φ (p + q) = φ p + φ q
  scale (p : Cubic K) (r : K) : φ (p.scale r) = φ p * r

theorem isLinear_value (x : K) : IsLinear fun p : Cubic K => p.value x where
  zero := by simp [value_eq, Cubic.zero, constant]
  add p q := by simp only [value_eq, add_c0, add_c1, add_c2, add_c3]; ring
  scale p r := by simp only [value_eq, Cubic.scale]; ring

theorem isLinear_slope (x : K) : IsLinear fun p : Cubic K => p.slope x where
  zero := by simp [slope, Cubic.zero, constant]
  add p q := by simp only [slope, add_c1, add_c2, add_c3]; ring
  scale p r := by simp only [slope, Cubic.scale]; ring

theorem isLinear_curvature (x : K) : IsLinear fun p : Cubic K => p.curvature x where
  zero := by simp [curvature, Cubic.zero, constant]
  add p q := by simp only [curvature, add_c2, add_c3]; ring
  scale p r := by simp only [curvature, Cubic.scale]; ring

theorem IsLinear.sub {φ ψ : Cubic K → K} (hφ : IsLinear φ) (hψ : IsLinear ψ) :
    IsLinear fun p => φ p - ψ p where
  zero := by rw [hφ.zero, hψ.zero, sub_zero]
  add p q := by rw [hφ.add, hψ.add, add_sub_add_comm]
  scale p r := by rw [hφ.scale, hψ.scale, sub_mul]

theorem IsLinear.foldl_add {φ : Cubic K → K} (h : IsLinear φ) (ps : List (Cubic K)) (p : Cubic K) :
    φ (ps.foldl (· + ·) p) = φ p + (ps.map φ).sum := by
  induction ps generalizing p with
  | nil => simp
  | cons q ps ih => rw [List.foldl_cons, ih, h.add, List.map_cons, List.sum_cons, add_assoc]

theorem value_ofRoots (w a b c x : K) :
    (ofRoots w a b c).value x = w * (x - a) * (x - b) * (x - c) := by
  simp only [value_eq, ofRoots]
  ring

theorem slope_ofRoots (w a b c x : K) :
    (ofRoots w a b c).slope x =
      w * ((x - b) * (x - c) + (x - a) * (x - c) + (x - a) * (x - b)) := by
  simp only [slope, ofRoots]
  ring

theorem curvature_ofRoots (w a b c x : K) :
    (ofRoots w a b c).curvature x = 2 * w * ((x - a) + (x - b) + (x - c)) := by
  simp only [curvature, ofRoots]
  ring

theorem eq_of_value_eq [IsStrictOrderedRing K] {p q : Cubic K} (h : ∀ x, p.value x = q.value x) : p = q := by
  have hpoly : p.toPolynomial = q.toPolynomial := by
    apply Polynomial.funext
    intro x
    rw [eval_toPolynomial, eval_toPolynomial, h]
  have hcoeff (r : Cubic K) : r = ⟨r.toPolynomial.coeff 0, r.toPolynomial.coeff 1,
      r.toPolynomial.coeff 2, r.toPolynomial.coeff 3⟩ := by
    simp [toPolynomial, coeff_X, coeff_C, coeff_X_pow]
  rw [hcoeff p, hpoly, ← hcoeff q]

def primitive (p : Cubic K) (x : K) : K :=
  p.c0 * x + p.c1 * x ^ 2 / 2 + p.c2 * x ^ 3 / 3 + p.c3 * x ^ 4 / 4

theorem integral_eq [IsStrictOrderedRing K] (p : Cubic K) (lo hi : K) :
    p.integral lo hi = p.primitive hi - p.primitive lo := by
  by_cases h : lo = 0
  · simp only [integral, shifted, beq_iff_eq, Scalar.exact_zero, h, if_true, Scalar.exact_ofNat,
      primitive]
    ring
  · simp only [integral, shifted, beq_iff_eq, Scalar.exact_zero, h, if_false, Scalar.exact_ofNat,
      primitive]
    field_simp
    ring

noncomputable def antiderivative (p : Cubic K) : K[X] :=
  C p.c0 * X + C (p.c1 / 2) * X ^ 2 + C (p.c2 / 3) * X ^ 3 + C (p.c3 / 4) * X ^ 4

omit [LinearOrder K] in
theorem eval_antiderivative (p : Cubic K) (x : K) : p.antiderivative.eval x = p.primitive x := by
  simp only [antiderivative, primitive, eval_add, eval_mul, eval_C, eval_X, eval_pow]
  ring

theorem derivative_antiderivative [IsStrictOrderedRing K] (p : Cubic K) :
    p.antiderivative.derivative = p.toPolynomial := by
  apply Polynomial.funext
  intro x
  simp only [antiderivative, toPolynomial, derivative_add, derivative_C_mul, derivative_X,
    derivative_X_pow]
  simp
  ring

theorem integral_eq_eval_sub [IsStrictOrderedRing K] {p : Cubic K} {q : K[X]}
    (hq : q.derivative = p.toPolynomial) (lo hi : K) : p.integral lo hi = q.eval hi - q.eval lo := by
  -- Polynomials with the same derivative differ by a constant, which cancels between the limits.
  have hderiv : (q - p.antiderivative).derivative = 0 := by
    rw [derivative_sub, hq, derivative_antiderivative, sub_self]
  have hconst := eq_C_of_derivative_eq_zero hderiv
  have hdiff (x : K) : q.eval x = p.primitive x + (q - p.antiderivative).coeff 0 := by
    have hx := congrArg (eval x) hconst
    rw [eval_sub, eval_C, eval_antiderivative] at hx
    exact sub_eq_iff_eq_add'.mp hx
  rw [integral_eq, hdiff, hdiff, add_sub_add_right_eq_sub]

theorem isLinear_integral [IsStrictOrderedRing K] (lo hi : K) :
    IsLinear fun p : Cubic K => p.integral lo hi where
  zero := by simp [integral_eq, primitive, Cubic.zero, constant]
  add p q := by
    simp only [integral_eq, primitive, add_c0, add_c1, add_c2, add_c3]
    ring
  scale p r := by
    simp only [integral_eq, primitive, Cubic.scale]
    ring

theorem integral_eq_simpson [IsStrictOrderedRing K] (p : Cubic K) (lo hi : K) :
    p.integral lo hi = (hi - lo) / 6 * (p.value lo + 4 * p.value ((lo + hi) / 2) + p.value hi) := by
  simp only [integral_eq, primitive, value_eq]
  ring

theorem integral_swap [IsStrictOrderedRing K] (p : Cubic K) (lo hi : K) :
    p.integral hi lo = -p.integral lo hi := by
  rw [integral_eq, integral_eq, neg_sub]

/-! A cubic after a change of origin and unit, which may also turn the axis around. -/

section Substitution

variable [IsStrictOrderedRing K] {p q : Cubic K} {α β : K} (h : ∀ x, q.value (α * x + β) = p.value x)

include h

theorem toPolynomial_of_substitution : p.toPolynomial = q.toPolynomial.comp (C α * X + C β) := by
  apply Polynomial.funext
  intro x
  rw [eval_toPolynomial, ← h, eval_comp, eval_toPolynomial]
  simp

theorem slope_of_substitution (x : K) : p.slope x = α * q.slope (α * x + β) := by
  rw [← eval_derivative, ← eval_derivative, toPolynomial_of_substitution h, derivative_comp]
  simp

theorem curvature_of_substitution (x : K) : p.curvature x = α ^ 2 * q.curvature (α * x + β) := by
  rw [← eval_derivative_derivative, ← eval_derivative_derivative, toPolynomial_of_substitution h,
    derivative_comp]
  simp [derivative_comp]
  ring

theorem integral_of_substitution (lo hi : K) :
    q.integral (α * lo + β) (α * hi + β) = α * p.integral lo hi := by
  have hmid : (α * lo + β + (α * hi + β)) / 2 = α * ((lo + hi) / 2) + β := by
    ring
  rw [integral_eq_simpson, integral_eq_simpson, hmid, h, h, h]
  ring

end Substitution

structure JoinsAt (x : K) (p q : Cubic K) : Prop where
  value : p.value x = q.value x
  slope : p.slope x = q.slope x
  curvature : p.curvature x = q.curvature x

end LifetimeEfficiency.Cubic
