import LifetimeEfficiency.Proofs.Spline.Curve
import Mathlib
/-!
# Smoothness

Two polynomials that agree at a point in all derivatives up to an order are glued there without a trace up to that order. The polynomials
of a curve are glued up to the curvature at the inner knots, and its lines up to the slope at the outer ones.
-/
namespace LifetimeEfficiency

open Polynomial

section Field

variable {K : Type} [Field K] [LinearOrder K]

namespace Cubic

/-- Agreement in all derivatives up to an order. -/
def AgreesTo (order : Nat) (x : K) (p q : Cubic K) : Prop :=
  ∀ j ≤ order, (derivative^[j] p.toPolynomial).eval x = (derivative^[j] q.toPolynomial).eval x

theorem agreesTo_one_of_slope {x : K} {p q : Cubic K} (hvalue : p.value x = q.value x)
    (hslope : p.slope x = q.slope x) : p.AgreesTo 1 x q := by
  intro j hj
  match j, hj with
  | 0, _ => simpa [eval_toPolynomial] using hvalue
  | 1, _ => simpa [eval_derivative] using hslope

theorem JoinsAt.agreesTo_two {x : K} {p q : Cubic K} (h : p.JoinsAt x q) : p.AgreesTo 2 x q := by
  intro j hj
  match j, hj with
  | 0, _ => simpa [eval_toPolynomial] using h.value
  | 1, _ => simpa [eval_derivative] using h.slope
  | 2, _ => simpa [eval_derivative_derivative] using h.curvature

end Cubic

namespace Curve

variable {c : Curve K} (h : c.knots.Increasing)

include h

variable [IsStrictOrderedRing K]

/-- The lines beyond the outer knots touch the outer polynomials. -/
theorem leftLine_agreesTo : c.leftLine.AgreesTo 1 c.knots.first (c.intervalPolynomial 0) := by
  obtain ⟨hvalue, hslope, -⟩ := intervalPolynomial_first h
  apply Cubic.agreesTo_one_of_slope
  · rw [leftLine, line, Cubic.value_linear, value_first_eq_coef h, hvalue, sub_add_cancel]
  · rw [hslope, leftLine, line, Cubic.slope_linear, leftSlope]
    ring

theorem rightLine_agreesTo {n : Nat} (hn : c.knots.size = n + 2) :
    (c.intervalPolynomial n).AgreesTo 1 c.knots.last c.rightLine := by
  obtain ⟨hvalue, hslope, -⟩ := intervalPolynomial_last h hn
  have hr : ((c.knots.size : Nat) - 2 : Int) = n := by omega
  apply Cubic.agreesTo_one_of_slope
  · rw [rightLine, line, Cubic.value_linear, value_last_eq_coef h hn, hvalue, sub_add_cancel]
  · rw [hslope, rightLine, line, Cubic.slope_linear, rightSlope, hr, hn]

end Curve

end Field

theorem contDiff_eval (p : ℝ[X]) (n : WithTop ℕ∞) : ContDiff ℝ n fun x => p.eval x := by
  simpa [coe_aeval_eq_eval] using p.contDiff_aeval (𝕜 := ℝ) n

/-- One polynomial up to a point and another one from there on. -/
noncomputable def glue (p q : ℝ[X]) (a x : ℝ) : ℝ := if x ≤ a then p.eval x else q.eval x

section Glue

variable {p q : ℝ[X]} {a : ℝ}

theorem hasDerivAt_glue (hvalue : p.eval a = q.eval a)
    (hslope : p.derivative.eval a = q.derivative.eval a) (x : ℝ) :
    HasDerivAt (glue p q a) (glue p.derivative q.derivative a x) x := by
  have hleft : Set.EqOn (glue p q a) (fun x => p.eval x) (Set.Iic a) := by
    intro y hy
    exact if_pos hy
  have hright : Set.EqOn (glue p q a) (fun x => q.eval x) (Set.Ici a) := by
    intro y hy
    rcases (Set.mem_Ici.mp hy).lt_or_eq with hlt | rfl
    · exact if_neg (not_le.mpr hlt)
    · exact (if_pos le_rfl).trans hvalue
  rcases lt_trichotomy x a with hlt | rfl | hgt
  · rw [glue, if_pos hlt.le]
    apply (p.hasDerivAt x).congr_of_eventuallyEq
    exact hleft.eventuallyEq_of_mem (Iic_mem_nhds hlt)
  · rw [glue, if_pos le_rfl, ← hasDerivWithinAt_univ, ← Set.Iic_union_Ici (a := x)]
    apply HasDerivWithinAt.union
    · exact (p.hasDerivAt x).hasDerivWithinAt.congr hleft (hleft Set.self_mem_Iic)
    · rw [hslope]
      exact (q.hasDerivAt x).hasDerivWithinAt.congr hright (hright Set.self_mem_Ici)
  · rw [glue, if_neg (not_le.mpr hgt)]
    apply (q.hasDerivAt x).congr_of_eventuallyEq
    exact hright.eventuallyEq_of_mem (Ici_mem_nhds hgt)

/-- The derivative of glued polynomials is glued from their derivatives, to an order less by one. -/
theorem contDiff_glue {n : Nat}
    (h : ∀ j ≤ n, (derivative^[j] p).eval a = (derivative^[j] q).eval a) :
    ContDiff ℝ n (glue p q a) := by
  induction n generalizing p q with
  | zero =>
    rw [Nat.cast_zero, contDiff_zero]
    apply Continuous.if_le p.continuous q.continuous continuous_id continuous_const
    intro x hx
    rw [show x = a from hx]
    exact h 0 le_rfl
  | succ n ih =>
    have hderiv := hasDerivAt_glue (h 0 (Nat.zero_le _)) (h 1 (Nat.succ_le_succ (Nat.zero_le _)))
    rw [Nat.cast_succ, contDiff_succ_iff_deriv]
    refine ⟨fun x => (hderiv x).differentiableAt, fun hn => absurd hn (by simp), ?_⟩
    rw [show deriv (glue p q a) = glue p.derivative q.derivative a from
      funext fun x => (hderiv x).deriv]
    apply ih
    intro j hj
    exact h (j + 1) (Nat.succ_le_succ hj)

end Glue

namespace Curve

/-! Near every number a curve is one polynomial, or two that are glued at a knot. -/

section Near

variable {c : Curve ℝ} (h : c.knots.Increasing)

include h

theorem eventuallyEq_inside {i : Nat} (hi : i < c.knots.intervals) {x : ℝ} (hlt : c.knots.u i < x)
    (hgt : x < c.knots.u (i + 1)) :
    c.value =ᶠ[nhds x] fun y => (c.intervalPolynomial i).toPolynomial.eval y := by
  filter_upwards [Ioo_mem_nhds hlt hgt] with y hy
  rw [Cubic.eval_toPolynomial]
  exact value_between h hi hy.1.le hy.2.le

theorem eventuallyEq_knot {i : Nat} (hi : i + 1 < c.knots.intervals) :
    c.value =ᶠ[nhds (c.knots.u (i + 1))] glue (c.intervalPolynomial i).toPolynomial
      (c.intervalPolynomial (i + 1)).toPolynomial (c.knots.u (i + 1)) := by
  have hleft := h.u_lt_succ (Nat.lt_of_succ_lt hi)
  have hright := h.u_lt_succ hi
  rw [Nat.cast_succ] at hright
  filter_upwards [Ioo_mem_nhds hleft hright] with y hy
  rw [glue, Cubic.eval_toPolynomial, Cubic.eval_toPolynomial]
  split
  · rename_i hle
    exact value_between h (Nat.lt_of_succ_lt hi) hy.1.le hle
  · rename_i hlt
    apply value_between h hi
    · rw [Nat.cast_succ]
      exact (not_le.mp hlt).le
    · rw [Nat.cast_succ]
      exact hy.2.le

theorem eventuallyEq_first :
    c.value =ᶠ[nhds c.knots.first] glue c.leftLine.toPolynomial
      (c.intervalPolynomial 0).toPolynomial c.knots.first := by
  have hlt := h.u_lt_succ h.intervals_pos
  filter_upwards [Iio_mem_nhds hlt] with y hy
  rw [glue, Cubic.eval_toPolynomial, Cubic.eval_toPolynomial]
  split
  · rename_i hle
    rcases hle.lt_or_eq with hlt | rfl
    · exact value_left h hlt
    · rw [leftLine, line, Cubic.value_linear, sub_add_cancel]
  · rename_i hgt
    exact value_between h h.intervals_pos (not_le.mp hgt).le (le_of_lt hy)

theorem eventuallyEq_last {n : Nat} (hn : c.knots.size = n + 2) :
    c.value =ᶠ[nhds c.knots.last] glue (c.intervalPolynomial n).toPolynomial
      c.rightLine.toPolynomial c.knots.last := by
  obtain ⟨hi, hlast, hlt⟩ := h.last_interval hn
  filter_upwards [Ioi_mem_nhds hlt] with y hy
  rw [glue, Cubic.eval_toPolynomial, Cubic.eval_toPolynomial]
  split
  · rename_i hle
    exact value_between h hi (le_of_lt hy) (hle.trans_eq hlast.symm)
  · rename_i hgt
    exact value_right h (not_le.mp hgt)

theorem eventuallyEq_first_within :
    c.value =ᶠ[nhdsWithin c.knots.first (Set.Icc c.knots.first c.knots.last)] fun y =>
      (c.intervalPolynomial 0).toPolynomial.eval y := by
  have hlt := h.u_lt_succ h.intervals_pos
  filter_upwards [mem_nhdsWithin_of_mem_nhds (Iio_mem_nhds hlt), self_mem_nhdsWithin] with y hy hin
  rw [Cubic.eval_toPolynomial]
  exact value_between h h.intervals_pos hin.1 (le_of_lt hy)

theorem eventuallyEq_last_within {n : Nat} (hn : c.knots.size = n + 2) :
    c.value =ᶠ[nhdsWithin c.knots.last (Set.Icc c.knots.first c.knots.last)] fun y =>
      (c.intervalPolynomial n).toPolynomial.eval y := by
  obtain ⟨hi, hlast, hlt⟩ := h.last_interval hn
  filter_upwards [mem_nhdsWithin_of_mem_nhds (Ioi_mem_nhds hlt), self_mem_nhdsWithin] with y hy hin
  rw [Cubic.eval_toPolynomial]
  exact value_between h hi (le_of_lt hy) (hin.2.trans_eq hlast.symm)

theorem eventuallyEq_left {x : ℝ} (hx : x < c.knots.first) :
    c.value =ᶠ[nhds x] fun y => c.leftLine.toPolynomial.eval y := by
  filter_upwards [Iio_mem_nhds hx] with y hy
  rw [Cubic.eval_toPolynomial]
  exact value_left h hy

theorem eventuallyEq_right {x : ℝ} (hx : c.knots.last < x) :
    c.value =ᶠ[nhds x] fun y => c.rightLine.toPolynomial.eval y := by
  filter_upwards [Ioi_mem_nhds hx] with y hy
  rw [Cubic.eval_toPolynomial]
  exact value_right h hy

theorem contDiffAt_two {x : ℝ} (hfirst : c.knots.first < x) (hlast : x < c.knots.last) :
    ContDiffAt ℝ 2 c.value x := by
  obtain ⟨i, hi, hle, hlt⟩ := h.exists_interval_lt hfirst.le hlast
  rcases hle.lt_or_eq with hin | rfl
  · exact (contDiff_eval _ _).contDiffAt.congr_of_eventuallyEq (eventuallyEq_inside h hi hin hlt)
  · cases i with
    | zero => exact absurd hfirst (lt_irrefl _)
    | succ i =>
      rw [Nat.cast_succ]
      apply (contDiff_glue _).contDiffAt.congr_of_eventuallyEq (eventuallyEq_knot h hi)
      exact (c.intervalPolynomial_joins h hi).agreesTo_two

theorem contDiffOn_two : ContDiffOn ℝ 2 c.value (Set.Icc c.knots.first c.knots.last) := by
  obtain ⟨n, hn⟩ := Nat.exists_eq_add_of_le' h.two_le
  intro x hx
  rcases hx.1.eq_or_lt with rfl | hfirst
  · have hpoly := contDiff_eval (c.intervalPolynomial 0).toPolynomial 2
    exact hpoly.contDiffWithinAt.congr_of_eventuallyEq_of_mem (eventuallyEq_first_within h) hx
  rcases hx.2.eq_or_lt with rfl | hlast
  · have hpoly := contDiff_eval (c.intervalPolynomial n).toPolynomial 2
    exact hpoly.contDiffWithinAt.congr_of_eventuallyEq_of_mem (eventuallyEq_last_within h hn) hx
  · exact (contDiffAt_two h hfirst hlast).contDiffWithinAt

theorem contDiff_one : ContDiff ℝ 1 c.value := by
  obtain ⟨n, hn⟩ := Nat.exists_eq_add_of_le' h.two_le
  rw [contDiff_iff_contDiffAt]
  intro x
  rcases lt_trichotomy x c.knots.first with hlt | rfl | hfirst
  · exact (contDiff_eval _ _).contDiffAt.congr_of_eventuallyEq (eventuallyEq_left h hlt)
  · apply (contDiff_glue _).contDiffAt.congr_of_eventuallyEq (eventuallyEq_first h)
    exact leftLine_agreesTo h
  rcases lt_trichotomy x c.knots.last with hlast | rfl | hgt
  · exact (contDiffAt_two h hfirst hlast).of_le one_le_two
  · apply (contDiff_glue _).contDiffAt.congr_of_eventuallyEq (eventuallyEq_last h hn)
    exact rightLine_agreesTo h hn
  · exact (contDiff_eval _ _).contDiffAt.congr_of_eventuallyEq (eventuallyEq_right h hgt)

end Near

/-- Whatever the coefficients, a curve is twice continuously differentiable between its outer knots, since its polynomials agree there up to
the curvature, and once everywhere, since its lines agree with the outer polynomials up to the slope. -/
theorem twice_differentiable {points coefs : List ℝ} {k : Knots ℝ} {c : Curve ℝ}
    (hk : Knots.ofList points = .ok k) (hc : Curve.ofCoefs k coefs = .ok c) :
    (∀ i, i + 2 < points.length →
      (c.intervalPolynomial i).AgreesTo 2 (k.u (i + 1)) (c.intervalPolynomial (i + 1))) ∧
    c.leftLine.AgreesTo 1 k.first (c.intervalPolynomial 0) ∧
    (c.intervalPolynomial (points.length - 2)).AgreesTo 1 k.last c.rightLine ∧
    ContDiffOn ℝ 2 c.value (Set.Icc k.first k.last) ∧ ContDiff ℝ 1 c.value := by
  obtain ⟨rfl, hinc⟩ := Knots.ofList_eq_ok_iff.mp hk
  obtain ⟨rfl, -⟩ := Curve.ofCoefs_eq_ok_iff.mp hc
  obtain ⟨n, hn⟩ := Nat.exists_eq_add_of_le' hinc.two_le
  have hpoints : k.points.length = n + 2 := hn
  have hintervals := Knots.intervals_eq hn
  have hcurve : (⟨k, coefs⟩ : Curve ℝ).knots.Increasing := hinc
  refine ⟨?_, leftLine_agreesTo hcurve, ?_, contDiffOn_two hcurve, contDiff_one hcurve⟩
  · intro i hi
    have hinner : i + 1 < k.intervals := by omega
    exact (intervalPolynomial_joins _ hcurve hinner).agreesTo_two
  · rw [hpoints, Nat.add_sub_cancel]
    exact rightLine_agreesTo hcurve hn

theorem twice_differentiable_at_three_knots :
    let k : Knots ℝ := ⟨[0, 1, 3]⟩
    let c : Curve ℝ := ⟨k, [1, -2, 5, 0, 4]⟩
    Knots.ofList [0, 1, 3] = .ok k ∧ Curve.ofCoefs k [1, -2, 5, 0, 4] = .ok c ∧
      (c.intervalPolynomial 0).AgreesTo 2 1 (c.intervalPolynomial 1) ∧
      c.leftLine.AgreesTo 1 0 (c.intervalPolynomial 0) ∧
      (c.intervalPolynomial 1).AgreesTo 1 3 c.rightLine ∧
      ContDiffOn ℝ 2 c.value (Set.Icc 0 3) ∧ ContDiff ℝ 1 c.value := by
  intro k c
  have hk : Knots.ofList (K := ℝ) [0, 1, 3] = .ok k :=
    Knots.ofList_eq_ok_iff.mpr ⟨rfl, by decide, by norm_num [k]⟩
  have hc : Curve.ofCoefs k [1, -2, 5, 0, 4] = .ok c := rfl
  obtain ⟨hinner, houter⟩ := twice_differentiable hk hc
  exact ⟨hk, hc, hinner 0 (by decide), houter⟩

end Curve

end LifetimeEfficiency
