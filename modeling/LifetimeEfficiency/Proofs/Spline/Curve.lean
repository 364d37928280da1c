import LifetimeEfficiency.Proofs.Spline.Basis
import LifetimeEfficiency.Spline.Curve
/-!
# Curves as joined polynomials

Inside an interval the value of a curve is that of the interval's polynomial. Neighbouring polynomials join smoothly at their knot, and
at the outer knots the derivatives read off the three outermost coefficients.
-/
namespace LifetimeEfficiency

variable {K : Type} [Field K] [LinearOrder K]

namespace Knots

theorem window_succ (k : Knots K) (i : Nat) : k.window (i + 1 : Nat) = (k.window i).next (k.u (i + 4)) := by
  simp only [window, Window.next, Nat.cast_add, Nat.cast_one]
  congr 2 <;> ring

theorem window_first (k : Knots K) :
    (k.window (0 : Nat)).a = (k.window (0 : Nat)).c ∧ (k.window (0 : Nat)).b = (k.window (0 : Nat)).c := by
  simp [window, u]

theorem window_last {k : Knots K} {n : Nat} (hn : k.size = n + 2) :
    (k.window n).e = (k.window n).d ∧ (k.window n).f = (k.window n).d ∧ (k.window n).d = k.last := by
  have hpos {i j : Int} (hi : (n : Int) + 1 ≤ i) (hj : (n : Int) + 1 ≤ j) :
      k.position i = k.position j := by
    unfold Knots.position
    omega
  refine ⟨u_congr (hpos ?_ ?_), u_congr (hpos ?_ ?_), (last_eq hn).symm⟩ <;> omega

end Knots

theorem Knots.basisPolynomials_eq (k : Knots K) (i : Int) :
    k.basisPolynomials i = (List.range 4).map (k.window i).basis := rfl

theorem Knots.basisValues_eq (k : Knots K) (i : Int) (x : K) :
    k.basisValues i x = (List.range 4).map fun slot => ((k.window i).basis slot).value x := by
  simp [basisValues, slots, Window.slots, List.range_succ, Scalar.sum_eq,
    Window.linear_basis (Cubic.isLinear_value x), BasisTerm.value, BasisTerm.polynomial,
    Cubic.value_ofRoots]

namespace Curve

omit [Field K] [LinearOrder K] in
theorem ofCoefs_eq_ok_iff {k : Knots K} {coefs : List K} {c : Curve K} :
    ofCoefs k coefs = .ok c ↔ c = ⟨k, coefs⟩ ∧ coefs.length = k.size + 2 := by
  unfold ofCoefs
  split
  · rename_i hlen
    simp [hlen, eq_comm]
  · rename_i hlen
    simp [hlen]

theorem linear_intervalPolynomial {φ : Cubic K → K} (h : Cubic.IsLinear φ) (c : Curve K) (i : Nat) :
    φ (c.intervalPolynomial i) =
      φ ((c.knots.window i).basis 0) * c.coef i + φ ((c.knots.window i).basis 1) * c.coef (i + 1) +
        φ ((c.knots.window i).basis 2) * c.coef (i + 2) +
        φ ((c.knots.window i).basis 3) * c.coef (i + 3) := by
  rw [intervalPolynomial, h.foldl_add, h.zero, zero_add, Knots.basisPolynomials_eq]
  simp [active, List.range_succ, h.scale, add_assoc]

theorem integral_eq [IsStrictOrderedRing K] (c : Curve K) :
    c.integral = ((List.range c.knots.intervals).map fun i : Nat =>
      (c.intervalPolynomial i).integral (c.knots.u i) (c.knots.u (i + 1))).sum := by
  rw [integral, Scalar.sum_eq]
  congr 1
  apply List.map_congr_left
  intro i _
  rw [linear_intervalPolynomial (Cubic.isLinear_integral _ _), basisIntegrals,
    Knots.basisPolynomials_eq]
  simp [active, List.range_succ, Scalar.dot, Scalar.sum_eq]
  ring

theorem valueInside_eq (c : Curve K) (i : Nat) (x : K) :
    c.valueInside i x = (c.intervalPolynomial i).value x := by
  rw [linear_intervalPolynomial (Cubic.isLinear_value x), valueInside, Knots.basisValues_eq]
  simp [active, List.range_succ, Scalar.dot, Scalar.sum_eq]
  ring

/-- Neighbouring polynomials agree up to the curvature, whatever the coefficients. -/
theorem intervalPolynomial_joins [IsStrictOrderedRing K] (c : Curve K) (h : c.knots.Increasing) {i : Nat}
    (hi : i + 1 < c.knots.intervals) :
    (c.intervalPolynomial i).JoinsAt (c.knots.u (i + 1)) (c.intervalPolynomial (i + 1)) := by
  have hw := h.window_ordered (Nat.lt_of_succ_lt hi)
  have hw' := h.window_ordered hi
  rw [Knots.window_succ] at hw'
  have h0 := (c.knots.window i).basis_zero_joins
  have h1 := Window.basis_succ_joins hw hw' (show 0 < 3 by decide)
  have h2 := Window.basis_succ_joins hw hw' (show 1 < 3 by decide)
  have h3 := Window.basis_succ_joins hw hw' (show 2 < 3 by decide)
  have h4 := ((c.knots.window i).next (c.knots.u (i + 4))).basis_three_joins
  have hjoin {φ : Cubic K → K} (hφ : Cubic.IsLinear φ)
      (e0 : φ ((c.knots.window i).basis 0) = φ Cubic.zero)
      (e1 : φ ((c.knots.window i).basis 1) = φ (((c.knots.window i).next (c.knots.u (i + 4))).basis 0))
      (e2 : φ ((c.knots.window i).basis 2) = φ (((c.knots.window i).next (c.knots.u (i + 4))).basis 1))
      (e3 : φ ((c.knots.window i).basis 3) = φ (((c.knots.window i).next (c.knots.u (i + 4))).basis 2))
      (e4 : φ (((c.knots.window i).next (c.knots.u (i + 4))).basis 3) = φ Cubic.zero) :
      φ (c.intervalPolynomial i) = φ (c.intervalPolynomial (i + 1)) := by
    rw [linear_intervalPolynomial hφ, linear_intervalPolynomial hφ, Knots.window_succ, e0, e1, e2,
      e3, e4, hφ.zero]
    ring_nf
  constructor
  · exact hjoin (Cubic.isLinear_value _) h0.value h1.value h2.value h3.value h4.value
  · exact hjoin (Cubic.isLinear_slope _) h0.slope h1.slope h2.slope h3.slope h4.slope
  · exact hjoin (Cubic.isLinear_curvature _) h0.curvature h1.curvature h2.curvature h3.curvature
      h4.curvature

theorem coef_eq (c : Curve K) (i : Nat) : c.coef i = c.coefs.getD i 0 := by
  rw [coef, Scalar.exact_zero]

section Ends

variable {c : Curve K} (h : c.knots.Increasing)

include h

theorem value_inside {i : Nat} (hi : i < c.knots.intervals) {x : K} (hle : c.knots.u i ≤ x)
    (hge : x ≤ c.knots.u (i + 1)) (hlt : i + 1 < c.knots.intervals → x < c.knots.u (i + 1)) :
    c.value x = (c.intervalPolynomial i).value x := by
  rw [value, h.locate_eq hi hle hge hlt]
  exact c.valueInside_eq i x

theorem value_u {i : Nat} (hi : i < c.knots.intervals) :
    c.value (c.knots.u i) = (c.intervalPolynomial i).value (c.knots.u i) := by
  have hlt := h.u_lt_succ hi
  exact value_inside h hi le_rfl hlt.le fun _ => hlt

variable [IsStrictOrderedRing K]

theorem value_between {i : Nat} (hi : i < c.knots.intervals) {x : K} (hle : c.knots.u i ≤ x)
    (hge : x ≤ c.knots.u (i + 1)) : c.value x = (c.intervalPolynomial i).value x := by
  rcases hge.lt_or_eq with hlt | rfl
  · exact value_inside h hi hle hge fun _ => hlt
  rcases Nat.lt_or_ge (i + 1) c.knots.intervals with hi' | hi'
  · have hnext := value_u (c := c) h hi'
    rw [Nat.cast_succ] at hnext
    rw [hnext, (c.intervalPolynomial_joins h hi').value]
  · exact value_inside h hi hle hge fun hlt => absurd hlt (Nat.not_lt.mpr hi')

theorem value_last {n : Nat} (hn : c.knots.size = n + 2) :
    c.value c.knots.last = (c.intervalPolynomial n).value c.knots.last := by
  obtain ⟨hi, hlast, hlt⟩ := h.last_interval hn
  exact value_between h hi hlt.le hlast.ge

theorem intervalPolynomial_first :
    (c.intervalPolynomial 0).value c.knots.first = c.coef 0 ∧
    (c.intervalPolynomial 0).slope c.knots.first = c.knots.r 0 * (c.coef 1 - c.coef 0) ∧
    (c.intervalPolynomial 0).curvature c.knots.first =
      6 / (c.knots.width 0 * c.knots.width 0) * c.coef 0 +
        -(6 / c.knots.width 0 + 6 / c.knots.h 2 0) / c.knots.width 0 * c.coef 1 +
        6 / (c.knots.h 2 0 * c.knots.width 0) * c.coef 2 := by
  have hw : (c.knots.window (0 : Nat)).Ordered := h.window_ordered h.intervals_pos
  obtain ⟨ha, hb⟩ := c.knots.window_first
  obtain ⟨hv0, hv1, hv2⟩ := Window.value_basis_first hw ha hb
  obtain ⟨hs0, hs1, hs2⟩ := Window.slope_basis_first hw ha hb
  obtain ⟨hc0, hc1, hc2⟩ := Window.curvature_basis_first hw ha hb
  have h3 := (c.knots.window (0 : Nat)).basis_three_joins
  have hfirst : c.knots.first = (c.knots.window (0 : Nat)).c := rfl
  have hwidth : c.knots.width 0 = (c.knots.window (0 : Nat)).d - (c.knots.window (0 : Nat)).c := rfl
  have hwide : c.knots.h 2 0 = (c.knots.window (0 : Nat)).e - (c.knots.window (0 : Nat)).c := rfl
  refine ⟨?_, ?_, ?_⟩
  · rw [linear_intervalPolynomial (Cubic.isLinear_value _), hfirst, hv0, hv1, hv2, h3.value,
      (Cubic.isLinear_value _).zero]
    ring
  · rw [linear_intervalPolynomial (Cubic.isLinear_slope _), Knots.r, hwidth, hfirst, hs0, hs1, hs2,
      h3.slope, (Cubic.isLinear_slope _).zero]
    simp only [Nat.zero_add]
    ring
  · rw [linear_intervalPolynomial (Cubic.isLinear_curvature _), hwidth, hwide, hfirst, hc0, hc1, hc2,
      h3.curvature, (Cubic.isLinear_curvature _).zero]
    simp only [Nat.zero_add]
    ring

theorem intervalPolynomial_last {n : Nat} (hn : c.knots.size = n + 2) :
    (c.intervalPolynomial n).value c.knots.last = c.coef (n + 3) ∧
    (c.intervalPolynomial n).slope c.knots.last = c.knots.r n * (c.coef (n + 3) - c.coef (n + 2)) ∧
    (c.intervalPolynomial n).curvature c.knots.last =
      6 / (c.knots.h (n + 1) (n - 1) * c.knots.width n) * c.coef (n + 1) +
        -(6 / c.knots.width n + 6 / c.knots.h (n + 1) (n - 1)) / c.knots.width n * c.coef (n + 2) +
        6 / (c.knots.width n * c.knots.width n) * c.coef (n + 3) := by
  have hw : (c.knots.window n).Ordered :=
    h.window_ordered (Knots.intervals_eq hn ▸ Nat.lt_succ_self n)
  obtain ⟨he, hf, hlast⟩ := Knots.window_last hn
  obtain ⟨hv1, hv2, hv3⟩ := Window.value_basis_last hw he hf
  obtain ⟨hs1, hs2, hs3⟩ := Window.slope_basis_last hw he hf
  obtain ⟨hc1, hc2, hc3⟩ := Window.curvature_basis_last hw he hf
  have h0 := (c.knots.window n).basis_zero_joins
  have hwidth : c.knots.width n = (c.knots.window n).d - (c.knots.window n).c := rfl
  have hwide : c.knots.h (n + 1) (n - 1) = (c.knots.window n).d - (c.knots.window n).b := rfl
  refine ⟨?_, ?_, ?_⟩
  · rw [linear_intervalPolynomial (Cubic.isLinear_value _), ← hlast, hv1, hv2, hv3, h0.value,
      (Cubic.isLinear_value _).zero]
    ring
  · rw [linear_intervalPolynomial (Cubic.isLinear_slope _), Knots.r, hwidth, ← hlast, hs1, hs2, hs3,
      h0.slope, (Cubic.isLinear_slope _).zero]
    simp only [Scalar.exact_ofNat]
    ring
  · rw [linear_intervalPolynomial (Cubic.isLinear_curvature _), hwidth, hwide, ← hlast, hc1, hc2, hc3,
      h0.curvature, (Cubic.isLinear_curvature _).zero]
    ring

theorem value_first_eq_coef : c.value c.knots.first = c.coef 0 :=
  (value_u h h.intervals_pos).trans (intervalPolynomial_first h).1

theorem value_last_eq_coef {n : Nat} (hn : c.knots.size = n + 2) :
    c.value c.knots.last = c.coef (n + 3) :=
  (value_last h hn).trans (intervalPolynomial_last h hn).1

theorem value_left {x : K} (hx : x < c.knots.first) : c.value x = c.leftLine.value x := by
  rw [leftLine, line, Cubic.value_linear, value_first_eq_coef h, leftSlope, value, Knots.locate,
    if_pos hx]
  ring

theorem value_right {x : K} (hx : c.knots.last < x) : c.value x = c.rightLine.value x := by
  obtain ⟨n, hn⟩ := Nat.exists_eq_add_of_le' h.two_le
  have hlast : c.value c.knots.last = c.coef (c.knots.size + 1) := by
    rw [value_last_eq_coef h hn, hn]
  have hfirst : ¬ x < c.knots.first := by
    have hle : c.knots.first ≤ c.knots.last := h.le_last 0
    exact not_lt.mpr (hle.trans hx.le)
  rw [rightLine, line, Cubic.value_linear, hlast, rightSlope, value, Knots.locate, if_neg hfirst,
    if_pos hx]
  ring

end Ends

end Curve
end LifetimeEfficiency
