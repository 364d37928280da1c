import LifetimeEfficiency.Proofs.Spline.Curve
import Mathlib.Algebra.BigOperators.Field
import Mathlib.Algebra.Order.Ring.Rat
/-!
# Areas

The area under a basis function is a quarter of the width of its support, which spreads over four intervals at most. An interval adds
to the areas that lie left of it, and completes one of them.
-/
namespace LifetimeEfficiency

open Finset Polynomial

variable {K : Type} [Field K] [LinearOrder K] [IsStrictOrderedRing K]

namespace Window

/-- Four times the area left of the interval under a function of it, the first of which begins one knot before the window. -/
def widthBefore (w : Window K) (start : K) : Nat → K
  | 0 => w.d - start - (w.d - w.c) ^ 3 / ((w.d - w.a) * (w.d - w.b))
  | 1 =>
    (w.d - w.c) * (w.c - w.a) ^ 2 / ((w.d - w.a) * (w.d - w.b)) +
      (w.c - w.b) * ((w.e - w.c) * (w.c - w.a) + (w.c - w.b) * (w.e - w.a)) /
        ((w.d - w.b) * (w.e - w.b))
  | 2 => (w.c - w.b) ^ 3 / ((w.d - w.b) * (w.e - w.b))
  | _ => 0

section Ordered

variable {w : Window K} (h : w.Ordered)

include h

theorem widthBefore_zero_add (start : K) :
    w.widthBefore start 0 + 4 * (w.basis 0).integral w.c w.d = w.d - start := by
  obtain ⟨hda, hdb, hdc, -, -, -⟩ := h.ne
  obtain ⟨h0, -, -, -⟩ := linear_slots (Cubic.isLinear_integral w.c w.d) w
  rw [h0]
  simp only [widthBefore, Cubic.integral_eq_simpson, Cubic.value_ofRoots, Spacing.ofWindow]
  field_simp
  ring

theorem widthBefore_succ_add (start g : K) {slot : Nat} (hslot : slot < 3) :
    w.widthBefore start (slot + 1) + 4 * (w.basis (slot + 1)).integral w.c w.d =
      (w.next g).widthBefore w.a slot := by
  obtain ⟨hda, hdb, hdc, heb, hec, hfc⟩ := h.ne
  obtain ⟨-, h1, h2, h3⟩ := linear_slots (Cubic.isLinear_integral w.c w.d) w
  match slot, hslot with
  | 0, _ =>
    rw [h1]
    simp only [widthBefore, next, Cubic.integral_eq_simpson, Cubic.value_ofRoots, Spacing.ofWindow]
    field_simp
    ring
  | 1, _ =>
    rw [h2]
    simp only [widthBefore, next, Cubic.integral_eq_simpson, Cubic.value_ofRoots, Spacing.ofWindow]
    field_simp
    ring
  | 2, _ =>
    rw [h3]
    simp only [widthBefore, next, Cubic.integral_eq_simpson, Cubic.value_ofRoots, Spacing.ofWindow]
    field_simp
    ring

end Ordered

theorem widthBefore_first {w : Window K} (h : w.Ordered) (ha : w.a = w.c) (hb : w.b = w.c) {slot : Nat}
    (hslot : slot < 3) : w.widthBefore w.c slot = 0 := by
  obtain ⟨-, -, hdc, -, -, -⟩ := h.ne
  match slot, hslot with
  | 0, _ =>
    simp only [widthBefore, ha, hb]
    field_simp
    ring
  | 1, _ => simp [widthBefore, ha, hb]
  | 2, _ => simp [widthBefore, hb]

omit [IsStrictOrderedRing K] in
theorem widthBefore_last {w : Window K} (hbc : w.b < w.c) (hd : w.d = w.c) (he : w.e = w.c)
    (hf : w.f = w.c) (start : K) :
    w.widthBefore start 0 = w.d - start ∧ w.widthBefore start 1 = w.e - w.a ∧
      w.widthBefore start 2 = w.f - w.b := by
  have hcb : w.c - w.b ≠ 0 := sub_ne_zero.mpr hbc.ne'
  refine ⟨?_, ?_, ?_⟩ <;> simp only [widthBefore, hd, he, hf, sub_self] <;> field_simp <;> ring

end Window

namespace Knots

def support (k : Knots K) (j : Nat) : K := k.u (j + 1) - k.u (j - 3)

omit [IsStrictOrderedRing K] in
theorem widthBefore_end {k : Knots K} (hk : k.Increasing) {slot : Nat} (hslot : slot < 3) :
    (k.window k.intervals).widthBefore (k.u (k.intervals - 3)) slot =
      k.support (k.intervals + slot) := by
  obtain ⟨n, hn⟩ := Nat.exists_eq_add_of_le' hk.two_le
  have hend {i : Int} (hi : (n : Int) + 1 ≤ i) : k.u i = k.u (n + 1 : Nat) := by
    apply u_congr
    unfold position
    omega
  have hlt : (k.window (n + 1 : Nat)).b < (k.window (n + 1 : Nat)).c := by
    apply hk.u_lt
    unfold position
    omega
  obtain ⟨h0, h1, h2⟩ := Window.widthBefore_last hlt (hend (by omega)) (hend (by omega))
    (hend (by omega)) (k.u ((n + 1 : Nat) - 3))
  rw [intervals_eq hn]
  match slot, hslot with
  | 0, _ =>
    rw [h0]
    rfl
  | 1, _ =>
    rw [h1, support]
    simp only [window]
    congr 2
    omega
  | 2, _ =>
    rw [h2, support]
    simp only [window]
    congr 2
    omega

end Knots

namespace Curve

theorem integral_eq_sum_intervals (c : Curve K) :
    c.integral = ∑ i ∈ range c.knots.intervals,
      (c.intervalPolynomial i).integral (c.knots.u i) (c.knots.u (i + 1)) := by
  rw [integral_eq]
  rfl

/-- Four times the area left of knot `m` under the functions that go on beyond it. -/
def widthBegun (c : Curve K) (m : Nat) : K :=
  ∑ slot ∈ range 3, c.coef (m + slot) * (c.knots.window m).widthBefore (c.knots.u (m - 3)) slot

section Increasing

variable {c : Curve K} (h : c.knots.Increasing)

include h

theorem widthBegun_zero : c.widthBegun 0 = 0 := by
  obtain ⟨ha, hb⟩ := c.knots.window_first
  have hw : (c.knots.window (0 : Nat)).Ordered := h.window_ordered h.intervals_pos
  apply sum_eq_zero
  intro slot hslot
  have hzero := Window.widthBefore_first hw ha hb (mem_range.mp hslot)
  exact mul_eq_zero_of_right _ hzero

theorem widthBegun_add_integral {m : Nat} (hm : m < c.knots.intervals) :
    c.widthBegun m + 4 * (c.intervalPolynomial m).integral (c.knots.u m) (c.knots.u (m + 1)) =
      c.coef m * c.knots.support m + c.widthBegun (m + 1) := by
  -- An interval completes the support of its first coefficient.
  have hw := h.window_ordered hm
  have hstart : c.knots.u ((m + 1 : Nat) - 3) = (c.knots.window m).a := by
    simp only [Knots.window]
    congr 1
    omega
  have hsupport : c.knots.support m = (c.knots.window m).d - c.knots.u (m - 3) := rfl
  have hthree : (c.knots.window m).widthBefore (c.knots.u (m - 3)) 3 = 0 := rfl
  have h0 := Window.widthBefore_zero_add hw (c.knots.u (m - 3))
  have hsucc (slot : Nat) (hslot : slot < 3) :=
    Window.widthBefore_succ_add hw (c.knots.u (m - 3)) (c.knots.u (m + 4)) hslot
  have h1 := hsucc 0 (by decide)
  have h2 := hsucc 1 (by decide)
  have h3 := hsucc 2 (by decide)
  -- The interval lies between the two middle knots of its window.
  change c.widthBegun m + 4 * (c.intervalPolynomial m).integral (c.knots.window m).c (c.knots.window m).d = _
  rw [linear_intervalPolynomial (Cubic.isLinear_integral _ _), widthBegun, widthBegun,
    Knots.window_succ, hstart, hsupport, ← h0]
  rw [hthree, zero_add] at h3
  simp only [sum_range_succ, range_zero, sum_empty, add_zero, ← h1, ← h2, ← h3]
  ring

/-- Up to a knot the functions that end there or before it have their whole areas, and three more have a part. -/
theorem sum_integral_intervals {m : Nat} (hm : m ≤ c.knots.intervals) :
    4 * ∑ i ∈ range m, (c.intervalPolynomial i).integral (c.knots.u i) (c.knots.u (i + 1)) =
      ∑ j ∈ range m, c.coef j * c.knots.support j + c.widthBegun m := by
  induction m with
  | zero => rw [widthBegun_zero h, range_zero, sum_empty, sum_empty, mul_zero, add_zero]
  | succ m ih =>
    rw [sum_range_succ, mul_add, ih (Nat.le_of_succ_le hm), add_assoc, widthBegun_add_integral h hm,
      sum_range_succ, add_assoc]

theorem integral_eq_sum_supports :
    4 * c.integral = ∑ j ∈ range (c.knots.size + 2), c.coef j * c.knots.support j := by
  obtain ⟨n, hn⟩ := Nat.exists_eq_add_of_le' h.two_le
  have hcount : c.knots.size + 2 = c.knots.intervals + 3 := by
    rw [Knots.intervals_eq hn, hn]
  have hend : c.widthBegun c.knots.intervals = ∑ slot ∈ range 3,
      c.coef (c.knots.intervals + slot) * c.knots.support (c.knots.intervals + slot) := by
    apply sum_congr rfl
    intro slot hslot
    rw [Knots.widthBefore_end h (mem_range.mp hslot)]
  rw [integral_eq_sum_intervals, sum_integral_intervals h le_rfl, hend, hcount, sum_range_add]

end Increasing

/-- The integral over all knots is what any antiderivatives of the intervals' polynomials gain there, and weighs each coefficient with
the area under its function. -/
theorem integral_closed_form {points coefs : List K} {k : Knots K} (hk : Knots.ofList points = .ok k)
    (hcoefs : coefs.length = points.length + 2) :
    ∃ c, ofCoefs k coefs = .ok c ∧
      (∀ i, ∃ q : K[X], q.derivative = (c.intervalPolynomial i).toPolynomial) ∧
      (∀ q : Nat → K[X],
        (∀ i, i + 1 < points.length → (q i).derivative = (c.intervalPolynomial i).toPolynomial) →
        c.integral =
          ∑ i ∈ range (points.length - 1), ((q i).eval (k.u (i + 1)) - (q i).eval (k.u i))) ∧
      c.integral =
        ∑ j ∈ range (points.length + 2), coefs.getD j 0 * ((k.u (j + 1) - k.u (j - 3)) / 4) := by
  obtain ⟨rfl, hinc⟩ := Knots.ofList_eq_ok_iff.mp hk
  refine ⟨⟨k, coefs⟩, ofCoefs_eq_ok_iff.mpr ⟨rfl, hcoefs⟩, fun i => ?_, fun q hq => ?_, ?_⟩
  · exact ⟨_, Cubic.derivative_antiderivative _⟩
  · rw [integral_eq_sum_intervals]
    apply sum_congr rfl
    intro i hi
    exact Cubic.integral_eq_eval_sub (hq i (Nat.add_lt_of_lt_sub (mem_range.mp hi))) _ _
  · have hfour : (4 : K) ≠ 0 := four_ne_zero
    rw [← mul_div_cancel_left₀ (integral _) hfour, integral_eq_sum_supports hinc, sum_div]
    apply sum_congr rfl
    intro j _
    rw [coef_eq, Knots.support, mul_div_assoc]

theorem integral_closed_form_at_three_knots :
    ∃ k : Knots ℚ, Knots.ofList [0, 1, 3] = .ok k ∧
      ∃ c, ofCoefs k [4, 1, 0, 2, 8] = .ok c ∧ c.integral = 29 / 4 := by
  have hk : Knots.ofList [0, 1, 3] = .ok (⟨[0, 1, 3]⟩ : Knots ℚ) :=
    Knots.ofList_eq_ok_iff.mpr ⟨rfl, ⟨by decide, by decide⟩⟩
  have hcoefs : ([4, 1, 0, 2, 8] : List ℚ).length = ([0, 1, 3] : List ℚ).length + 2 := rfl
  obtain ⟨c, hc, -, -, hsupports⟩ := integral_closed_form hk hcoefs
  refine ⟨_, hk, c, hc, hsupports.trans ?_⟩
  decide +kernel

end Curve

end LifetimeEfficiency
