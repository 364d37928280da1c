import LifetimeEfficiency.Proofs.Banded.Pivots
import LifetimeEfficiency.Proofs.Spline.Interpolation
import LifetimeEfficiency.Proofs.Spline.Polar
/-!
# Pivots of interpolation

The inner rows do not dominate their diagonals. What carries elimination is a bound on the ratio that each row leaves to the next
one, by the widths of the intervals around it.
-/
namespace LifetimeEfficiency

variable {K : Type} [Field K] [LinearOrder K]

namespace Window

variable [IsStrictOrderedRing K]

/-! The three basis functions at an inner knot are weights: none is negative, and they sum to one. -/

section Weights

variable {w : Window K} (h : w.Ordered)

include h

theorem value_basis_zero : (w.basis 0).value w.c =
    (w.d - w.c) ^ 2 / ((w.d - w.a) * (w.d - w.b)) := by
  obtain ⟨hda, hdb, hdc, -, -, -⟩ := h.ne
  rw [(linear_slots (Cubic.isLinear_value w.c) w).1]
  simp only [Cubic.value_ofRoots, Spacing.ofWindow]
  field_simp
  ring

theorem value_basis_two : (w.basis 2).value w.c =
    (w.c - w.b) ^ 2 / ((w.d - w.b) * (w.e - w.b)) := by
  obtain ⟨-, hdb, hdc, heb, hec, hfc⟩ := h.ne
  rw [(linear_slots (Cubic.isLinear_value w.c) w).2.2.1]
  simp only [Cubic.value_ofRoots, Spacing.ofWindow]
  field_simp
  ring

theorem value_basis_one : (w.basis 1).value w.c =
    1 - (w.basis 0).value w.c - (w.basis 2).value w.c := by
  have hsum := sum_basis h w.c
  rw [w.basis_three_joins.value, (Cubic.isLinear_value _).zero] at hsum
  linear_combination hsum

end Weights

/-- The least pivot at the knot that begins the interval, from the widths of this interval and its neighbours. -/
def pivotBound (w : Window K) : K := (w.c - w.b) * (w.e - w.c) / ((w.d - w.b) * (w.e - w.b))

/-- The largest ratio that the row before this one can leave. -/
def ratioBound (w : Window K) : K := (w.b - w.a) / (w.d - w.b)

section Elimination

variable {w : Window K} (h : w.Ordered) (hbc : w.b < w.c)

include h hbc

theorem pivotBound_pos : 0 < w.pivotBound := by
  obtain ⟨-, -, hcd, hde, -⟩ := h
  have hcb : 0 < w.c - w.b := by linarith
  have hec : 0 < w.e - w.c := by linarith
  have hdb : 0 < w.d - w.b := by linarith
  have heb : 0 < w.e - w.b := by linarith
  exact div_pos (mul_pos hcb hec) (mul_pos hdb heb)

/-- A ratio within its bound leaves at least the least pivot. -/
theorem pivotBound_le {ratio : K} (hratio : ratio ≤ w.ratioBound) :
    w.pivotBound ≤ (w.basis 1).value w.c - (w.basis 0).value w.c * ratio := by
  obtain ⟨hda', hdb', -, heb', -, -⟩ := h.ne
  have hdb : 0 < w.d - w.b := by linarith [h.cd]
  have hda : 0 < w.d - w.a := by linarith [h.ab]
  -- At its bound the ratio turns the weight below the diagonal into a square, whose root is at most one.
  have hbelow : (w.basis 0).value w.c * (1 + ratio) ≤ ((w.d - w.c) / (w.d - w.b)) ^ 2 := by
    calc
      (w.basis 0).value w.c * (1 + ratio) ≤ (w.basis 0).value w.c * (1 + w.ratioBound) := by
        have hnonneg : 0 ≤ (w.basis 0).value w.c := by
          rw [value_basis_zero h]
          positivity
        exact mul_le_mul_of_nonneg_left (by linarith) hnonneg
      _ = ((w.d - w.c) / (w.d - w.b)) ^ 2 := by
        rw [value_basis_zero h, ratioBound]
        field_simp
        ring
  have hsquare : ((w.d - w.c) / (w.d - w.b)) ^ 2 ≤ (w.d - w.c) / (w.d - w.b) := by
    apply pow_le_of_le_one
    · exact div_nonneg (by linarith [h.cd]) hdb.le
    · exact (div_le_one hdb).mpr (by linarith)
    · decide
  have hbound : w.pivotBound =
      1 - (w.d - w.c) / (w.d - w.b) - (w.basis 2).value w.c := by
    rw [value_basis_two h, pivotBound]
    field_simp
    ring
  rw [hbound, value_basis_one h]
  linarith

theorem ratio_le {pivot : K} (hpivot : w.pivotBound ≤ pivot) (g : K) :
    0 ≤ (w.basis 2).value w.c / pivot ∧ (w.basis 2).value w.c / pivot ≤ (w.next g).ratioBound := by
  have hpos := pivotBound_pos h hbc
  have hec : 0 < w.e - w.c := by linarith [h.cd, h.de]
  have hdb : 0 < w.d - w.b := by linarith [h.cd]
  have heb : 0 < w.e - w.b := by linarith
  have hnonneg : 0 ≤ (w.basis 2).value w.c := by
    rw [value_basis_two h]
    positivity
  constructor
  · exact div_nonneg hnonneg (hpos.trans_le hpivot).le
  · calc
      (w.basis 2).value w.c / pivot ≤ (w.basis 2).value w.c / w.pivotBound :=
        div_le_div_of_nonneg_left hnonneg hpos hpivot
      _ = (w.next g).ratioBound := by
        have hcb : w.c - w.b ≠ 0 := (sub_pos.mpr hbc).ne'
        rw [value_basis_two h, pivotBound, ratioBound, next]
        field_simp

theorem weights_le_one :
    |(w.basis 1).value w.c| ≤ 1 ∧ |(w.basis 0).value w.c| ≤ 1 ∧ |(w.basis 2).value w.c| ≤ 1 := by
  have hdb : 0 < w.d - w.b := by linarith [h.cd]
  have hda : 0 < w.d - w.a := by linarith [h.ab]
  have heb : 0 < w.e - w.b := by linarith [h.cd, h.de]
  have h0 : 0 ≤ (w.basis 0).value w.c := by
    rw [value_basis_zero h]
    positivity
  have h2 : 0 ≤ (w.basis 2).value w.c := by
    rw [value_basis_two h]
    positivity
  have h1 : 0 ≤ (w.basis 1).value w.c := by
    have hzero : 0 ≤ w.ratioBound := div_nonneg (by linarith [h.ab]) hdb.le
    have hpivot := pivotBound_le h hbc hzero
    rw [mul_zero, sub_zero] at hpivot
    exact (pivotBound_pos h hbc).le.trans hpivot
  have hsum := value_basis_one h
  rw [abs_of_nonneg h0, abs_of_nonneg h1, abs_of_nonneg h2]
  refine ⟨?_, ?_, ?_⟩ <;> linarith

theorem pivotTolerance_lt_pivotBound (hleft : w.d - w.c ≤ 10 ^ 6 * (w.c - w.b))
    (hright : w.c - w.b ≤ 10 ^ 6 * (w.d - w.c)) : Banded.pivotTolerance < w.pivotBound := by
  have hcb : 0 < w.c - w.b := sub_pos.mpr hbc
  have hec : 0 < w.e - w.c := by linarith [h.cd, h.de]
  have hdb : 0 < w.d - w.b := by linarith [h.cd]
  have heb : 0 < w.e - w.b := by linarith
  have hdb' : w.d - w.b ≤ (10 ^ 6 + 1) * (w.c - w.b) := by linarith
  have heb' : w.e - w.b ≤ (10 ^ 6 + 1) * (w.e - w.c) := by linarith [h.de]
  rw [pivotBound, lt_div_iff₀ (mul_pos hdb heb)]
  calc
    Banded.pivotTolerance * ((w.d - w.b) * (w.e - w.b)) ≤
        Banded.pivotTolerance * (((10 ^ 6 + 1) * (w.c - w.b)) * ((10 ^ 6 + 1) * (w.e - w.c))) := by
      apply mul_le_mul_of_nonneg_left _ Banded.pivotTolerance_pos.le
      apply mul_le_mul hdb' heb' heb.le
      positivity
    _ = Banded.pivotTolerance * (10 ^ 6 + 1) ^ 2 * ((w.c - w.b) * (w.e - w.c)) := by
      ring
    _ < 1 * ((w.c - w.b) * (w.e - w.c)) := by
      apply mul_lt_mul_of_pos_right _ (mul_pos hcb hec)
      simp only [Banded.pivotTolerance, Scalar.exact_one]
      norm_num
    _ = (w.c - w.b) * (w.e - w.c) := one_mul _

end Elimination

end Window

theorem Knots.window_b_succ (k : Knots K) (i : Nat) : (k.window (i + 1 : Nat)).b = k.u i :=
  congrArg k.u (by omega)

/-- No width is more than a million times another. -/
def Knots.Graded (k : Knots K) : Prop :=
  ∀ i < k.intervals, ∀ j < k.intervals, k.width (i : Nat) ≤ 10 ^ 6 * k.width (j : Nat)

theorem Knots.Graded.window {k : Knots K} {n i : Nat} (h : k.Graded) (hi : i < n)
    (hn : k.size = n + 2) :
    (k.window (i + 1 : Nat)).d - (k.window (i + 1 : Nat)).c ≤
        10 ^ 6 * ((k.window (i + 1 : Nat)).c - (k.window (i + 1 : Nat)).b) ∧
      (k.window (i + 1 : Nat)).c - (k.window (i + 1 : Nat)).b ≤
        10 ^ 6 * ((k.window (i + 1 : Nat)).d - (k.window (i + 1 : Nat)).c) := by
  have hintervals := Knots.intervals_eq hn
  have hwidth : (k.window (i + 1 : Nat)).c - (k.window (i + 1 : Nat)).b = k.width i := by
    rw [k.window_b_succ]
    rfl
  have hwidth' : (k.window (i + 1 : Nat)).d - (k.window (i + 1 : Nat)).c = k.width (i + 1 : Nat) := rfl
  rw [hwidth, hwidth']
  exact ⟨h (i + 1) (by omega) i (by omega), h i (by omega) (i + 1) (by omega)⟩

theorem Knots.pivotBound_window (k : Knots K) (i : Int) :
    (k.window i).pivotBound = k.width (i - 1) * (k.width i + k.width (i + 1)) /
      ((k.width (i - 1) + k.width i) * (k.width (i - 1) + k.width i + k.width (i + 1))) := by
  have hi : i + 1 + 1 = i + 2 := by ring
  simp only [Window.pivotBound, window, width, h, sub_add_cancel, hi]
  congr 1 <;> ring

namespace Spline

/-- What elimination needs of the first and of the last row: the entry beside the diagonal is small against it, and of the other
sign. -/
structure EndRow (diag beside : K) : Prop where
  ne_zero : diag ≠ 0
  nonneg : 0 ≤ beside
  small : 2 * beside ≤ |diag|
  opposite : beside = 0 ∨ diag < 0

variable [IsStrictOrderedRing K]

theorem endRow_secondDerivative {w h : K} (hw : 0 < w) (hh : w ≤ h) :
    EndRow (-(6 / w + 6 / h) / w) (6 / (h * w)) := by
  have hpos : 0 < h := hw.trans_le hh
  have hdiag : -(6 / w + 6 / h) / w < 0 := by
    rw [neg_div]
    exact neg_neg_of_pos (by positivity)
  refine ⟨hdiag.ne, by positivity, ?_, .inr hdiag⟩
  have hle : 6 / (h * w) ≤ 6 / (w * w) := by
    apply div_le_div_of_nonneg_left (by norm_num) (by positivity)
    exact mul_le_mul_of_nonneg_right hh hw.le
  rw [abs_of_neg hdiag]
  calc
    2 * (6 / (h * w)) ≤ 6 / (w * w) + 6 / (h * w) := by
      linarith
    _ = -(-(6 / w + 6 / h) / w) := by
      field_simp

theorem endRow_firstDerivative {diag : K} (hne : diag ≠ 0) : EndRow diag 0 :=
  ⟨hne, le_rfl, by rw [mul_zero]; exact abs_nonneg _, .inl rfl⟩

theorem EndRow.ratio_mem {diag beside : K} (h : EndRow diag beside) :
    -1 ≤ beside / diag ∧ beside / diag ≤ 0 := by
  obtain ⟨hne, hnonneg, hsmall, rfl | hneg⟩ := h
  · simp
  · rw [abs_of_neg hneg] at hsmall
    constructor
    · rw [le_div_iff_of_neg hneg]
      linarith
    · exact div_nonpos_of_nonneg_of_nonpos hnonneg hneg.le

theorem EndRow.pivot_large {diag beside ratio : K} (h : EndRow diag beside) (hratio : -1 ≤ ratio) :
    diag - beside * ratio ≠ 0 ∧ |diag| ≤ 2 * |diag - beside * ratio| := by
  obtain ⟨hne, hnonneg, hsmall, rfl | hneg⟩ := h
  · rw [zero_mul, sub_zero]
    exact ⟨hne, by linarith [abs_nonneg diag]⟩
  · rw [abs_of_neg hneg] at hsmall ⊢
    have htake : -beside ≤ beside * ratio := by
      have hmul := mul_le_mul_of_nonneg_left hratio hnonneg
      rwa [mul_neg_one] at hmul
    have hpivot : diag - beside * ratio < 0 := by linarith
    rw [abs_of_neg hpivot]
    exact ⟨hpivot.ne, by linarith⟩

theorem EndRow.beside_le {diag beside : K} (h : EndRow diag beside) : |beside| ≤ |diag| := by
  rw [abs_of_nonneg h.nonneg]
  linarith [h.small, h.nonneg]

section Ends

variable {k : Knots K} (hk : k.Increasing)

include hk

theorem endRow_left (first : K) (e : EndCondition K) :
    EndRow (leftEquation k first e).diag (leftEquation k first e).above := by
  have hw : 0 < k.width 0 := hk.width_pos hk.intervals_pos
  cases e with
  | secondDerivative v =>
    simp only [leftEquation, Scalar.exact_ofNat]
    exact endRow_secondDerivative hw (sub_le_sub_right (hk.u_le (by decide)) _)
  | firstDerivative v =>
    simp only [leftEquation, Scalar.exact_ofNat, Scalar.exact_zero]
    exact endRow_firstDerivative (div_pos three_pos hw).ne'

theorem endRow_right {n : Nat} (hn : k.size = n + 2) (last : K) (e : EndCondition K) :
    EndRow (rightEquation k last e).diag (rightEquation k last e).below := by
  have hlt := hk.u_lt_succ (i := n) (Knots.intervals_eq hn ▸ Nat.lt_succ_self n)
  have hw : 0 < k.width n := sub_pos.mpr hlt
  have h2 : ((k.size : Nat) - 2 : Int) = n := by omega
  have h1 : ((k.size : Nat) - 1 : Int) = n + 1 := by omega
  have h3 : ((k.size : Nat) - 3 : Int) = n - 1 := by omega
  cases e with
  | secondDerivative v =>
    simp only [rightEquation, Scalar.exact_ofNat, h1, h2, h3]
    exact endRow_secondDerivative hw (sub_le_sub_left (hk.u_le (by omega)) _)
  | firstDerivative v =>
    simp only [rightEquation, Scalar.exact_ofNat, Scalar.exact_zero, h2]
    exact endRow_firstDerivative (div_neg_of_neg_of_pos (by norm_num) hw).ne

end Ends

section System

variable {k : Knots K} {n : Nat} (values : List K) (ends : EndConditions K)

theorem row_eq {i : Nat} {e : Equation K} (he : (equations k values ends)[i]? = some e) :
    (bands (equations k values ends)).row i = e.row := by
  rw [Tridiagonal.row, rows_equations, List.getD_eq_getElem?_getD, List.getElem?_map, he]
  rfl

theorem length_rows (hn : k.size = n + 2) : (bands (equations k values ends)).rows.length = n + 2 := by
  rw [rows_equations, List.length_map, length_equations (by omega), hn]

theorem row_inner {i : Nat} (hi : i + 2 < k.size) :
    (bands (equations k values ends)).row (i + 1) =
      ⟨((k.window (i + 1 : Nat)).basis 0).value (k.window (i + 1 : Nat)).c,
        ((k.window (i + 1 : Nat)).basis 1).value (k.window (i + 1 : Nat)).c,
        ((k.window (i + 1 : Nat)).basis 2).value (k.window (i + 1 : Nat)).c⟩ := by
  rw [row_eq values ends (equations_inner values ends hi)]
  simp only [Equation.row, innerEquation, Knots.basisValues_eq]
  rfl

section Increasing

variable (hk : k.Increasing) (hn : k.size = n + 2)

include hk hn

omit [IsStrictOrderedRing K] in
theorem window_inner {i : Nat} (hi : i < n) :
    (k.window (i + 1 : Nat)).Ordered ∧ (k.window (i + 1 : Nat)).b < (k.window (i + 1 : Nat)).c := by
  have hintervals := Knots.intervals_eq hn
  refine ⟨hk.window_ordered (by omega), ?_⟩
  rw [k.window_b_succ]
  exact hk.u_lt_succ (by omega)

/-- The ratio that goes into a row is within the bound of the knots around it, which is zero for the first. -/
theorem ratio_mem {i : Nat} (hi : i ≤ n) :
    -1 ≤ (bands (equations k values ends)).ratio (i + 1) ∧
      (bands (equations k values ends)).ratio (i + 1) ≤ (k.window (i + 1 : Nat)).ratioBound := by
  induction i with
  | zero =>
    -- No interval lies before the first knot, and the first row leaves nothing positive.
    have hrow := row_eq values ends (equations_head k values ends)
    obtain ⟨hlower, hupper⟩ := (endRow_left hk (values.getD 0 0) ends.left).ratio_mem
    have hbound : (k.window (0 + 1 : Nat)).ratioBound = 0 := by
      simp [Window.ratioBound, Knots.window, Knots.u]
    have hratio : (bands (equations k values ends)).ratio 0 = 0 := rfl
    rw [Tridiagonal.ratio_succ, Tridiagonal.pivot, hrow, hratio, mul_zero, sub_zero, hbound]
    exact ⟨hlower, hupper⟩
  | succ i ih =>
    -- The bound on the ratio that comes in bounds the pivot, and this bounds the ratio that goes out.
    obtain ⟨hordered, hbc⟩ := window_inner hk hn (i := i) (by omega)
    have hrow := row_inner values ends (k := k) (i := i) (by omega)
    have hpivot := Window.pivotBound_le hordered hbc (ih (by omega)).2
    have hnext := Window.ratio_le hordered hbc hpivot (k.u ((i + 1 : Nat) + 4))
    rw [← k.window_succ] at hnext
    rw [Tridiagonal.ratio_succ, Tridiagonal.pivot, hrow]
    exact ⟨by linarith [hnext.1], hnext.2⟩

theorem pivotBound_le_pivot {i : Nat} (hi : i < n) :
    (k.window (i + 1 : Nat)).pivotBound ≤ (bands (equations k values ends)).pivot (i + 1) := by
  obtain ⟨hordered, hbc⟩ := window_inner hk hn hi
  rw [Tridiagonal.pivot, row_inner values ends (by omega)]
  exact Window.pivotBound_le hordered hbc (ratio_mem values ends hk hn hi.le).2

theorem scale_inner {i : Nat} (hi : i < n) : ((bands (equations k values ends)).row (i + 1)).scale ≤ 1 := by
  obtain ⟨hordered, hbc⟩ := window_inner hk hn hi
  obtain ⟨h1, h0, h2⟩ := Window.weights_le_one hordered hbc
  rw [row_inner values ends (by omega)]
  exact Tridiagonal.Row.scale_le h1 h0 h2

omit hn in
/-- The first and the last row are accepted whatever the knots. -/
theorem accepts_first : (bands (equations k values ends)).Accepts 0 := by
  have hrow := row_eq values ends (equations_head k values ends)
  have hend := endRow_left hk (values.getD 0 0) ends.left
  have hpivot : (bands (equations k values ends)).pivot 0 =
      (leftEquation k (values.getD 0 0) ends.left).diag := by
    have hratio : (bands (equations k values ends)).ratio 0 = 0 := rfl
    rw [Tridiagonal.pivot, hratio, hrow, mul_zero, sub_zero]
    rfl
  apply Tridiagonal.accepts_of_scale_le
  · rw [hpivot]
    exact hend.ne_zero
  · have hle : |(leftEquation k (values.getD 0 0) ends.left).diag| ≤
        2 * |(leftEquation k (values.getD 0 0) ends.left).diag| := by
      linarith [abs_nonneg (leftEquation k (values.getD 0 0) ends.left).diag]
    rw [hpivot, hrow]
    apply Tridiagonal.Row.scale_le
    · exact hle
    · rw [Equation.row, below_leftEquation, abs_zero]
      positivity
    · exact hend.beside_le.trans hle

theorem accepts_last : (bands (equations k values ends)).Accepts (n + 1) := by
  have hrow := row_eq values ends (equations_last values ends hn)
  have hend := endRow_right hk hn (values.getD (n + 1) 0) ends.right
  obtain ⟨hne, hlarge⟩ := hend.pivot_large (ratio_mem values ends hk hn le_rfl).1
  have hpivot : (bands (equations k values ends)).pivot (n + 1) =
      (rightEquation k (values.getD (n + 1) 0) ends.right).diag -
        (rightEquation k (values.getD (n + 1) 0) ends.right).below *
          (bands (equations k values ends)).ratio (n + 1) := by
    rw [Tridiagonal.pivot, hrow]
    rfl
  apply Tridiagonal.accepts_of_scale_le
  · rwa [hpivot]
  · rw [hpivot, hrow]
    apply Tridiagonal.Row.scale_le
    · exact hlarge
    · exact hend.beside_le.trans hlarge
    · rw [Equation.row, above_rightEquation, abs_zero]
      positivity

/-- Only an inner row can be refused. -/
theorem inner_of_not_accepts {i : Nat} (hi : i < n + 2)
    (h : ¬ (bands (equations k values ends)).Accepts i) : ∃ j < n, i = j + 1 := by
  have hfirst := accepts_first values ends hk
  have hlast := accepts_last values ends hk hn
  match i, hi with
  | 0, _ => exact absurd hfirst h
  | j + 1, hi =>
    refine ⟨j, ?_, rfl⟩
    by_contra hj
    obtain rfl : j = n := by omega
    exact h hlast

theorem accepts_inner {i : Nat} (hi : i < n)
    (hbound : Banded.pivotTolerance < (k.window (i + 1 : Nat)).pivotBound) :
    (bands (equations k values ends)).Accepts (i + 1) := by
  have hpivot := hbound.trans_le (pivotBound_le_pivot values ends hk hn hi)
  calc
    Banded.pivotTolerance * ((bands (equations k values ends)).row (i + 1)).scale ≤
        Banded.pivotTolerance * 1 :=
      mul_le_mul_of_nonneg_left (scale_inner values ends hk hn hi) Banded.pivotTolerance_pos.le
    _ = Banded.pivotTolerance := mul_one _
    _ < |(bands (equations k values ends)).pivot (i + 1)| := hpivot.trans_le (le_abs_self _)

end Increasing

end System

theorem interpolate_eq_error {k : Knots K} (hk : 2 ≤ k.size) {values : List K} {ends : EndConditions K}
    (hlen : values.length = k.size) {e : SplineError K} (h : interpolate k values ends = .error e) :
    ∃ e', (bands (equations k values ends)).factor = .error e' ∧ e = .linear e' := by
  cases hfactor : (bands (equations k values ends)).factor with
  | ok steps =>
    rw [Tridiagonal.factor, rows_equations, Scalar.exact_zero] at hfactor
    rw [(interpolate_eq_ok_iff hk).mpr ⟨hlen, steps, hfactor, rfl⟩] at h
    cases h
  | error e' =>
    refine ⟨e', rfl, ?_⟩
    have hrhs : ((equations k values ends).map (·.rhs)).length =
        (bands (equations k values ends)).dimension := by
      simp [bands, Tridiagonal.dimension]
    have hbands : Tridiagonal.ofBands ((equations k values ends).tail.map (·.below))
        ((equations k values ends).map (·.diag)) ((equations k values ends).dropLast.map (·.above)) =
          .ok (bands (equations k values ends)) := by
      refine Tridiagonal.ofBands_eq_ok_iff.mpr ⟨rfl, ?_, ?_, ?_⟩ <;> simp [equations]
    have hsolve : (bands (equations k values ends)).solve ((equations k values ends).map (·.rhs)) =
        .error e' := by
      rw [Tridiagonal.solve_eq_map hrhs, hfactor]
      rfl
    simp only [interpolate, checkLength, hlen, if_true, hbands, bind, Except.bind, hsolve,
      SplineError.ofBanded, mapError_error] at h
    cases h
    rfl

/-- With a value for each knot interpolation succeeds when elimination accepts all rows, and otherwise reports the first one that is
refused. -/
theorem interpolate_cases {k : Knots K} {n : Nat} (hn : k.size = n + 2) {values : List K}
    (hlen : values.length = k.size) (ends : EndConditions K) :
    (∀ i < n + 2, (bands (equations k values ends)).Accepts i) ∧
        (∃ b, interpolate k values ends = .ok b) ∨
      ∃ i < n + 2, ¬ (bands (equations k values ends)).Accepts i ∧
        (∀ j < i, (bands (equations k values ends)).Accepts j) ∧
        interpolate k values ends = .error (.linear (.zeroPivot i)) := by
  have hk : 2 ≤ k.size := by omega
  have hcases := (bands (equations k values ends)).factor_cases
  rw [length_rows values ends hn] at hcases
  rcases hcases with ⟨hall, hok⟩ | ⟨i, hi, hstop, hbefore, herror⟩
  · left
    rw [Tridiagonal.factor, rows_equations, Scalar.exact_zero] at hok
    exact ⟨hall, _, (interpolate_eq_ok_iff hk).mpr ⟨hlen, _, hok, rfl⟩⟩
  · right
    refine ⟨i, hi, hstop, hbefore, ?_⟩
    cases hresult : interpolate k values ends with
    | ok b =>
      obtain ⟨-, steps, hsteps, -⟩ := (interpolate_eq_ok_iff hk).mp hresult
      rw [Tridiagonal.factor, rows_equations, Scalar.exact_zero, hsteps] at herror
      cases herror
    | error e =>
      obtain ⟨e', hfactor, rfl⟩ := interpolate_eq_error hk hlen hresult
      rw [herror] at hfactor
      cases hfactor
      rfl

theorem interpolate_of_graded {k : Knots K} (hk : k.Increasing) (hgrade : k.Graded) {values : List K}
    (hlen : values.length = k.size) (ends : EndConditions K) :
    ∃ b, interpolate k values ends = .ok b := by
  obtain ⟨n, hn⟩ := Nat.exists_eq_add_of_le' hk.two_le
  have haccepts : ∀ i < (bands (equations k values ends)).rows.length,
      (bands (equations k values ends)).Accepts i := by
    intro i hi
    rw [length_rows values ends hn] at hi
    by_contra hrefused
    obtain ⟨j, hj, rfl⟩ := inner_of_not_accepts values ends hk hn hi hrefused
    obtain ⟨hordered, hbc⟩ := window_inner hk hn hj
    have hintervals := Knots.intervals_eq hn
    obtain ⟨hleft, hright⟩ := hgrade.window hj hn
    apply hrefused
    apply accepts_inner values ends hk hn hj
    exact Window.pivotTolerance_lt_pivotBound hordered hbc hleft hright
  obtain ⟨steps, hsteps⟩ := Tridiagonal.exists_factor haccepts
  rw [Tridiagonal.factor, rows_equations, Scalar.exact_zero] at hsteps
  exact ⟨_, (interpolate_eq_ok_iff hk.two_le).mpr ⟨hlen, steps, hsteps, rfl⟩⟩

/-- On graded knots interpolation succeeds. On any knots the pivots that elimination meets in the inner rows have a positive lower bound,
and interpolation of values of the right number fails only where one of these is small against its row. -/
theorem interpolate_succeeds {points values : List K} {k : Knots K} (hk : Knots.ofList points = .ok k)
    (hlen : values.length = points.length) (ends : EndConditions K) :
    let A := bands (equations k values ends)
    (k.Graded → ∃ b, interpolate k values ends = .ok b) ∧
      (∀ steps, A.factor = .ok steps →
        steps.map (·.pivot) = (List.range points.length).map A.pivot) ∧
      (∀ i : Nat, 1 ≤ i → i + 1 < points.length →
        let b := k.width (i - 1)
        let c := k.width i
        let d := k.width (i + 1)
        0 < b * (c + d) / ((b + c) * (b + c + d)) ∧
          b * (c + d) / ((b + c) * (b + c + d)) ≤ A.pivot i) ∧
      ∀ e, interpolate k values ends = .error e →
        ∃ i, 1 ≤ i ∧ i + 1 < points.length ∧ e = .linear (.zeroPivot i) ∧
          |A.pivot i| ≤ Banded.pivotTolerance * (A.row i).scale := by
  obtain ⟨rfl, hinc⟩ := Knots.ofList_eq_ok_iff.mp hk
  obtain ⟨n, hn⟩ := Nat.exists_eq_add_of_le' hinc.two_le
  have hpoints : k.points.length = n + 2 := hn
  refine ⟨fun hgrade => interpolate_of_graded hinc hgrade hlen ends, ?_, ?_, ?_⟩
  · intro steps hsteps
    rw [Tridiagonal.pivots_of_factor hsteps, length_rows values ends hn, hpoints]
  · intro i hi hlt
    obtain ⟨j, rfl⟩ := Nat.exists_eq_add_of_le' hi
    have hj : j < n := by omega
    obtain ⟨hordered, hbc⟩ := window_inner hinc hn hj
    dsimp only
    rw [← Knots.pivotBound_window]
    exact ⟨Window.pivotBound_pos hordered hbc, pivotBound_le_pivot values ends hinc hn hj⟩
  · intro e he
    obtain ⟨e', hfactor, rfl⟩ := interpolate_eq_error hinc.two_le hlen he
    obtain ⟨i, hi, rfl, hrefused⟩ := Tridiagonal.factor_eq_error hfactor
    rw [length_rows values ends hn] at hi
    obtain ⟨j, hj, rfl⟩ := inner_of_not_accepts values ends hinc hn hi hrefused
    exact ⟨j + 1, by omega, by omega, rfl, not_lt.mp hrefused⟩

theorem interpolate_succeeds_at_full_grade :
    let k : Knots ℚ := ⟨[0, 1, 1000001]⟩
    let ends : EndConditions ℚ := ⟨.secondDerivative 5, .firstDerivative 7⟩
    Knots.ofList [0, 1, 1000001] = .ok k ∧ k.Graded ∧
      (∃ b, interpolate k [3, -1, 2] ends = .ok b) ∧
      (1000000 / 1000001 ^ 2 : ℚ) ≤ (bands (equations k [3, -1, 2] ends)).pivot 1 := by
  intro k ends
  have hk : Knots.ofList [0, 1, 1000001] = .ok k :=
    Knots.ofList_eq_ok_iff.mpr ⟨rfl, ⟨by decide, by decide⟩⟩
  have hgrade : k.Graded := by
    unfold Knots.Graded
    decide +kernel
  have hlen : ([3, -1, 2] : List ℚ).length = ([0, 1, 1000001] : List ℚ).length := rfl
  obtain ⟨hsucceeds, -, hpivot, -⟩ := interpolate_succeeds hk hlen ends
  have hbound := (hpivot 1 le_rfl (by decide)).2
  refine ⟨hk, hgrade, hsucceeds hgrade, le_trans ?_ hbound⟩
  decide +kernel

/-- Nearly coincident knots leave no usable pivot. -/
example : interpolate (⟨[0, 1, 1 + 1 / 10 ^ 15]⟩ : Knots ℚ) [0, 1, 1] EndConditions.natural =
    .error (.linear (.zeroPivot 1)) := by decide +kernel

end Spline
end LifetimeEfficiency
