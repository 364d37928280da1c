import LifetimeEfficiency.Proofs.Banded.Definite
import LifetimeEfficiency.Proofs.Spline.Smoothing
import Mathlib.Algebra.Order.Ring.Rat
/-!
# The smoothing system is positive definite

Its quadratic form is the roughness of a spline, given by half its curvatures, and the squares of the tensions, weighted with the
variances. The errors can only raise it, so that each pivot is at least what two intervals contribute to the roughness. A pivot
is never refused for its sign, only for being small against its row.
-/
namespace LifetimeEfficiency

variable {K : Type} [Field K] [LinearOrder K] [IsStrictOrderedRing K]

namespace Knots

variable {k : Knots K} {n : Nat}

theorem widths_pos (hk : k.Increasing) {i : Nat} (hi : i + 1 < k.intervals) :
    0 < 3 / 2 * k.width i + 2 * k.width (i + 1 : Nat) := by
  have hw := hk.width_pos (Nat.lt_of_succ_lt hi)
  have hw' := hk.width_pos hi
  positivity

/-- What the intervals beside a knot contribute, where the curvature vanishes at the next knot. -/
theorem le_bending (hk : k.Increasing) (hn : k.size = n + 2) {β : Nat → K} {i : Nat} (hi : i < n)
    (hone : β (i + 1) = 1) (hzero : β (i + 2) = 0) :
    3 / 2 * k.width i + 2 * k.width (i + 1 : Nat) ≤ k.bending n β β := by
  have hterms := Finset.add_le_sum (fun j hj => bending_term_nonneg hk hn β hj)
    (Finset.mem_range.mpr (Nat.lt_succ_of_lt hi)) (Finset.mem_range.mpr (Nat.succ_lt_succ hi))
    (Nat.succ_ne_self i).symm
  refine le_trans ?_ hterms
  rw [hone, hzero]
  have hwidth : 0 < k.width i := hk.width_pos (intervals_eq hn ▸ Nat.lt_succ_of_lt hi)
  have hsquare := mul_nonneg hwidth.le (sq_nonneg (2 * β i + 1))
  linarith

end Knots
namespace Spline

variable {k : Knots K} {errors b : List K} {mu : K} {n : Nat} {A : Pentadiagonal K}

omit [IsStrictOrderedRing K] in
theorem sum_times (hn : k.size = n + 2) (hA : smoothingSystem k errors mu = .ok A) (hb : b.length ≤ n) :
    ∑ i ∈ Finset.range n, b.getD i 0 * A.times b i =
      k.bending n (padded b) (padded b) +
        mu * ∑ i ∈ Finset.range (n + 2), variance errors i * k.tension (padded b) i ^ 2 := by
  have hlast : padded b (n + 1) = 0 := padded_eq_zero (by omega)
  have hlast' : padded b (n + 2) = 0 := padded_eq_zero (by omega)
  have hpull := k.sum_tension n (fun i => variance errors i * k.tension (padded b) i) rfl hlast hlast'
  calc
    ∑ i ∈ Finset.range n, b.getD i 0 * A.times b i =
        ∑ i ∈ Finset.range n, (padded b (i + 1) *
            (k.width i * padded b i + k.p (i + 1) * padded b (i + 1) + k.width (i + 1) * padded b (i + 2)) +
          mu * (padded b (i + 1) *
            k.secondDifference (fun j => variance errors j * k.tension (padded b) j) i)) := by
      refine Finset.sum_congr rfl fun i hi => ?_
      rw [times_smoothingSystem hn hA hb (Finset.mem_range.mp hi), mul_add, mul_left_comm _ mu]
      rfl
    _ = k.bending n (padded b) (padded b) +
        mu * ∑ i ∈ Finset.range (n + 2), variance errors i * k.tension (padded b) i ^ 2 := by
      rw [Finset.sum_add_distrib, ← Finset.mul_sum, ← k.bending_eq n (padded b) rfl hlast, ← hpull]
      simp only [mul_assoc, sq]

theorem bending_le_sum_times (hn : k.size = n + 2) (hA : smoothingSystem k errors mu = .ok A)
    (hmu : 0 ≤ mu) (hb : b.length ≤ n) :
    k.bending n (padded b) (padded b) ≤ ∑ i ∈ Finset.range n, b.getD i 0 * A.times b i := by
  rw [sum_times hn hA hb]
  refine le_add_of_nonneg_right (mul_nonneg hmu (Finset.sum_nonneg fun i _ => ?_))
  exact mul_nonneg (mul_self_nonneg _) (sq_nonneg _)

theorem le_pivot (hk : k.Increasing) (hn : k.size = n + 2) (hA : smoothingSystem k errors mu = .ok A)
    (hmu : 0 ≤ mu) {i : Nat} (hi : i < n) :
    3 / 2 * k.width i + 2 * k.width (i + 1 : Nat) ≤ A.pivot i := by
  -- A pivot is the value of the form at unknowns that end with one in its row. That it exists takes the pivots
  -- before.
  have hintervals := Knots.intervals_eq hn
  induction i using Nat.strong_induction_on with
  | _ i ih =>
    have hbefore (j : Nat) (hj : j < i) : A.pivot j ≠ 0 :=
      ((Knots.widths_pos hk (by omega)).trans_le (ih j hj (hj.trans hi))).ne'
    calc
      3 / 2 * k.width i + 2 * k.width (i + 1 : Nat) ≤
          k.bending n (padded (A.direction i)) (padded (A.direction i)) :=
        Knots.le_bending hk hn hi (A.direction_self i) (A.direction_eq_zero (Nat.lt_succ_self i))
      _ ≤ ∑ j ∈ Finset.range n, (A.direction i).getD j 0 * A.times (A.direction i) j :=
        bending_le_sum_times hn hA hmu (by rw [A.length_direction]; exact hi)
      _ = A.pivot i := Pentadiagonal.sum_times_direction hbefore hi

variable {points : List K} {smoothing : K}

theorem lt_of_scale_le {w w' scale pivot : K} (hw : 0 < w) (hw' : 0 < w') (hscale : scale ≤ 10 ^ 13 * w)
    (hpivot : 3 / 2 * w + 2 * w' ≤ pivot) : Banded.pivotTolerance * scale < pivot := by
  have htol : (Banded.pivotTolerance : K) * 10 ^ 13 = 1 := by
    simp only [Banded.pivotTolerance, Scalar.exact_one]
    norm_num
  calc
    Banded.pivotTolerance * scale ≤ Banded.pivotTolerance * (10 ^ 13 * w) :=
      mul_le_mul_of_nonneg_left hscale Banded.pivotTolerance_pos.le
    _ = w := by rw [← mul_assoc, htol, one_mul]
    _ < pivot := by linarith

/-- The pivots of the system that is solved for the curvatures are at least what two intervals give, and nothing but a pivot that is small
against its row keeps smoothing from a result. -/
theorem smoothingSystem_definite (hk : Knots.ofList points = .ok k) (h3 : 3 ≤ points.length)
    (herrors : errors.length = points.length) (hpos : 0 < smoothing) (hlt : smoothing < 1) :
    ∃ A, smoothingSystem k errors (curvatureWeight smoothing) = .ok A ∧ A.dimension = points.length - 2 ∧
      (∀ i < A.dimension, 0 < 3 / 2 * k.width i + 2 * k.width (i + 1) ∧
        3 / 2 * k.width i + 2 * k.width (i + 1) ≤ A.pivot i) ∧
      ((∀ i < A.dimension, Banded.pivotTolerance * (A.row i).scale < A.pivot i) ∧
          A.factor = .ok ((List.range A.dimension).map A.step) ∧
          (∀ values, values.length = points.length → ∃ z, smooth k values errors smoothing = .ok z) ∨
        ∃ i < A.dimension, A.pivot i ≤ Banded.pivotTolerance * (A.row i).scale ∧
          (∀ j < i, Banded.pivotTolerance * (A.row j).scale < A.pivot j) ∧
          A.factor = .error (.zeroPivot i) ∧
          ∀ values, values.length = points.length →
            smooth k values errors smoothing = .error (.linear (.zeroPivot i))) ∧
      ((∀ i < A.dimension, ∀ j < A.dimension, ∀ l < k.intervals, |A.entry i j| ≤ 10 ^ 13 * k.width l) →
        ∀ values, values.length = points.length → ∃ z, smooth k values errors smoothing = .ok z) := by
  obtain ⟨rfl, hinc⟩ := Knots.ofList_eq_ok_iff.mp hk
  obtain ⟨n, hn⟩ := Nat.exists_eq_add_of_le' hinc.two_le
  obtain ⟨A, hA, hdim⟩ := exists_smoothingSystem h3 errors (curvatureWeight smoothing)
  have hmu := curvatureWeight_nonneg hpos.le hlt
  have hn' : A.dimension = n := by omega
  have hintervals := Knots.intervals_eq hn
  have hpivot {i : Nat} (hi : i < A.dimension) :
      3 / 2 * k.width i + 2 * k.width (i + 1 : Nat) ≤ A.pivot i :=
    le_pivot hinc hn hA hmu (hn' ▸ hi)
  have hbound {i : Nat} (hi : i < A.dimension) : 0 < 3 / 2 * k.width i + 2 * k.width (i + 1 : Nat) :=
    Knots.widths_pos hinc (by omega)
  have haccepts {i : Nat} (hi : i < A.dimension) :
      A.Accepts i ↔ Banded.pivotTolerance * (A.row i).scale < A.pivot i := by
    rw [Pentadiagonal.accepts_iff, abs_of_pos ((hbound hi).trans_le (hpivot hi))]
  have hrange : isSmoothing smoothing = true := by
    simp [isSmoothing, hpos.le, hlt]
  have hzero : (smoothing == 0) = false := by
    simp [hpos.ne']
  rw [← Scalar.exact_zero] at hzero
  have hsmooth {values : List K} (hvalues : values.length = k.points.length) :=
    smooth_eq_map h3 hvalues herrors hrange hzero hA hdim
  refine ⟨A, hA, hdim, fun i hi => ⟨hbound hi, hpivot hi⟩, ?_, ?_⟩
  · rcases A.factor_cases with ⟨hall, hok⟩ | ⟨i, hi, hrefused, hbefore, herror⟩
    · left
      refine ⟨fun i hi => (haccepts hi).mp (hall i hi), hok, ?_⟩
      intro values hvalues
      rw [hsmooth hvalues, hok]
      exact ⟨_, rfl⟩
    · right
      refine ⟨i, hi, ?_, ?_, herror, ?_⟩
      · rwa [haccepts hi, not_lt] at hrefused
      · exact fun j hj => (haccepts (hj.trans hi)).mp (hbefore j hj)
      · intro values hvalues
        rw [hsmooth hvalues, herror]
        rfl
  · intro hentries values hvalues
    rcases A.factor_cases with ⟨-, hok⟩ | ⟨i, hi, hrefused, -, -⟩
    · rw [hsmooth hvalues, hok]
      exact ⟨_, rfl⟩
    · have hscale : (A.row i).scale ≤ 10 ^ 13 * k.width i :=
        Pentadiagonal.scale_le hA hi fun j hj =>
          hentries i hi j hj i (by omega)
      have hlarge := lt_of_scale_le (hinc.width_pos (i := i) (by omega))
        (hinc.width_pos (i := i + 1) (by omega)) hscale (hpivot hi)
      exact absurd ((haccepts hi).mpr hlarge) hrefused

deriving instance DecidableEq for Pentadiagonal

theorem smoothingSystem_definite_at_five_knots :
    let k : Knots ℚ := ⟨[0, 1, 3, 4, 6]⟩
    let A : Pentadiagonal ℚ := ⟨[18, 66, 87 / 2], [-16, -44], [12]⟩
    Knots.ofList [0, 1, 3, 4, 6] = .ok k ∧
      smoothingSystem k [1, 0, 2, 1, 0] (curvatureWeight (1 / 2)) = .ok A ∧
      (∀ i : Nat, i < 3 → 0 < 3 / 2 * k.width i + 2 * k.width (i + 1) ∧
        3 / 2 * k.width i + 2 * k.width (i + 1) ≤ A.pivot i) ∧
      ∃ z, smooth k [1, 0, 1, 3, 2] [1, 0, 2, 1, 0] (1 / 2) = .ok z := by
  intro k A
  have hk : Knots.ofList [0, 1, 3, 4, 6] = .ok k :=
    Knots.ofList_eq_ok_iff.mpr ⟨rfl, ⟨by decide, by decide⟩⟩
  have hA : smoothingSystem k [1, 0, 2, 1, 0] (curvatureWeight (1 / 2)) = .ok A := by
    decide +kernel
  have herrors : ([1, 0, 2, 1, 0] : List ℚ).length = ([0, 1, 3, 4, 6] : List ℚ).length := rfl
  have hpos : (0 : ℚ) < 1 / 2 := by norm_num
  have hlt : (1 / 2 : ℚ) < 1 := by norm_num
  obtain ⟨A', hA', -, hpivots, -, hentries⟩ := smoothingSystem_definite hk (by decide) herrors hpos hlt
  rw [hA] at hA'
  cases hA'
  exact ⟨hk, hA, hpivots, hentries (by decide +kernel) _ rfl⟩

end Spline
end LifetimeEfficiency
