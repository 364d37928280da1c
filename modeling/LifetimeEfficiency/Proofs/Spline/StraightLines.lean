import LifetimeEfficiency.Proofs.Spline.Reproduction
import LifetimeEfficiency.Proofs.Spline.Roughness
/-!
# Smoothing and straight lines

The values enter the system by their second differences, which a straight line does not have. A line added to the values is added to the
result, and the result has the weighted mean and slope of the values.
-/
namespace LifetimeEfficiency

variable {K : Type} [Field K] [LinearOrder K] [IsStrictOrderedRing K]

namespace Knots

def addLine (k : Knots K) (a b : K) (values : List K) : List K :=
  values.mapIdx fun i v => v + (a + b * k.u i)

omit [IsStrictOrderedRing K] in
@[simp] theorem length_addLine (k : Knots K) (a b : K) (values : List K) :
    (k.addLine a b values).length = values.length := List.length_mapIdx

omit [IsStrictOrderedRing K] in
theorem getD_addLine (k : Knots K) (a b : K) {values : List K} {i : Nat} (hi : i < values.length) :
    (k.addLine a b values).getD i 0 = values.getD i 0 + (a + b * k.u i) := by
  simp [addLine, hi]

variable {k : Knots K}

theorem secondDifference_line (hk : k.Increasing) (a b : K) {i : Nat} (hi : i + 1 < k.intervals) :
    k.secondDifference (fun j => a + b * k.u j) i = 0 := by
  have hslope {j : Nat} (hj : j < k.intervals) : k.r j * (k.u j - k.u (j + 1 : Nat)) = -3 := by
    have hne := (hk.width_pos hj).ne'
    have hback : k.u j - k.u (j + 1 : Nat) = -k.width j := (neg_sub _ _).symm
    rw [r, hback, Scalar.exact_ofNat]
    field_simp
  have hleft := hslope (Nat.lt_of_succ_lt hi)
  have hright : k.r (i + 1) * (k.u (i + 1 : Nat) - k.u (i + 2 : Nat)) = -3 := hslope hi
  rw [secondDifference]
  linear_combination b * hleft - b * hright

end Knots
namespace Spline

variable {k : Knots K} {values errors z : List K} {smoothing : K} (a b : K)

theorem secondDifferences_addLine (hk : k.Increasing) (hvalues : values.length = k.size) :
    secondDifferences k (k.addLine a b values) = secondDifferences k values := by
  obtain ⟨n, hn⟩ := Nat.exists_eq_add_of_le' hk.two_le
  unfold secondDifferences
  apply List.map_congr_left
  intro i hi
  have hlt := List.mem_range.mp hi
  have hline := k.secondDifference_line hk a b (i := i) (by unfold Knots.intervals; omega)
  simp only [Knots.secondDifference] at hline
  rw [Scalar.exact_zero, k.getD_addLine a b (by omega), k.getD_addLine a b (by omega),
    k.getD_addLine a b (by omega)]
  linear_combination hline

omit [IsStrictOrderedRing K] in
theorem corrected_addLine (mu : K) (c : List K) :
    corrected k (k.addLine a b values) errors mu c = k.addLine a b (corrected k values errors mu c) := by
  apply List.ext_getElem
  · simp [corrected]
  · intro i hi hi'
    have hlt : i < values.length := by
      simpa [corrected] using hi
    simp [corrected, Knots.addLine, hlt]
    ring

theorem smooth_addLine (hk : k.Increasing) (values errors : List K) (smoothing : K) :
    smooth k (k.addLine a b values) errors smoothing =
      (smooth k values errors smoothing).map (k.addLine a b) := by
  have hlength := k.length_addLine a b values
  rcases smooth_outcome k errors smoothing values.length with
    ⟨e, herror⟩ | ⟨-, hsame⟩ | ⟨-, hvalues, steps, hok⟩
  · rw [herror _ hlength, herror values rfl]
    rfl
  · rw [hsame _ hlength, hsame values rfl]
    rfl
  · rw [hok _ hlength, hok values rfl, secondDifferences_addLine a b hk hvalues, corrected_addLine]
    rfl

theorem eq_of_smooth (hk : k.Increasing) (hflat : ∀ i < k.size - 2, (secondDifferences k values).getD i 0 = 0)
    (h : smooth k values errors smoothing = .ok z) : z = values := by
  rcases smooth_cases h with ⟨-, rfl⟩ | ⟨h3, hpos, hlt⟩
  · rfl
  obtain ⟨hvalues, -, A, c, hA, hc, rfl⟩ := (smooth_eq_ok_iff h3 hpos hlt).mp h
  obtain ⟨n, hn⟩ := Nat.exists_eq_add_of_le' hk.two_le
  have hm : k.size - 2 = n := by omega
  have hdim := (smoothingSystem_eq hn hA).1
  have hlength : c.length = n := (Pentadiagonal.length_of_solve hc).trans hdim
  have hform : ∑ i ∈ Finset.range n, c.getD i 0 * A.times c i = 0 := by
    refine Finset.sum_eq_zero fun i hi => ?_
    have hi := Finset.mem_range.mp hi
    rw [Pentadiagonal.row_of_solve hc (hdim ▸ hi), hflat i (hm ▸ hi), mul_zero]
  have hbending : k.bending n (padded c) (padded c) = 0 := by
    have hmu := curvatureWeight_nonneg hpos.le hlt
    exact le_antisymm (hform ▸ bending_le_sum_times hn hA hmu hlength.le) (k.bending_nonneg hk hn _)
  have hzero : padded c = 0 := by
    funext i
    rcases Nat.lt_or_ge i (n + 1) with hi | hi
    · exact k.eq_zero_of_bending_eq_zero hk hn hbending hi
    · exact padded_eq_zero (by omega)
  apply List.ext_getElem
  · simp [corrected]
  · intro i hi hi'
    have hstay : correction k c i = 0 := by
      rw [correction_eq hn hlength, hzero]
      simp [Knots.tension]
    simp [corrected, hi', hstay]

theorem smooth_line (hk : k.Increasing) (hvalues : values.length = k.size) :
    smooth k (k.points.map fun u => a + b * u) errors smoothing =
      (smooth k values errors smoothing).map fun _ => k.points.map fun u => a + b * u := by
  obtain ⟨n, hn⟩ := Nat.exists_eq_add_of_le' hk.two_le
  have hlength : (k.points.map fun u => a + b * u).length = values.length := by
    rw [List.length_map, hvalues, Knots.size]
  rcases smooth_outcome k errors smoothing values.length with
    ⟨e, herror⟩ | ⟨-, hsame⟩ | ⟨-, -, steps, hok⟩
  · rw [herror _ hlength, herror values rfl]
    rfl
  · rw [hsame _ hlength, hsame values rfl]
    rfl
  · have hflat : ∀ i < k.size - 2, (secondDifferences k (k.points.map fun u => a + b * u)).getD i 0 = 0 := by
      intro i hi
      have hline := k.secondDifference_line hk a b (i := i) (by unfold Knots.intervals; omega)
      rw [getD_secondDifferences hn (by omega), Knots.secondDifference, getD_samples hn _ i (by omega),
        getD_samples hn _ (i + 1) (by omega), getD_samples hn _ (i + 2) (by omega)]
      exact hline
    rw [hok values rfl, hok _ hlength, eq_of_smooth hk hflat (hok _ hlength)]
    rfl

/-- What the result is moved by has neither a weighted sum nor a weighted moment. -/
theorem sum_residuals (hk : k.Increasing) (herrors : ∀ σ ∈ errors, 0 < σ)
    (h : smooth k values errors smoothing = .ok z) :
    ∑ i ∈ Finset.range k.size,
      (a + b * k.u i) * ((values.getD i 0 - z.getD i 0) / errors.getD i 0 ^ 2) = 0 := by
  rcases smooth_cases h with ⟨-, rfl⟩ | ⟨h3, hpos, hlt⟩
  · simp
  obtain ⟨n, hn⟩ := Nat.exists_eq_add_of_le' hk.two_le
  have hlength := ((smooth_eq_ok_iff h3 hpos hlt).mp h).2.1
  obtain ⟨-, c, hc, hend, hz⟩ := tension_of_smooth hn (by omega) hpos hlt h
  have hlast : padded c (n + 1) = 0 := by
    have hlast := hc.last
    rwa [hn] at hlast
  have hresidual {i : Nat} (hi : i < n + 2) : (values.getD i 0 - z.getD i 0) / errors.getD i 0 ^ 2 =
      curvatureWeight smoothing * k.tension (padded c) i := by
    have hne : errors.getD i 0 ≠ 0 := by
      rw [List.getD_eq_getElem _ _ (by omega)]
      exact (herrors _ (List.getElem_mem _)).ne'
    rw [hz i hi, variance, Scalar.exact_zero]
    field_simp
    ring
  have hline := k.sum_tension n (fun i => a + b * k.u i) hc.first hlast hend
  have hflat : ∑ i ∈ Finset.range n,
      padded c (i + 1) * k.secondDifference (fun j => a + b * k.u j) i = 0 := by
    refine Finset.sum_eq_zero fun i hi => ?_
    have hlt := Finset.mem_range.mp hi
    rw [k.secondDifference_line hk a b (by rw [Knots.intervals_eq hn]; omega), mul_zero]
  rw [hflat] at hline
  calc
    ∑ i ∈ Finset.range k.size,
          (a + b * k.u i) * ((values.getD i 0 - z.getD i 0) / errors.getD i 0 ^ 2) =
        ∑ i ∈ Finset.range (n + 2),
          curvatureWeight smoothing * ((a + b * k.u i) * k.tension (padded c) i) := by
      rw [hn]
      refine Finset.sum_congr rfl fun i hi => ?_
      rw [hresidual (Finset.mem_range.mp hi), mul_left_comm]
    _ = 0 := by rw [← Finset.mul_sum, hline, mul_zero]

/-- Smoothing acts on second differences alone: it commutes with the addition of a straight line, returns such a line as it is, and
keeps the weighted sum and moment of the values. -/
theorem smooth_keeps_lines {points : List K} (hk : Knots.ofList points = .ok k)
    (values errors : List K) (smoothing : K) :
    (∀ a b, smooth k (k.addLine a b values) errors smoothing =
      (smooth k values errors smoothing).map (k.addLine a b)) ∧
    (∀ a b, values.length = points.length →
      smooth k (points.map fun u => a + b * u) errors smoothing =
        (smooth k values errors smoothing).map fun _ => points.map fun u => a + b * u) ∧
    ((∀ σ ∈ errors, 0 < σ) → ∀ z, smooth k values errors smoothing = .ok z →
      ∑ i ∈ Finset.range points.length, (values.getD i 0 - z.getD i 0) / errors.getD i 0 ^ 2 = 0 ∧
      ∑ i ∈ Finset.range points.length,
        k.u i * (values.getD i 0 - z.getD i 0) / errors.getD i 0 ^ 2 = 0) := by
  obtain ⟨rfl, hinc⟩ := Knots.ofList_eq_ok_iff.mp hk
  refine ⟨fun a b => smooth_addLine a b hinc values errors smoothing,
    fun a b hvalues => smooth_line a b hinc hvalues, fun herrors z h => ?_⟩
  have hsum := sum_residuals 1 0 hinc herrors h
  have hmoment := sum_residuals 0 1 hinc herrors h
  simp only [zero_mul, one_mul, add_zero, zero_add, ← mul_div_assoc] at hsum hmoment
  exact ⟨hsum, hmoment⟩

theorem smooth_keeps_lines_at_four_knots :
    let k : Knots ℚ := ⟨[0, 1, 3, 4]⟩
    let z : List ℚ := [103 / 354, 139 / 177, 88 / 177, 271 / 354]
    Knots.ofList [0, 1, 3, 4] = .ok k ∧ smooth k [0, 3, 0, 1] [1, 2, 1, 1] (1 / 4) = .ok z ∧
      smooth k (k.addLine 5 (-2) [0, 3, 0, 1]) [1, 2, 1, 1] (1 / 4) = .ok (k.addLine 5 (-2) z) ∧
      smooth k [5, 3, -1, -3] [1, 2, 1, 1] (1 / 4) = .ok [5, 3, -1, -3] ∧
      ∑ i ∈ Finset.range 4, (([0, 3, 0, 1] : List ℚ).getD i 0 - z.getD i 0) /
        ([1, 2, 1, 1] : List ℚ).getD i 0 ^ 2 = 0 ∧
      ∑ i ∈ Finset.range 4, k.u i * (([0, 3, 0, 1] : List ℚ).getD i 0 - z.getD i 0) /
        ([1, 2, 1, 1] : List ℚ).getD i 0 ^ 2 = 0 := by
  intro k z
  have hk : Knots.ofList [0, 1, 3, 4] = .ok k :=
    Knots.ofList_eq_ok_iff.mpr ⟨rfl, ⟨by decide, by decide⟩⟩
  have h : smooth k [0, 3, 0, 1] [1, 2, 1, 1] (1 / 4) = .ok z := by
    decide +kernel
  have herrors : ∀ σ ∈ ([1, 2, 1, 1] : List ℚ), 0 < σ := by
    decide
  obtain ⟨hadded, hline, hkept⟩ := smooth_keeps_lines hk [0, 3, 0, 1] [1, 2, 1, 1] (1 / 4)
  have hadded := hadded 5 (-2)
  have hline := hline 5 (-2) rfl
  have hpoints : ([0, 1, 3, 4] : List ℚ).map (fun u => 5 + -2 * u) = [5, 3, -1, -3] := by
    decide +kernel
  rw [h] at hadded hline
  rw [hpoints] at hline
  exact ⟨hk, h, hadded, hline, hkept herrors z h⟩

end Spline
end LifetimeEfficiency
