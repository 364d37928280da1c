import LifetimeEfficiency.Proofs.Banded.Undefined
import LifetimeEfficiency.Proofs.Spline.Smoothing
/-!
# Undefined errors

The variance of every sample stands in the diagonal of the smoothing system, that of the first two and of the last two in one or two rows, the
others in three. One undefined error leaves that row undefined, and so the system is refused.
-/
namespace LifetimeEfficiency

open Undefinable (undefined number)

variable {K : Type} [Field K] [LinearOrder K]

namespace Spline

variable {k : Knots (Undefinable K)} {values errors : List (Undefinable K)} {smoothing : Undefinable K}

theorem smoothingDiagonal_eq_undefined {var : Nat → Undefinable K} (mu : Undefinable K) {i : Nat}
    (h : var i = undefined ∨ var (i + 1) = undefined ∨ var (i + 2) = undefined) :
    smoothingDiagonal k var mu i = undefined := by
  rcases h with h | h | h <;> simp [smoothingDiagonal, h]

theorem variance_eq_undefined {j : Nat} (hj : j < errors.length) (h : errors[j] = undefined) :
    variance errors j = undefined := by
  rw [variance, List.getD_eq_getElem _ _ hj, h]
  rfl

/-- Every sample has a row of the system that its variance stands in. -/
theorem undefined_mem_diag (h3 : 3 ≤ k.size) (herrors : errors.length = k.size) (mu : Undefinable K)
    (h : undefined ∈ errors) :
    undefined ∈ (List.range (k.size - 2)).map (smoothingDiagonal k (variance errors) mu) := by
  obtain ⟨j, hj, hget⟩ := List.getElem_of_mem h
  have hvar := variance_eq_undefined hj hget
  have hrow {i : Nat} (hi : i < k.size - 2)
      (hv : variance errors i = undefined ∨ variance errors (i + 1) = undefined ∨
        variance errors (i + 2) = undefined) :
      undefined ∈ (List.range (k.size - 2)).map (smoothingDiagonal k (variance errors) mu) :=
    List.mem_map.mpr ⟨i, List.mem_range.mpr hi, smoothingDiagonal_eq_undefined mu hv⟩
  rcases Nat.lt_or_ge j (k.size - 2) with hlt | hge
  · exact hrow hlt (.inl hvar)
  · -- The last two samples have no row of their own, but stand in the last one.
    obtain ⟨m, hm⟩ := Nat.exists_eq_add_of_le' h3
    obtain rfl | rfl : j = m + 1 ∨ j = m + 2 := by omega
    · exact hrow (i := m) (by omega) (.inr (.inl hvar))
    · exact hrow (i := m) (by omega) (.inr (.inr hvar))

/-- An undefined error is never smoothed away: whatever the knots, the values and the other errors are, a pivot is refused. -/
theorem smooth_refuses_undefined (h3 : 3 ≤ k.size) (hvalues : values.length = k.size)
    (herrors : errors.length = k.size) (hpos : 0 < smoothing) (hlt : smoothing < 1)
    (hundefined : undefined ∈ errors) :
    ∃ row < k.size - 2, smooth k values errors smoothing = .error (.linear (.zeroPivot row)) := by
  have hrange : isSmoothing smoothing = true := by
    rw [isSmoothing, decide_eq_true (Undefinable.le_of_lt hpos), decide_eq_true hlt]
    rfl
  obtain ⟨A, hA, hdim⟩ := exists_smoothingSystem h3 errors (curvatureWeight smoothing)
  have hq : (secondDifferences k values).length = A.dimension := by
    rw [hdim, secondDifferences, List.length_map, List.length_range]
  have hmem := undefined_mem_diag h3 herrors (curvatureWeight smoothing) hundefined
  rw [smooth_eq h3 hvalues herrors hrange (Undefinable.beq_zero_of_pos hpos) hA]
  rcases Pentadiagonal.solve_cases hq with ⟨-, hok⟩ | ⟨row, hrow, -, -, herror⟩
  · -- A solution takes numbers in all bands.
    have hnumbers := (Pentadiagonal.defined_of_solve hA hok).1
    exact absurd (List.mem_append_left _ (List.mem_append_left _ hmem)) hnumbers
  · rw [herror]
    exact ⟨row, hdim ▸ hrow, rfl⟩

theorem smooth_refuses_undefined_at_five_knots :
    let k : Knots (Undefinable ℚ) := ⟨[number 0, number 1, number 2, number 3, number 4]⟩
    let values : List (Undefinable ℚ) := [number 0, number 1, number 4, number 9, number 16]
    let errors : List (Undefinable ℚ) := [number 1, number 1, number 1, number 1, undefined]
    let smoothing : Undefinable ℚ := number (1 / 2)
    (Knots.ofList k.points).map Knots.points = .ok k.points ∧ 0 < smoothing ∧ smoothing < 1 ∧ undefined ∈ errors ∧
      ∃ row < 3, smooth k values errors smoothing = .error (.linear (.zeroPivot row)) := by
  intro k values errors smoothing
  have hpos : 0 < smoothing := by decide +kernel
  have hlt : smoothing < 1 := by decide +kernel
  have hmem : undefined ∈ errors := by decide
  have hvalues : values.length = k.size := rfl
  have herrors : errors.length = k.size := rfl
  exact ⟨by decide +kernel, hpos, hlt, hmem,
    smooth_refuses_undefined (by decide) hvalues herrors hpos hlt hmem⟩

end Spline
end LifetimeEfficiency
