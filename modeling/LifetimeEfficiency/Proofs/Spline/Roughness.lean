import LifetimeEfficiency.Proofs.Banded.Factors
import LifetimeEfficiency.Proofs.Spline.Definiteness
/-!
# Roughness and distance

Values have a roughness, which is the form of their curvatures. More smoothing can only lower it and only move the result further from the
data: each result is the better one for its own weight, and the two comparisons leave no other order.
-/
namespace LifetimeEfficiency

open Matrix

variable {K : Type} [Field K] [LinearOrder K] [IsStrictOrderedRing K]

namespace Knots

/-- An entry of the system of a natural spline: sums of widths on the diagonal, the width between two knots beside it. -/
def curvatureEntry (k : Knots K) (i j : Nat) : K :=
  if j + 1 = i then k.width i else if j = i then k.p (i + 1) else if j = i + 1 then k.width j else 0

def curvatureMatrix (k : Knots K) : Matrix (Fin (k.size - 2)) (Fin (k.size - 2)) K :=
  Banded.matrix (k.size - 2) k.curvatureEntry

/-- Half the second derivatives at the inner knots of the natural spline through values. -/
noncomputable def curvatures (k : Knots K) (v : List K) : Fin (k.size - 2) → K :=
  k.curvatureMatrix⁻¹ *ᵥ fun i => (Spline.secondDifferences k v).getD i 0

noncomputable def roughness (k : Knots K) (v : List K) : K :=
  k.curvatures v ⬝ᵥ k.curvatureMatrix *ᵥ k.curvatures v

section Rows

variable {k : Knots K} {β : Nat → K} (hfirst : β 0 = 0) (hlast : β (k.size - 1) = 0)

include hfirst hlast

theorem curvatureMatrix_mulVec (i : Fin (k.size - 2)) :
    (k.curvatureMatrix *ᵥ fun j => β (j + 1)) i =
      k.width i * β i + k.p (i + 1) * β (i + 1) + k.width (i + 1) * β (i + 2) := by
  have hentry (j : Nat) : k.curvatureEntry i j * β (j + 1) =
      (if j + 1 = i then k.width (j + 1 : Nat) * β (j + 1) else 0) +
        (if j = i then k.p (j + 1) * β (j + 1) else 0) +
        (if j = i + 1 then k.width j * β (j + 1) else 0) := by
    unfold curvatureEntry
    grind
  have hbelow := Banded.sum_left (m := 1) i.isLt (f := fun j => k.width j * β j) fun j hj => by
    rw [Nat.lt_one_iff.mp hj, hfirst, mul_zero]
  have habove : (if (i + 1 : Nat) ∈ Finset.range (k.size - 2) then k.width (i + 1 : Nat) * β (i + 2) else 0) =
      k.width (i + 1) * β (i + 2) := by
    split_ifs with hlt
    · rw [Nat.cast_succ]
    · have hi : (i : Nat) + 2 = k.size - 1 := by
        rw [Finset.mem_range] at hlt
        omega
      rw [hi, hlast, mul_zero]
  have hrow : (k.curvatureMatrix *ᵥ fun j => β (j + 1)) i =
      ∑ j ∈ Finset.range (k.size - 2), k.curvatureEntry i j * β (j + 1) := by
    rw [Finset.sum_range]
    rfl
  rw [hrow, Finset.sum_congr rfl fun j _ => hentry j, Finset.sum_add_distrib, Finset.sum_add_distrib, hbelow,
    Finset.sum_ite_eq', Finset.sum_ite_eq', habove, if_pos (Finset.mem_range.mpr i.isLt)]

theorem dotProduct_curvatureMatrix (hn : 2 ≤ k.size) :
    (fun i : Fin (k.size - 2) => β (i + 1)) ⬝ᵥ k.curvatureMatrix *ᵥ (fun i => β (i + 1)) =
      k.bending (k.size - 2) β β := by
  have hsize : k.size - 2 + 1 = k.size - 1 := by omega
  rw [k.bending_eq (k.size - 2) β hfirst (hsize ▸ hlast), Finset.sum_range, dotProduct]
  refine Finset.sum_congr rfl fun i _ => ?_
  rw [curvatureMatrix_mulVec hfirst hlast]

end Rows

variable {k : Knots K} {v : List K} {β : Nat → K}

theorem eq_zero_of_bending_eq_zero {n : Nat} (hk : k.Increasing) (hn : k.size = n + 2)
    (h : k.bending n β β = 0) {i : Nat} (hi : i < n + 1) : β i = 0 := by
  -- No term of the form is negative, and none vanishes unless both of its curvatures do.
  have hmem := Finset.mem_range.mpr hi
  have hterm := (Finset.sum_eq_zero_iff_of_nonneg fun j hj => bending_term_nonneg hk hn β hj).mp h i hmem
  have hwidth := hk.width_pos (intervals_eq hn ▸ hi)
  have hform := (mul_eq_zero.mp hterm).resolve_left hwidth.ne'
  nlinarith [sq_nonneg (β i), sq_nonneg (β (i + 1)), sq_nonneg (β i + β (i + 1))]

omit [IsStrictOrderedRing K] in
theorem exists_curvatures (hk : k.Increasing) (b : Fin (k.size - 2) → K) :
    ∃ β : Nat → K, β 0 = 0 ∧ β (k.size - 1) = 0 ∧ b = fun i : Fin (k.size - 2) => β (i + 1) := by
  have htwo := hk.two_le
  refine ⟨Spline.padded (List.ofFn b), rfl, Spline.padded_eq_zero ?_, ?_⟩
  · rw [List.length_ofFn]
    omega
  · funext i
    simp [Spline.padded]

theorem det_curvatureMatrix_ne_zero (hk : k.Increasing) : k.curvatureMatrix.det ≠ 0 := by
  intro hdet
  obtain ⟨n, hn⟩ := Nat.exists_eq_add_of_le' hk.two_le
  have hm : k.size - 2 = n := by omega
  obtain ⟨b, hne, hzero⟩ := exists_mulVec_eq_zero_iff.mpr hdet
  obtain ⟨β, hfirst, hlast, rfl⟩ := exists_curvatures hk b
  apply hne
  funext i
  have hform := dotProduct_curvatureMatrix hfirst hlast hk.two_le
  rw [hzero, dotProduct_zero, hm] at hform
  exact eq_zero_of_bending_eq_zero hk hn hform.symm (by omega)

theorem curvatureMatrix_mulVec_curvatures (hk : k.Increasing) (v : List K) :
    k.curvatureMatrix *ᵥ k.curvatures v =
      fun i : Fin (k.size - 2) => (Spline.secondDifferences k v).getD i 0 := by
  rw [curvatures, mulVec_mulVec, mul_nonsing_inv _ (det_curvatureMatrix_ne_zero hk).isUnit, one_mulVec]

theorem exists_halfCurvatures (hk : k.Increasing) (v : List K) :
    ∃ β, k.HalfCurvatures (fun i => v.getD i 0) β ∧ k.roughness v = k.bending (k.size - 2) β β := by
  obtain ⟨n, hn⟩ := Nat.exists_eq_add_of_le' hk.two_le
  obtain ⟨β, hfirst, hlast, hb⟩ := exists_curvatures hk (k.curvatures v)
  refine ⟨β, ⟨hfirst, hlast, fun {i} hi => ?_⟩, ?_⟩
  · have hrow := congrFun (curvatureMatrix_mulVec_curvatures hk v) ⟨i, by omega⟩
    rw [hb, curvatureMatrix_mulVec hfirst hlast] at hrow
    exact hrow.trans (Spline.getD_secondDifferences hn (by omega))
  · rw [roughness, hb, dotProduct_curvatureMatrix hfirst hlast hk.two_le]

end Knots
namespace Spline

variable {k : Knots K} {values errors z : List K} {smoothing : K}

omit [IsStrictOrderedRing K] in
theorem smooth_cases (h : smooth k values errors smoothing = .ok z) :
    (k.size < 3 ∨ smoothing = 0) ∧ z = values ∨ 3 ≤ k.size ∧ 0 < smoothing ∧ smoothing < 1 := by
  rcases smooth_outcome k errors smoothing values.length with ⟨e, herror⟩ | ⟨hmore, hsame⟩ | ⟨hrange, -⟩
  · rw [herror values rfl] at h
    cases h
  · left
    rw [hsame values rfl] at h
    cases h
    exact ⟨hmore, rfl⟩
  · exact .inr hrange

omit [IsStrictOrderedRing K] in
theorem curvatureWeight_zero : curvatureWeight (0 : K) = 0 := by
  simp [curvatureWeight]

theorem curvatureWeight_lt {s t : K} (hlt : s < t) (ht : t < 1) :
    curvatureWeight s < curvatureWeight t := by
  have hs : 0 < 1 - s := sub_pos.mpr (hlt.trans ht)
  have ht' : 0 < 1 - t := sub_pos.mpr ht
  simp only [curvatureWeight, Scalar.exact_ofNat, Scalar.exact_one]
  rw [div_lt_div_iff₀ (by positivity) (by positivity)]
  linarith

/-- How far values are from the data, in units of the errors. -/
def distance (k : Knots K) (values errors v : List K) : K :=
  misfit (fun i => values.getD i 0) (fun i => errors.getD i 0) (fun i => v.getD i 0) k.size

/-- With the weight of its own smoothing a result costs no more than any other values. -/
theorem cost_le (hk : k.Increasing) (h3 : 3 ≤ k.size) (herrors : ∀ σ ∈ errors, 0 < σ)
    (h : smooth k values errors smoothing = .ok z) (v : List K) :
    distance k values errors z + curvatureWeight smoothing * k.roughness z ≤
      distance k values errors v + curvatureWeight smoothing * k.roughness v := by
  rcases smooth_cases h with ⟨hfew | rfl, rfl⟩ | ⟨-, hpos, hlt⟩
  · exact absurd hfew (Nat.not_lt.mpr h3)
  · rw [curvatureWeight_zero, zero_mul, zero_mul, add_zero, add_zero]
    have hsame : distance k z errors z = 0 := by
      simp [distance, misfit]
    rw [hsame]
    exact misfit_nonneg _ _ _ _
  · obtain ⟨n, hn⟩ := Nat.exists_eq_add_of_le' hk.two_le
    have hm : k.size - 2 = n := by omega
    have hlength : errors.length = n + 2 := ((smooth_eq_ok_iff h3 hpos hlt).mp h).2.1.trans hn
    have hσ (i : Nat) (hi : i < n + 2) : errors.getD i 0 ≠ 0 := by
      rw [List.getD_eq_getElem _ _ (hlength ▸ hi)]
      exact (herrors _ (List.getElem_mem _)).ne'
    obtain ⟨-, b, hb, hend, hz⟩ := tension_of_smooth hn (by omega) hpos hlt h
    simp only [variance, Scalar.exact_zero] at hz
    obtain ⟨β, hβ, hrough⟩ := k.exists_halfCurvatures hk z
    obtain ⟨γ, hγ, hrough'⟩ := k.exists_halfCurvatures hk v
    have henergy := energy_eq hn hσ hβ hγ hb hend hz
    have hapart := misfit_nonneg (fun i => v.getD i 0) (fun i => errors.getD i 0) (fun i => z.getD i 0)
      (n + 2)
    have hbend := mul_nonneg (curvatureWeight_nonneg hpos.le hlt)
      (k.bending_nonneg hk hn fun i => γ i - β i)
    rw [distance, distance, hrough, hrough', hm, hn]
    linarith

/-- If each of two results costs less with its own weight, the heavier weight has the lesser roughness and the lighter one the lesser
distance. -/
theorem le_of_costs {d₁ d₂ r₁ r₂ w₁ w₂ : K} (hpos : 0 ≤ w₁) (hlt : w₁ < w₂)
    (h₁ : d₁ + w₁ * r₁ ≤ d₂ + w₁ * r₂) (h₂ : d₂ + w₂ * r₂ ≤ d₁ + w₂ * r₁) : r₂ ≤ r₁ ∧ d₁ ≤ d₂ := by
  have hgain : 0 ≤ (w₂ - w₁) * (r₁ - r₂) := by linarith
  have hless : 0 ≤ r₁ - r₂ := nonneg_of_mul_nonneg_right hgain (sub_pos.mpr hlt)
  have hweighed := mul_nonneg hpos hless
  exact ⟨sub_nonneg.mp hless, by linarith⟩

/-- More smoothing gives a result that is no rougher and no closer to the data. -/
theorem smooth_monotone {points z₁ z₂ : List K} {s₁ s₂ : K} (hk : Knots.ofList points = .ok k)
    (h3 : 3 ≤ points.length) (herrors : ∀ σ ∈ errors, 0 < σ) (hle : s₁ ≤ s₂)
    (h₁ : smooth k values errors s₁ = .ok z₁) (h₂ : smooth k values errors s₂ = .ok z₂) :
    k.curvatureMatrix.det ≠ 0 ∧ k.roughness z₂ ≤ k.roughness z₁ ∧
      distance k values errors z₁ ≤ distance k values errors z₂ := by
  obtain ⟨rfl, hinc⟩ := Knots.ofList_eq_ok_iff.mp hk
  refine ⟨Knots.det_curvatureMatrix_ne_zero hinc, ?_⟩
  have hrange {s : K} {z : List K} (h : smooth k values errors s = .ok z) : 0 ≤ s ∧ s < 1 := by
    rcases smooth_cases h with ⟨hfew | rfl, -⟩ | ⟨-, hpos, hlt⟩
    · exact absurd hfew (Nat.not_lt.mpr h3)
    · exact ⟨le_rfl, zero_lt_one⟩
    · exact ⟨hpos.le, hlt⟩
  rcases hle.eq_or_lt with rfl | hlt
  · obtain rfl : z₁ = z₂ := Except.ok.inj (h₁.symm.trans h₂)
    exact ⟨le_rfl, le_rfl⟩
  · have hweight := curvatureWeight_nonneg (hrange h₁).1 (hrange h₁).2
    exact le_of_costs hweight (curvatureWeight_lt hlt (hrange h₂).2) (cost_le hinc h3 herrors h₁ z₂)
      (cost_le hinc h3 herrors h₂ z₁)

theorem smooth_monotone_at_four_knots :
    let k : Knots ℚ := ⟨[0, 1, 3, 4]⟩
    let z₁ : List ℚ := [103 / 354, 139 / 177, 88 / 177, 271 / 354]
    let z₂ : List ℚ := [3735 / 11426, 2667 / 5713, 3384 / 5713, 8159 / 11426]
    Knots.ofList [0, 1, 3, 4] = .ok k ∧
      smooth k [0, 3, 0, 1] [1, 2, 1, 1] (1 / 4) = .ok z₁ ∧
      smooth k [0, 3, 0, 1] [1, 2, 1, 1] (3 / 4) = .ok z₂ ∧
      k.curvatureMatrix.det ≠ 0 ∧ k.roughness z₂ ≤ k.roughness z₁ ∧
      distance k [0, 3, 0, 1] [1, 2, 1, 1] z₁ ≤ distance k [0, 3, 0, 1] [1, 2, 1, 1] z₂ := by
  intro k z₁ z₂
  have hk : Knots.ofList [0, 1, 3, 4] = .ok k :=
    Knots.ofList_eq_ok_iff.mpr ⟨rfl, ⟨by decide, by decide⟩⟩
  have herrors : ∀ σ ∈ ([1, 2, 1, 1] : List ℚ), 0 < σ := by
    decide
  have h₁ : smooth k [0, 3, 0, 1] [1, 2, 1, 1] (1 / 4) = .ok z₁ := by
    decide +kernel
  have h₂ : smooth k [0, 3, 0, 1] [1, 2, 1, 1] (3 / 4) = .ok z₂ := by
    decide +kernel
  have hle : (1 / 4 : ℚ) ≤ 3 / 4 := by norm_num
  exact ⟨hk, h₁, h₂, smooth_monotone hk (by decide) herrors hle h₁ h₂⟩

end Spline
end LifetimeEfficiency
