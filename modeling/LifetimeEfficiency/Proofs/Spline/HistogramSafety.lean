import LifetimeEfficiency.Proofs.Outcome
import LifetimeEfficiency.Proofs.Spline.Exponential
import LifetimeEfficiency.Proofs.Spline.ExtendedKnots
import LifetimeEfficiency.Spline.HistogramFit
/-!
# Histogram fits do not fail

The first wrong bin is reported. If there is none, the edges of all bins are numbers between the outer knots, and a bin and an interval either
do not overlap or do so over a positive width, which is what the integrals ask for. Contents and errors are not needed to
be numbers.
-/
namespace LifetimeEfficiency

open Extended (number)

section Checks

variable {K : Type} [Scalar K] {k : Knots K}

namespace Bin

structure Usable (k : Knots K) (b : Bin K) : Prop where
  ordered : b.low < b.high
  first : ¬ b.low < k.first
  last : ¬ k.last < b.high
  error : 0 < b.error

variable {b : Bin K}

end Bin

namespace DecayFunctions

variable {d : DecayFunctions K} {gamma w : K} {q : Cubic K}

end DecayFunctions

end Checks

/-! Bins with infinite or undefined edges, contents and errors. -/

section Infinities

variable {K : Type} [Field K] [LinearOrder K]

/-- What the integrals over a bin and the weight of its content rely on. -/
structure Bin.Safe (d : DecayFunctions (Extended K)) (k : Knots (Extended K)) (gamma : Extended K)
    (b : Bin (Extended K)) : Prop where
  forwards : ∀ i : Nat, i < k.intervals → ¬ min b.high (k.u (i + 1)) ≤ max b.low (k.u i) →
    max b.low (k.u i) ≤ min b.high (k.u (i + 1))
  argument : ∀ i : Nat, i < k.intervals → ¬ min b.high (k.u (i + 1)) ≤ max b.low (k.u i) →
    ∃ x : K, 0 < x ∧ gamma * (min b.high (k.u (i + 1)) - max b.low (k.u i)) = number x
  norm : 0 < b.norm d gamma
  square : 0 < b.error * b.error

theorem Bin.Usable.exists_edges {k : Knots K} {b : Bin (Extended K)} (h : b.Usable k.numbers) :
    ∃ lo hi : K, lo < hi ∧ b.low = number lo ∧ b.high = number hi := by
  have hfirst := h.first
  have hlast := h.last
  rw [Knots.first_numbers] at hfirst
  rw [Knots.last_numbers] at hlast
  obtain ⟨lo, hlo, -⟩ := Extended.exists_number_of_lt h.ordered hfirst
  obtain ⟨hi, hhi, -⟩ := Extended.exists_number_of_gt h.ordered hlast
  refine ⟨lo, hi, Extended.number_lt.mp ?_, hlo, hhi⟩
  rw [← hlo, ← hhi]
  exact h.ordered

theorem Bin.Usable.safe [IsStrictOrderedRing K] {d : DecayFunctions (Extended K)}
    (hexp : ∀ x y : K, x < y → d.exp (number x) < d.exp (number y)) {k : Knots K} {g : K} (hg : 0 < g)
    {b : Bin (Extended K)} (h : b.Usable k.numbers) : b.Safe d k.numbers (number g) := by
  obtain ⟨lo, hi, hlt, hlo, hhi⟩ := h.exists_edges
  have hstart (i : Nat) : max b.low (k.numbers.u i) = number (max lo (k.u i)) := by
    rw [hlo, Knots.u_numbers, Extended.max_number]
  have hend (i : Nat) : min b.high (k.numbers.u (i + 1)) = number (min hi (k.u (i + 1))) := by
    rw [hhi, Knots.u_numbers, Extended.min_number]
  have hmet {i : Nat} (h : ¬ min b.high (k.numbers.u (i + 1)) ≤ max b.low (k.numbers.u i)) :
      max lo (k.u i) < min hi (k.u (i + 1)) := by
    rwa [hstart, hend, Extended.number_le, not_le] at h
  refine ⟨fun i _ h => ?_, fun i _ h => ?_, ?_, Extended.zero_lt_mul_self h.error⟩
  · rw [hstart, hend, Extended.number_le]
    exact (hmet h).le
  · refine ⟨g * (min hi (k.u (i + 1)) - max lo (k.u i)), mul_pos hg (sub_pos.mpr (hmet h)), ?_⟩
    rw [hstart, hend, Extended.number_sub, Extended.number_mul]
  · rw [norm, hlo, hhi]
    refine Extended.zero_lt_div (Extended.zero_lt_sub (hexp _ _ ?_)) hg
    exact mul_lt_mul_of_neg_left hlt (neg_neg_of_pos hg)

section Integrals

variable {d : DecayFunctions (Extended K)}
  (hdomain : ∀ n (x : K), (d.lowerGamma n (number x)).isSome ↔ 0 < n ∧ 0 < x)

include hdomain

end Integrals

/-- The exponential continued by its limits. The incomplete gamma functions are not continued. -/
def DecayFunctions.extended (d : DecayFunctions K) : DecayFunctions (Extended K) where
  exp
    | .number x => .number (d.exp x)
    | .above => .above
    | .below => .number 0
    | .undefined => .undefined
  lowerGamma n
    | .number x => (d.lowerGamma n x).map .number
    | .undefined => some .undefined
    | _ => none

end Infinities

end LifetimeEfficiency
