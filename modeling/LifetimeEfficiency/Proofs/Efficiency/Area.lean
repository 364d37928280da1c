import LifetimeEfficiency.Proofs.Efficiency.Profile
import LifetimeEfficiency.Proofs.Overlap
import Mathlib.Algebra.BigOperators.Group.Finset.Basic
import Mathlib.Algebra.BigOperators.Ring.Finset
/-!
# Areas of step functions

What a range has in common with a bin is the distance of its ends once both are moved into the bin. Areas are differences of one
primitive, and add up.
-/
namespace LifetimeEfficiency

variable {K : Type} [Field K] [LinearOrder K]

namespace Steps

variable {s : Steps K} {i : Nat} {a b c x : K}

def moved (s : Steps K) (i : Nat) (x : K) : K := max (s.knots.u i) (min (s.knots.u (i + 1)) x)

def primitive (s : Steps K) (x : K) : K :=
  ∑ i ∈ Finset.range s.knots.intervals, s.heights.getD i 0 * s.moved i x

theorem moved_eq : s.moved i x = nearest (s.knots.u i) (s.knots.u (i + 1)) x := by
  rw [moved, min_comm, nearest]

theorem moved_of_le (h : x ≤ s.knots.u i) : s.moved i x = s.knots.u i := moved_eq.trans (nearest_of_le h)

theorem moved_of_ge (hs : s.Accepted) (h : s.knots.u (i + 1) ≤ x) : s.moved i x = s.knots.u (i + 1) :=
  moved_eq.trans (nearest_of_ge (hs.increasing.u_le (by omega)) h)

theorem moved_of_mem (hle : s.knots.u i ≤ x) (hge : x ≤ s.knots.u (i + 1)) : s.moved i x = x :=
  moved_eq.trans (nearest_of_mem hle hge)

variable [IsStrictOrderedRing K]

/-- The part of a rectangle over a range, as a difference at the ends of the overlap. -/
theorem overlap_area_eq (a b lo hi height : K) :
    (if 0 < min hi b - max lo a then (min hi b - max lo a) * height else 0) =
      if min hi b ≤ max lo a then 0 else height * min hi b - height * max lo a := by
  rw [← ite_not (min hi b ≤ max lo a)]
  refine if_congr ?_ ?_ rfl
  · rw [sub_pos, not_le]
  · rw [sub_mul, mul_comm height, mul_comm height]

theorem area_eq (hs : s.Accepted) (hab : a ≤ b) : s.area a b = s.primitive b - s.primitive a := by
  have hbins : s.area a b = ∑ i ∈ Finset.range s.knots.intervals,
      if 0 < min b (s.knots.u (i + 1)) - max a (s.knots.u i) then
        (min b (s.knots.u (i + 1)) - max a (s.knots.u i)) * s.heights.getD i 0 else 0 := by
    rw [area, Scalar.sum_eq, bins_eq hs, List.map_map, Scalar.exact_zero]
    rfl
  rw [hbins, primitive, primitive, ← Finset.sum_sub_distrib]
  refine Finset.sum_congr rfl fun i hi => ?_
  rw [overlap_area_eq, moved_eq, moved_eq]
  exact overlap_eq (s.heights.getD i 0 * ·) (hs.increasing.u_lt_succ (Finset.mem_range.mp hi)).le hab

theorem area_add (hs : s.Accepted) (hab : a ≤ b) (hbc : b ≤ c) :
    s.area a b + s.area b c = s.area a c := by
  rw [area_eq hs hab, area_eq hs hbc, area_eq hs (hab.trans hbc)]
  ring

theorem area_inside (hs : s.Accepted) (hi : i < s.knots.intervals) (hle : s.knots.u i ≤ a)
    (hab : a ≤ b) (hge : b ≤ s.knots.u (i + 1)) : s.area a b = (b - a) * s.heights.getD i 0 := by
  rw [area_eq hs hab, primitive, primitive, ← Finset.sum_sub_distrib,
    Finset.sum_eq_single_of_mem i (Finset.mem_range.mpr hi)]
  · rw [moved_of_mem hle (hab.trans hge), moved_of_mem (hle.trans hab) hge]
    ring
  · intro j _ hj
    rcases Nat.lt_or_gt_of_ne hj with hji | hij
    · have hbefore : s.knots.u (j + 1) ≤ a := (hs.increasing.u_le (by omega)).trans hle
      rw [moved_of_ge hs hbefore, moved_of_ge hs (hbefore.trans hab), sub_self]
    · have hafter : b ≤ s.knots.u j := hge.trans (hs.increasing.u_le (by omega))
      rw [moved_of_le hafter, moved_of_le (hab.trans hafter), sub_self]

theorem area_outside (hs : s.Accepted) (hab : a ≤ b) (h : b ≤ s.knots.first ∨ s.knots.last ≤ a) :
    s.area a b = 0 := by
  rw [area_eq hs hab, sub_eq_zero]
  refine Finset.sum_congr rfl fun i _ => ?_
  rcases h with hb | ha
  · have hfirst := hb.trans (hs.increasing.first_le (i := i))
    rw [moved_of_le hfirst, moved_of_le (hab.trans hfirst)]
  · have hlast := (hs.increasing.le_last (i + 1)).trans ha
    rw [moved_of_ge hs hlast, moved_of_ge hs (hlast.trans hab)]

theorem area_total (hs : s.Accepted) : s.area s.knots.first s.knots.last =
    ∑ i ∈ Finset.range s.knots.intervals, s.heights.getD i 0 * s.knots.width i := by
  have hle : s.knots.first ≤ s.knots.last := hs.increasing.le_last 0
  rw [area_eq hs hle, primitive, primitive, ← Finset.sum_sub_distrib]
  refine Finset.sum_congr rfl fun i _ => ?_
  rw [moved_of_le hs.increasing.first_le, moved_of_ge hs (hs.increasing.le_last _), ← mul_sub]
  rfl

end Steps
end LifetimeEfficiency
