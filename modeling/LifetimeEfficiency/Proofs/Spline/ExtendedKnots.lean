import LifetimeEfficiency.Proofs.Extended
import LifetimeEfficiency.Proofs.Spline.Knots
import Mathlib.Data.Set.List
/-!
# Accepted knots among numbers with infinities

A list that is accepted holds numbers alone, and those are knots of exact arithmetic. Windows and spacings are the ones of these knots.
-/
namespace LifetimeEfficiency

open Extended (number)

variable {K : Type} [Field K] [LinearOrder K]

namespace Spacing

structure Positive {L : Type} [Scalar L] (g : Spacing L) : Prop where
  p : 0 < g.p
  q : 0 < g.q
  r : 0 < g.r
  s : 0 < g.s

end Spacing

namespace Knots

def numbers (k : Knots K) : Knots (Extended K) := ⟨k.points.map number⟩

variable (k : Knots K)

omit [Field K] [LinearOrder K] in
@[simp] theorem size_numbers : k.numbers.size = k.size := List.length_map number

omit [Field K] [LinearOrder K] in
@[simp] theorem intervals_numbers : k.numbers.intervals = k.intervals := by
  rw [intervals, size_numbers, intervals]

@[simp] theorem u_numbers (i : Int) : k.numbers.u i = number (k.u i) := by
  rw [u, size_numbers, Extended.zero_eq, u_eq_getD]
  exact List.getD_map k.points (0 : K) number

@[simp] theorem first_numbers : k.numbers.first = number k.first := k.u_numbers 0

@[simp] theorem last_numbers : k.numbers.last = number k.last := by
  rw [last, size_numbers, u_numbers, last]

theorem spacing_numbers (i : Int) :
    k.numbers.spacing i =
      ⟨number (k.spacing i).p, number (k.spacing i).q, number (k.spacing i).r, number (k.spacing i).s⟩ := by
  simp only [spacing, window, Spacing.ofWindow, u_numbers, Extended.number_sub, Extended.number_mul]

theorem Increasing.positive_spacing [IsStrictOrderedRing K] {k : Knots K} (h : k.Increasing) {i : Nat}
    (hi : i < k.intervals) : (k.numbers.spacing i).Positive := by
  obtain ⟨hp, hq, hr, hs⟩ := spacing_pos (h.window_ordered hi)
  rw [spacing_numbers]
  constructor
  all_goals rwa [Extended.zero_lt_number]

theorem firstDescent_numbers (points : List K) : firstDescent (points.map number) = firstDescent points := by
  rw [firstDescent, ← List.map_tail, List.zip_map, List.findIdx?_map]
  refine congrArg (fun p => List.findIdx? p _) (funext fun ab => ?_)
  exact decide_eq_decide.mpr Extended.number_le

theorem isUsable_numbers (i : Int) : (k.numbers.spacing i).isUsable = (k.spacing i).isUsable := by
  rw [spacing_numbers, Spacing.isUsable, Spacing.isUsable, Extended.zero_eq, Scalar.exact_zero]
  simp only [List.all_cons, List.all_nil, Extended.number_beq, Extended.isFinite_number, Scalar.exact_isFinite]

theorem exists_numbers {points : List (Extended K)} (h : Scalar.Usable points) :
    ∃ j : Knots K, j.Increasing ∧ points = j.numbers.points := by
  have hnumbers : points ∈ Set.range (List.map (number (K := K))) := by
    rw [Set.range_list_map]
    intro x hx
    obtain ⟨a, rfl⟩ := Extended.isFinite_iff.mp (h.finite x hx)
    exact ⟨a, rfl⟩
  obtain ⟨xs, rfl⟩ := hnumbers
  obtain ⟨⟨htwo, hsorted⟩, -⟩ := h
  refine ⟨⟨xs⟩, ⟨by rwa [List.length_map] at htwo, ?_⟩, rfl⟩
  rw [List.pairwise_map] at hsorted
  exact hsorted.imp fun hlt => Extended.number_lt.mp hlt

theorem ofList_eq_ok_iff_numbers [IsStrictOrderedRing K] {points : List (Extended K)} {k : Knots (Extended K)} :
    ofList points = .ok k ↔ k.points = points ∧ ∃ j : Knots K, j.Increasing ∧ k = j.numbers := by
  constructor
  · intro h
    obtain ⟨rfl, -, hfinite, -⟩ := checked_of_ofList h
    obtain ⟨j, hj, hpoints⟩ := exists_numbers ⟨increasing_of_ofList h, hfinite⟩
    exact ⟨rfl, j, hj, congrArg Knots.mk hpoints⟩
  · rintro ⟨rfl, j, hj, rfl⟩
    have hdescent : firstDescent j.numbers.points = none := by
      rw [numbers, firstDescent_numbers, firstDescent_eq_none_iff]
      exact hj.sorted
    have hspacing (i : Nat) (hi : i < j.numbers.intervals) : (j.numbers.spacing i).isUsable = true := by
      rw [intervals_numbers] at hi
      rw [isUsable_numbers, spacing_isUsable hj hi]
    have htwo : 2 ≤ j.numbers.size := j.size_numbers ▸ hj.two_le
    have hfinite : ∀ x ∈ j.numbers.points, Scalar.isFinite x = true := List.forall_mem_map.mpr fun _ _ => rfl
    exact ofList_of_checked htwo hfinite hdescent hspacing

end Knots
end LifetimeEfficiency
