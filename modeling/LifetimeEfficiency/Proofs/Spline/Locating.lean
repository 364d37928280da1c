import LifetimeEfficiency.Proofs.Extended
import LifetimeEfficiency.Proofs.Spline.Knots
/-!
# Locating numbers

In any total order, and with undefined numbers beside it, every number has one place: a side of the knots or an interval. The place
is told by comparisons alone, and no interval is beyond the last one.
-/
namespace LifetimeEfficiency

variable {K : Type} [Scalar K]

theorem bracket_of_not_le {points : List K} {x : K} (h : ∀ p ∈ points, ¬ p ≤ x) : bracket points x = 0 := by
  rw [bracket]
  cases hinner : points.dropLast with
  | nil => rfl
  | cons a inner =>
    have hmem : a ∈ points := (List.dropLast_sublist points).mem (hinner ▸ List.mem_cons_self)
    rw [List.takeWhile_cons_of_neg (by simpa using h a hmem)]
    rfl

namespace Knots

variable {k : Knots K} {x : K}

theorem locate_eq_left_iff : k.locate x = .left ↔ x < k.first := by
  by_cases hfirst : x < k.first
  · simp [locate, hfirst]
  · by_cases hlast : k.last < x <;> simp [locate, hfirst, hlast]

theorem locate_eq_interval (hfirst : ¬ x < k.first) (hlast : ¬ k.last < x) :
    k.locate x = .interval (bracket k.points x) := by
  rw [locate, if_neg hfirst, if_neg hlast]

theorem lt_intervals_of_locate (htwo : 2 ≤ k.size) {i : Nat} (h : k.locate x = .interval i) :
    i < k.intervals := by
  have hbound := bracket_lt htwo x
  rw [locate] at h
  split at h
  · cases h
  · split at h
    · cases h
    · cases h
      exact Nat.lt_sub_of_add_lt hbound

section

variable (h : Scalar.Increasing k.points)

open Scalar.Total

include h

theorem first_lt_last : k.first < k.last := by
  have htwo := h.two_le
  rw [k.first_eq_getElem (by omega), k.last_eq_getElem (by omega)]
  exact List.pairwise_iff_getElem.mp h.sorted _ _ _ _ (by omega)

variable [Scalar.Total K]

theorem locate_eq_right_iff : k.locate x = .right ↔ k.last < x := by
  by_cases hfirst : x < k.first
  · have hlast : ¬ k.last < x := by
      intro hlast
      have hwhole := Scalar.Ordered.lt_trans (first_lt_last h) hlast
      exact not_ge_of_lt hfirst (le_of_lt hwhole)
    simp [locate, hfirst, hlast]
  · by_cases hlast : k.last < x <;> simp [locate, hfirst, hlast]

theorem bracket_eq_iff (hfirst : k.first ≤ x) {i : Nat} : bracket k.points x = i ↔
    i < k.intervals ∧ (k.u i ≤ x ∧ x < k.u (i + 1) ∨ i + 1 = k.intervals ∧ k.last ≤ x) := by
  have htwo := h.two_le
  have hintervals : k.intervals = k.points.length - 1 := rfl
  have hu (n : Nat) (hn : n < k.points.length) : k.u n = k.points[n] := k.u_natCast hn
  have hlast : k.last = k.points[k.points.length - 1] := k.last_eq_getElem (by omega)
  constructor
  · rintro rfl
    rw [k.first_eq_getElem (by omega)] at hfirst
    obtain ⟨i, hi, heq, hle, hlt⟩ := bracket_spec h.sorted htwo hfirst
    rw [heq]
    rw [← hu i (by omega)] at hle
    refine ⟨by omega, ?_⟩
    rcases Nat.lt_or_ge (i + 2) k.points.length with hnext | hend
    · exact .inl ⟨hle, (hu (i + 1) hi).symm ▸ hlt hnext⟩
    · have hlast' : i + 1 = k.intervals := by omega
      have hdefined := (defined_of_le (le_of_lt (first_lt_last h))).2
      rcases lt_or_ge (defined_of_le hle).2 hdefined with hbelow | hat
      · exact .inl ⟨hle, (k.u_eq_last hlast').symm ▸ hbelow⟩
      · exact .inr ⟨hlast', hat⟩
  · rintro ⟨hi, ⟨hle, hlt⟩ | ⟨hend, hle⟩⟩
    · rw [hu i (by omega)] at hle
      have hu' : k.u (i + 1) = k.points[i + 1] := hu (i + 1) (by omega)
      exact bracket_eq h.sorted (by omega) hle fun _ => hu' ▸ hlt
    · rw [hlast] at hle
      have hbelow := List.pairwise_iff_getElem.mp h.sorted i (k.points.length - 1) (by omega) (by omega) (by omega)
      exact bracket_eq h.sorted (by omega) (le_trans (le_of_lt hbelow) hle) fun hnext => absurd hnext (by omega)

end

/-- A number is left of the knots if it is below the first one, and right of them if it is above the last one. Any other has the one
interval with the number between its ends, or the last one at the last knot, and the same gap of the points. No interval and no
gap is beyond the last one. A number that no comparison holds for gets the first. -/
theorem locate_exact [Scalar.Total K] {points : List K} (h : Scalar.Increasing points) (x : K) :
    let k : Knots K := ⟨points⟩
    (k.locate x = .left ↔ x < k.first) ∧ (k.locate x = .right ↔ k.last < x) ∧
      (k.first ≤ x → x ≤ k.last →
        k.locate x = .interval (bracket points x) ∧
          ∀ i : Nat, bracket points x = i ↔
            i < k.intervals ∧ (k.u i ≤ x ∧ x < k.u (i + 1) ∨ i + 1 = k.intervals ∧ k.last ≤ x)) ∧
      bracket points x < k.intervals ∧ (∀ i, k.locate x = .interval i → i < k.intervals) ∧
      ((∀ p ∈ points, ¬ x < p ∧ ¬ p < x ∧ ¬ p ≤ x) →
        k.locate x = .interval 0 ∧ bracket points x = 0) := by
  intro k
  have htwo : 2 ≤ k.size := h.two_le
  have hbound : bracket points x < k.intervals := Nat.lt_sub_of_add_lt (bracket_lt htwo x)
  refine ⟨locate_eq_left_iff, locate_eq_right_iff h, ?_, hbound, fun i => lt_intervals_of_locate htwo, ?_⟩
  · intro hfirst hlast
    have hleft : ¬ x < k.first := fun hlt => Scalar.Total.not_ge_of_lt hlt hfirst
    have hright : ¬ k.last < x := fun hlt => Scalar.Total.not_ge_of_lt hlt hlast
    exact ⟨locate_eq_interval hleft hright, fun i => bracket_eq_iff h hfirst⟩
  · intro hnone
    have hzero : bracket points x = 0 := bracket_of_not_le fun p hp => (hnone p hp).2.2
    have hfirst : k.first ∈ points := k.first_eq_getElem (Nat.zero_lt_of_lt htwo) ▸ List.getElem_mem _
    have hlast : k.last ∈ points := k.last_eq_getElem (Nat.zero_lt_of_lt htwo) ▸ List.getElem_mem _
    refine ⟨?_, hzero⟩
    rw [locate_eq_interval (hnone _ hfirst).1 (hnone _ hlast).2.1]
    exact congrArg Location.interval hzero

open Extended (number) in
theorem locate_exact_among_extended :
    let points : List (Extended ℚ) := [number 0, number 1, number 3]
    let k : Knots (Extended ℚ) := ⟨points⟩
    Scalar.Increasing points ∧ bracket points (number 3) = 1 ∧ bracket points (number 1) = 1 ∧
      k.locate .above = .right ∧ k.locate .below = .left ∧
      (∀ p ∈ points, ¬ Extended.undefined < p ∧ ¬ p < .undefined ∧ ¬ p ≤ .undefined) ∧
      k.locate .undefined = .interval 0 := by
  intro points k
  have h : Scalar.Increasing points := ⟨by decide, by decide⟩
  have hundefined : ∀ p ∈ points, ¬ Extended.undefined < p ∧ ¬ p < .undefined ∧ ¬ p ≤ .undefined := by
    decide
  obtain ⟨-, -, hlast, -⟩ := locate_exact h (number 3)
  obtain ⟨-, -, hinner, -⟩ := locate_exact h (number 1)
  obtain ⟨-, hright, -⟩ := locate_exact h .above
  obtain ⟨hleft, -⟩ := locate_exact h .below
  obtain ⟨-, -, -, -, -, hnone⟩ := locate_exact h .undefined
  refine ⟨h, ?_, ?_, hright.mpr rfl, hleft.mpr rfl, hundefined, (hnone hundefined).1⟩
  · exact ((hlast (by decide) (by decide)).2 1).mpr ⟨by decide, .inr ⟨rfl, by decide⟩⟩
  · exact ((hinner (by decide) (by decide)).2 1).mpr ⟨by decide, .inl ⟨by decide, by decide⟩⟩

end Knots

end LifetimeEfficiency
