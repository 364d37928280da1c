import LifetimeEfficiency.Proofs.Efficiency.Constructed
import LifetimeEfficiency.Proofs.Spline.Defined
/-!
# Defined efficiencies

An efficiency that a constructor gives has numbers as its values, and pieces of numbers, as soon as its coefficients are
numbers. Boundaries that increase are numbers, since nothing else can be compared, and no bin is without a width.
-/
namespace LifetimeEfficiency

open Undefinable (undefined number)

variable {K : Type} [Field K] [LinearOrder K]

namespace Undefinable

variable {x y : Undefinable K}

theorem exists_numbers_of_lt (h : x < y) : ∃ a b, a < b ∧ x = number a ∧ y = number b := by
  cases x with
  | undefined => exact h.elim
  | number a =>
    cases y with
    | undefined => exact h.elim
    | number b => exact ⟨a, b, h, rfl, rfl⟩

theorem ne_undefined_of_lt (h : x < y) : x ≠ undefined ∧ y ≠ undefined := by
  obtain ⟨a, b, -, rfl, rfl⟩ := exists_numbers_of_lt h
  exact ⟨nofun, nofun⟩

theorem ne_undefined_of_le (h : x ≤ y) : x ≠ undefined ∧ y ≠ undefined := by
  constructor
  · rintro rfl
    exact h
  · rintro rfl
    cases x <;> exact h

instance undefinable_ordered : Scalar.Ordered (Undefinable K) where
  lt_trans h h' := by
    obtain ⟨a, b, hab, rfl, rfl⟩ := exists_numbers_of_lt h
    obtain ⟨b', c, hbc, hb, rfl⟩ := exists_numbers_of_lt h'
    obtain rfl := Undefinable.number.inj hb
    exact hab.trans hbc
  lt_of_not_le hx hy h := by
    obtain ⟨a, rfl⟩ := exists_number (ne_undefined_of_isFinite hx)
    obtain ⟨b, rfl⟩ := exists_number (ne_undefined_of_isFinite hy)
    exact not_le.mp h

theorem ne_undefined_of_increasing {points : List (Undefinable K)} (h : Scalar.Increasing points) :
    ∀ x ∈ points, x ≠ undefined := by
  obtain ⟨htwo, hsorted⟩ := h
  match points, htwo with
  | a :: b :: points, _ =>
    obtain ⟨hfirst, -⟩ := List.pairwise_cons.mp hsorted
    intro x hx
    rcases List.mem_cons.mp hx with rfl | hx
    · exact (ne_undefined_of_lt (hfirst b List.mem_cons_self)).1
    · exact (ne_undefined_of_lt (hfirst x hx)).2

theorem sub_ne_zero_of_lt (h : x < y) : y - x ≠ 0 := by
  obtain ⟨a, b, hab, rfl, rfl⟩ := exists_numbers_of_lt h
  exact mt number_eq_zero_iff.mp (sub_ne_zero.mpr hab.ne')

end Undefinable

/-- Numbers everywhere. -/
structure Steps.Defined (s : Steps (Undefinable K)) : Prop where
  boundaries : ∀ b ∈ s.boundaries, b ≠ undefined
  heights : ∀ h ∈ s.heights, h ≠ undefined

structure Profile.Defined (p : Profile (Undefinable K)) : Prop where
  value : ∀ x, x ≠ undefined → p.value x ≠ undefined
  segments : ∀ lo hi, lo ≠ undefined → hi ≠ undefined → ∀ g ∈ p.segments lo hi, g.Defined

namespace Steps

variable {s : Steps (Undefinable K)}

theorem Defined.value (hs : s.Defined) (x : Undefinable K) : s.value x ≠ undefined := by
  have hheight := Undefinable.getD_ne_undefined hs.heights
  unfold Steps.value
  split_ifs
  · exact hheight 0
  · exact Undefinable.zero_ne_undefined
  · exact hheight _
  · exact Undefinable.zero_ne_undefined
  · exact hheight _

theorem Defined.segments (hs : s.Defined) {lo hi : Undefinable K} (hlo : lo ≠ undefined) (hhi : hi ≠ undefined) :
    ∀ g ∈ s.segments lo hi, g.Defined := by
  have hheight := Undefinable.getD_ne_undefined hs.heights
  intro g hg
  rw [Steps.segments, List.mem_append, List.mem_append] at hg
  rcases hg with (hg | hg) | hg
  · split at hg
    · obtain rfl := List.mem_singleton.mp hg
      exact ⟨hlo, by simp [hhi], Cubic.defined_constant (hheight 0)⟩
    · cases hg
  · obtain ⟨bin, hbin, rfl⟩ := List.mem_map.mp hg
    exact ⟨by simp [hlo], by simp [hhi], Cubic.defined_constant (hs.heights _ (List.of_mem_zip hbin).2)⟩
  · split at hg
    · obtain rfl := List.mem_singleton.mp hg
      exact ⟨by simp [hlo], hhi, Cubic.defined_constant (hheight _)⟩
    · cases hg

theorem Defined.profile (hs : s.Defined) : (Profile.steps s).Defined :=
  ⟨fun x _ => hs.value x, fun _ _ hlo hhi => hs.segments hlo hhi⟩

end Steps

theorem Curve.Defined.profile {c : Curve (Undefinable K)} (hc : c.Defined) : (Profile.curve c).Defined :=
  ⟨fun _ hx => hc.value hx, fun _ _ hlo hhi => hc.segments hlo hhi⟩

theorem Thresholds.defined_steps {t : Thresholds (Undefinable K) (Undefinable K)} (ht : t.Laid)
    (hfractions : ∀ f ∈ t.fractions, f ≠ undefined) : t.steps.Defined := by
  have hrest : t.lastFraction ≠ undefined := by
    simp [lastFraction, Undefinable.sum_ne_undefined hfractions]
  have hfraction (bin : Nat) : t.fraction bin ≠ undefined := by
    unfold fraction
    split
    · rename_i f hf
      exact hfractions f (List.mem_of_getElem? hf)
    · exact hrest
  constructor
  · exact Undefinable.ne_undefined_of_increasing ⟨(Nat.le_add_left 2 _).trans_eq ht.length.symm, ht.sorted⟩
  · refine List.forall_mem_map.mpr fun bin hbin => ?_
    have hnext : bin + 1 < t.boundaries.length := Nat.add_lt_of_lt_sub (List.mem_range.mp hbin)
    have hlt : t.boundaries[bin] < t.boundaries[bin + 1] :=
      List.pairwise_iff_getElem.mp ht.sorted _ _ _ _ (Nat.lt_succ_self bin)
    have hends := Undefinable.ne_undefined_of_lt hlt
    rw [height, List.getD_eq_getElem _ _ hnext, List.getD_eq_getElem _ _ (Nat.lt_of_succ_lt hnext)]
    simp [hfraction, hends, Undefinable.sub_ne_zero_of_lt hlt]

namespace Efficiency

variable {α : Type} {e : Efficiency (Undefinable K) α}

theorem Constructed.exists_ofList (he : e.Constructed) {k : Knots (Undefinable K)} {coefs : List α}
    (hshape : e.shape = .spline k coefs) : ∃ points, Knots.ofList points = .ok k := by
  cases he with
  | ofKnots hk h =>
    obtain ⟨-, rfl⟩ := ofKnots_eq_ok_iff.mp h
    cases hshape
    exact ⟨_, hk⟩
  | ofCoefs h =>
    obtain ⟨k', hk, h⟩ := bind_eq_ok_iff.mp h
    obtain ⟨-, rfl⟩ := ofKnots_eq_ok_iff.mp h
    cases hshape
    exact ⟨_, mapError_eq_ok_iff.mp hk⟩
  | ofBins h =>
    obtain ⟨u, hu, h⟩ := bind_eq_ok_iff.mp h
    split at h
    · cases h
      cases hshape
    · cases h
  | ofRange h =>
    obtain ⟨-, rfl⟩ := ofRange_eq_ok_iff.mp h
    cases hshape
  | addThreshold he h =>
    obtain ⟨t, t', -, ht', rfl⟩ := addThreshold?_eq_ok_iff.mp h
    cases hshape

theorem Constructed.defined (he : e.Constructed) {value : α → Undefinable K}
    (hvalue : ∀ q ∈ e.parameters, value q ≠ undefined) : (e.profile value).Defined := by
  have hwellFormed := he.wellFormed
  have hknots {k : Knots (Undefinable K)} {coefs : List α} (hshape : e.shape = .spline k coefs) :
      ∃ points, Knots.ofList points = .ok k := he.exists_ofList hshape
  obtain ⟨name, shape⟩ := e
  cases shape with
  | spline k coefs =>
    obtain ⟨points, hk⟩ := hknots rfl
    exact Curve.Defined.profile ⟨Knots.defined_of_ofList hk, List.forall_mem_map.mpr hvalue⟩
  | binned boundaries heights =>
    exact Steps.Defined.profile ⟨Undefinable.ne_undefined_of_increasing hwellFormed.1, List.forall_mem_map.mpr hvalue⟩
  | threshold t =>
    have ht : t.Laid := ⟨hwellFormed.2.2.2, hwellFormed.1⟩
    refine (Thresholds.defined_steps (ht.map value) ?_).profile
    rw [t.fractions_map]
    exact List.forall_mem_map.mpr hvalue

end Efficiency
end LifetimeEfficiency
