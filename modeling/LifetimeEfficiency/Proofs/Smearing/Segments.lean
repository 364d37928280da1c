import LifetimeEfficiency.Proofs.Smearing.Ideal
import LifetimeEfficiency.Proofs.Smearing.Convolution
/-!
# Segments in any order

The moments that are kept for a neighbour are those that would be computed afresh, whatever segments came before. So a segment
adds to every total what it adds to an empty one, the order of the segments does not matter, and each may be cut.
-/
namespace LifetimeEfficiency.Convolution

variable (s : Smearing ℝ) (c : Convolution ℝ)

/-- The total of a segment that nothing comes before. -/
noncomputable def contribution (g : Segment ℝ) : Complex ℝ := (c.addSegment s start g).sum

variable {s c} {g : Segment ℝ} {gs : List (Segment ℝ)}

theorem accurate_start : c.Accurate s start := by
  intro t m hkept
  cases hkept

theorem accurate_foldl {acc : Accumulator ℝ} (h : c.Accurate s acc) (gs : List (Segment ℝ)) :
    c.Accurate s (gs.foldl (c.addSegment s) acc) := by
  induction gs generalizing acc with
  | nil => exact h
  | cons g gs ih => exact ih (addSegment_spec s c h g).1

theorem toComplex_contribution (g : Segment ℝ) : (c.contribution s g).toComplex = c.increment s g := by
  rw [contribution, (addSegment_spec s c accurate_start g).2, start, Complex.toComplex_zero, zero_add]

theorem toComplex_foldl_add (zs : List (Complex ℝ)) (z : Complex ℝ) :
    (zs.foldl (· + ·) z).toComplex = z.toComplex + (zs.map Complex.toComplex).sum := by
  induction zs generalizing z with
  | nil => simp
  | cons w zs ih => rw [List.foldl_cons, ih, Complex.toComplex_add, List.map_cons, List.sum_cons, add_assoc]

theorem sum_filter_increment (gs : List (Segment ℝ)) :
    ((gs.filter fun g => g.lo < g.hi).map (c.increment s)).sum = (gs.map (c.increment s)).sum := by
  induction gs with
  | nil => rfl
  | cons g gs ih =>
    rw [List.map_cons, List.sum_cons, ← ih]
    by_cases hlt : g.lo < g.hi
    · rw [List.filter_cons_of_pos (by simpa using hlt), List.map_cons, List.sum_cons]
    · rw [List.filter_cons_of_neg (by simpa using hlt), increment, if_neg hlt, zero_add]

theorem increment_cut {lo mid hi : ℝ} (p : Cubic ℝ) (hleft : lo < mid) (hright : mid < hi) :
    c.increment s ⟨lo, mid, p⟩ + c.increment s ⟨mid, hi, p⟩ = c.increment s ⟨lo, hi, p⟩ := by
  simp only [increment, if_pos hleft, if_pos hright, if_pos (hleft.trans hright)]
  ring

/-- After any segments the kept moments are those at the kept point, and the total is the sum of what the segments that are
not skipped have as totals of their own. It is the same for every order of the segments, and with a segment cut at an inner
point. -/
theorem total_of_contributions (s : Smearing ℝ) (c : Convolution ℝ) (gs : List (Segment ℝ)) :
    c.Accurate s (gs.foldl (c.addSegment s) start) ∧
    c.total s gs = ((gs.filter fun g => g.lo < g.hi).map (c.contribution s)).foldl (· + ·) Complex.zero ∧
    (∀ gs' : List (Segment ℝ), gs'.Perm gs → c.total s gs' = c.total s gs) ∧
    ∀ before g after mid, gs = before ++ g :: after → g.lo < mid → mid < g.hi →
      c.total s (before ++ ⟨g.lo, mid, g.polynomial⟩ :: ⟨mid, g.hi, g.polynomial⟩ :: after) =
        c.total s gs := by
  refine ⟨accurate_foldl accurate_start gs, ?_, ?_, ?_⟩
  · apply Complex.toComplex_injective
    rw [toComplex_total, toComplex_foldl_add, Complex.toComplex_zero, zero_add, List.map_map,
      ← sum_filter_increment]
    simp only [Function.comp_def, toComplex_contribution]
  · intro gs' hperm
    apply Complex.toComplex_injective
    rw [toComplex_total, toComplex_total]
    exact (hperm.map _).sum_eq
  · rintro before g after mid rfl hleft hright
    apply Complex.toComplex_injective
    have hcut := increment_cut (s := s) (c := c) g.polynomial hleft hright
    simp only [toComplex_total, List.map_append, List.map_cons, List.sum_append, List.sum_cons]
    rw [← add_assoc (c.increment s _) (c.increment s _), hcut]

/-- One segment is inverted, one is given twice, and one reaches over another. -/
theorem total_of_contributions_at_overlaps :
    let s := Smearing.ideal
    let c : Convolution ℝ := ⟨2, 1, ⟨1, 2⟩⟩
    let p : Cubic ℝ := ⟨1, -2, 0, 3⟩
    let q : Cubic ℝ := ⟨0, 1, 0, 0⟩
    c.total s [⟨1, 3, p⟩, ⟨3, 2, q⟩, ⟨3, 4, q⟩, ⟨3, 4, q⟩, ⟨0, 2, p⟩] =
        [⟨1, 3, p⟩, ⟨3, 4, q⟩, ⟨3, 4, q⟩, ⟨0, 2, p⟩].foldl (fun z g => z + c.contribution s g) Complex.zero ∧
      c.total s [⟨0, 2, p⟩, ⟨3, 4, q⟩, ⟨3, 4, q⟩, ⟨3, 2, q⟩, ⟨1, 3, p⟩] =
        c.total s [⟨1, 3, p⟩, ⟨3, 2, q⟩, ⟨3, 4, q⟩, ⟨3, 4, q⟩, ⟨0, 2, p⟩] ∧
      (1 : ℝ) < 2 ∧ (2 : ℝ) < 3 ∧
      c.total s [⟨1, 2, p⟩, ⟨2, 3, p⟩, ⟨3, 2, q⟩, ⟨3, 4, q⟩, ⟨3, 4, q⟩, ⟨0, 2, p⟩] =
        c.total s [⟨1, 3, p⟩, ⟨3, 2, q⟩, ⟨3, 4, q⟩, ⟨3, 4, q⟩, ⟨0, 2, p⟩] := by
  intro s c p q
  obtain ⟨-, hsum, hperm, hcut⟩ := total_of_contributions s c
    [⟨1, 3, p⟩, ⟨3, 2, q⟩, ⟨3, 4, q⟩, ⟨3, 4, q⟩, ⟨0, 2, p⟩]
  have hleft : (1 : ℝ) < 2 := one_lt_two
  have hright : (2 : ℝ) < 3 := by norm_num
  refine ⟨?_, hperm _ ?_, hleft, hright, hcut [] ⟨1, 3, p⟩ _ 2 rfl hleft hright⟩
  · rw [hsum, List.foldl_map]
    congr 1
    norm_num [List.filter_cons]
  · exact List.reverse_perm (α := Segment ℝ) [⟨1, 3, p⟩, ⟨3, 2, q⟩, ⟨3, 4, q⟩, ⟨3, 4, q⟩, ⟨0, 2, p⟩]

end LifetimeEfficiency.Convolution
