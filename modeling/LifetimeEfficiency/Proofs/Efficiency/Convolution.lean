import LifetimeEfficiency.Proofs.Efficiency.Constructed
import LifetimeEfficiency.Proofs.Smearing.Ideal
import LifetimeEfficiency.Proofs.Smearing.Pieces
/-!
# Convolutions integrate

The pieces of a profile share one primitive. A convolution is the difference of its values at the ends of the range, and its
derivative is the profile times the kernel.
-/
namespace LifetimeEfficiency

namespace Profile

noncomputable def innerPiece (p : Profile ℝ) (i : Nat) : Piece ℝ :=
  ⟨.between (p.knots.u i) (p.knots.u (i + 1)), p.inner i⟩

noncomputable def pieces (p : Profile ℝ) : List (Piece ℝ) :=
  ⟨.below p.knots.first, p.left⟩ :: (List.range p.knots.intervals).map p.innerPiece ++
    [⟨.above p.knots.last, p.right⟩]

theorem sum_pieces {M : Type} [AddCommMonoid M] (f : Piece ℝ → M) (p : Profile ℝ) :
    (p.pieces.map f).sum = f ⟨.below p.knots.first, p.left⟩ +
      ((List.range p.knots.intervals).map fun i => f (p.innerPiece i)).sum +
      f ⟨.above p.knots.last, p.right⟩ := by
  simp [pieces, Function.comp_def, add_assoc]

noncomputable def primitive (s : Smearing ℝ) (c : Convolution ℝ) (p : Profile ℝ) (t : ℝ) : ℂ :=
  (p.pieces.map fun g => g.primitive s c t).sum

variable {p : Profile ℝ}

theorem Accepted.ordered (hp : p.Accepted) {g : Piece ℝ} (hg : g ∈ p.pieces) : g.span.Ordered := by
  have hinc := hp.increasing
  rw [pieces, List.mem_append, List.mem_cons, List.mem_map, List.mem_singleton] at hg
  obtain (rfl | ⟨i, hi, rfl⟩) | rfl := hg
  · trivial
  · exact (hinc.u_lt_succ (List.mem_range.mp hi)).le
  · trivial

theorem Accepted.ends_subset (hp : p.Accepted) {g : Piece ℝ} (hg : g ∈ p.pieces) :
    g.span.ends ⊆ p.boundaries := by
  have hinc := hp.increasing
  rw [pieces, List.mem_append, List.mem_cons, List.mem_map, List.mem_singleton] at hg
  rw [boundaries_eq]
  intro t ht
  obtain (rfl | ⟨i, hi, rfl⟩) | rfl := hg
  · obtain rfl := List.mem_singleton.mp ht
    exact hinc.u_mem 0
  · obtain rfl | ht := List.mem_cons.mp ht
    · exact hinc.u_mem i
    · obtain rfl := List.mem_singleton.mp ht
      exact hinc.u_mem (i + 1)
  · obtain rfl := List.mem_singleton.mp ht
    exact hinc.u_mem _

theorem sum_inner_eq_zero {t : ℝ}
    (ht : ∀ i < p.knots.intervals, ¬ (p.innerPiece i).span.Contains t) :
    ((List.range p.knots.intervals).map fun i => (p.innerPiece i).value t).sum = 0 := by
  apply List.sum_eq_zero
  intro x hx
  obtain ⟨i, hi, rfl⟩ := List.mem_map.mp hx
  exact Piece.value_of_not_contains (ht i (List.mem_range.mp hi))

/-- A number lies inside one interval at most. -/
theorem sum_inner_eq (hinc : p.knots.Increasing) {i : Nat} (hi : i < p.knots.intervals) {t : ℝ}
    (ht : (p.innerPiece i).span.Contains t) :
    ((List.range p.knots.intervals).map fun j => (p.innerPiece j).value t).sum =
      (p.inner i).value t := by
  have hothers (j : Nat) (hj : j ≠ i) (_ : j ∈ List.range p.knots.intervals) :
      (p.innerPiece j).value t = 0 := by
    apply Piece.value_of_not_contains
    intro h
    rcases Nat.lt_or_gt_of_ne hj with hji | hij
    · exact (h.2.trans_le (hinc.u_le (by omega))).not_gt ht.1
    · exact (ht.2.trans_le (hinc.u_le (by omega))).not_gt h.1
  rw [List.sum_map_eq_nsmul_single i _ hothers,
    List.count_eq_one_of_mem List.nodup_range (List.mem_range.mpr hi), one_nsmul,
    Piece.value_of_contains ht]
  rfl

theorem value_eq_sum (hp : p.Accepted) {t : ℝ} (ht : t ∉ p.boundaries) :
    p.value t = (p.pieces.map fun g => g.value t).sum := by
  have hinc := hp.increasing
  have hne (i : Int) : p.knots.u i ≠ t := by
    intro hi
    exact ht (p.boundaries_eq ▸ hi ▸ hinc.u_mem i)
  have hends : p.knots.first ≤ p.knots.last := hinc.le_last 0
  rw [sum_pieces]
  rcases lt_trichotomy t p.knots.first with hlt | heq | hgt
  · have hright : ¬ (Span.above p.knots.last).Contains t :=
      fun h => (hends.trans_lt h).not_gt hlt
    rw [value_left hp hlt, Piece.value_of_contains (by exact hlt),
      sum_inner_eq_zero fun i _ h => (hinc.first_le.trans_lt h.1).not_gt hlt,
      Piece.value_of_not_contains hright, add_zero, add_zero]
  · exact absurd heq.symm (hne 0)
  · have hleft : ¬ (Span.below p.knots.first).Contains t := fun h => hgt.not_gt h
    rw [Piece.value_of_not_contains hleft, zero_add]
    rcases lt_trichotomy t p.knots.last with hlt' | heq' | hgt'
    · have hright : ¬ (Span.above p.knots.last).Contains t := fun h => hlt'.not_gt h
      obtain ⟨i, hi, hle, hge, hin⟩ := hinc.exists_interval hgt.le hlt'.le
      have hcontains : (p.innerPiece i).span.Contains t :=
        ⟨lt_of_le_of_ne hle (hne i), lt_of_le_of_ne hge (hne (i + 1)).symm⟩
      rw [Piece.value_of_not_contains hright, add_zero, sum_inner_eq hinc hi hcontains]
      exact value_inner hp hi hle hge hin
    · exact absurd heq'.symm (hne _)
    · rw [sum_inner_eq_zero fun i _ h => (h.2.trans_le (hinc.le_last _)).not_gt hgt', zero_add,
        Piece.value_of_contains (by exact hgt')]
      exact value_right hp hgt'

section Convolution

variable {s : Smearing ℝ} {c : Convolution ℝ}

theorem sum_segments (hp : p.Accepted) {lo hi : ℝ} (hle : lo ≤ hi) :
    ((p.segments lo hi).map (c.increment s)).sum = p.primitive s c hi - p.primitive s c lo := by
  have hpieces : (p.pieces.map fun g => ((g.segments lo hi).map (c.increment s)).sum).sum =
      p.primitive s c hi - p.primitive s c lo := by
    rw [primitive, primitive, ← sum_map_sub]
    congr 1
    apply List.map_congr_left
    intro g hg
    exact Piece.sum_segments (hp.ordered hg) hle
  rw [← hpieces]
  cases p with
  | curve d =>
    simp [segments, Curve.segments, pieces, Function.comp_def, innerPiece, Piece.segments, knots, left,
      inner, right]
  | steps d =>
    rw [segments, Steps.segments, Steps.bins_eq hp, d.first_eq, d.last_eq]
    cases hext : d.extended with
    | true =>
      simp [pieces, Function.comp_def, innerPiece, Piece.segments, knots, left, inner, right, hext]
    | false =>
      have hzero (g : Piece ℝ) (hg : g.span.Ordered) (hg0 : g.polynomial = Cubic.constant 0) :
          ((g.segments lo hi).map (c.increment s)).sum = 0 := by
        rw [Piece.sum_segments hg hle, Piece.primitive, Piece.primitive, hg0, c.primitive_zero,
          c.primitive_zero, sub_self]
      have hleft := hzero ⟨.below d.knots.first, (steps d).left⟩ trivial (by simp [left, hext])
      have hright := hzero ⟨.above d.knots.last, (steps d).right⟩ trivial (by simp [right, hext])
      rw [sum_pieces, knots, hleft, hright, zero_add, add_zero]
      simp [Function.comp_def, innerPiece, Piece.segments, knots, inner]

theorem hasDerivAt_primitive (hs : s.Lawful c.z) (hz : c.z.toComplex ≠ 0) (hscale : c.scale ≠ 0)
    (hp : p.Accepted) {t : ℝ} (ht : t ∉ p.boundaries) :
    HasDerivAt (p.primitive s c)
      (p.value t * ((s.kernel ((t - c.offset) / c.scale) c.z).toComplex / c.scale)) t := by
  have hpiece (g : Piece ℝ) (hg : g ∈ p.pieces) :=
    g.hasDerivAt_primitive hs hz hscale (hp.ordered hg) fun h => ht (hp.ends_subset hg h)
  refine HasDerivAt.congr_deriv (hasDerivAt_sum_map p.pieces hpiece) ?_
  have hcast : (((p.pieces.map fun g => g.value t).sum : ℝ) : ℂ) =
      (p.pieces.map fun g => (g.value t : ℂ)).sum := by
    rw [← Complex.ofRealHom_eq_coe, map_list_sum, List.map_map]
    rfl
  rw [value_eq_sum hp ht, List.sum_map_mul_right, hcast]

theorem continuous_primitive (hs : s.Lawful c.z) (hz : c.z.toComplex ≠ 0) (hscale : c.scale ≠ 0) :
    Continuous (p.primitive s c) := by
  exact continuous_list_sum _ fun g _ => g.continuous_primitive hs hz hscale

/-- The whole range and the part of it that each piece sees add up to a difference of two values of the primitive. -/
theorem convolution_eq (hp : p.Accepted) {umin u : ℝ}
    (hle : c.scale * umin + c.offset ≤ c.scale * u + c.offset) :
    ∃ w, p.convolution s c umin u = .ok w ∧
      w.toComplex = p.primitive s c (c.scale * u + c.offset) -
        p.primitive s c (c.scale * umin + c.offset) := by
  refine ⟨_, ?_, (c.toComplex_total s _).trans (sum_segments hp hle)⟩
  rw [convolution, Convolution.range]
  simp only [if_pos hle]
  rfl

end Convolution

end Profile

/-- From a lower limit on, the convolution of an efficiency is a continuous primitive of the efficiency at the scaled variable times
the kernel. -/
theorem Efficiency.convolution_integrates {α : Type} {e : Efficiency ℝ α} (he : e.Constructed)
    (value : α → ℝ) {s : Smearing ℝ} {c : Convolution ℝ} (hs : s.Lawful c.z)
    (hz : c.z.toComplex ≠ 0) (hscale : 0 < c.scale) (umin : ℝ) :
    let p := e.profile value
    ∃ F : ℝ → ℂ,
      (∀ u, umin ≤ u → ∃ w, p.convolution s c umin u = .ok w ∧ w.toComplex = F u) ∧
      F umin = 0 ∧ ContinuousOn F (Set.Ici umin) ∧
      ∀ u, umin < u → c.scale * u + c.offset ∉ p.boundaries →
        HasDerivAt F (p.value (c.scale * u + c.offset) * (s.kernel u c.z).toComplex) u := by
  intro p
  have hp : p.Accepted := he.profile value
  have htime (u : ℝ) : HasDerivAt (fun u => c.scale * u + c.offset) c.scale u := by
    simpa using ((hasDerivAt_id' u).const_mul c.scale).add_const c.offset
  refine ⟨fun u => p.primitive s c (c.scale * u + c.offset) -
    p.primitive s c (c.scale * umin + c.offset), ?_, sub_self _, ?_, ?_⟩
  · intro u hu
    exact Profile.convolution_eq hp (by gcongr)
  · apply Continuous.continuousOn
    have hprimitive := Profile.continuous_primitive hs hz hscale.ne' (p := p)
    fun_prop
  · intro u _ hu
    have hderiv := Profile.hasDerivAt_primitive hs hz hscale.ne' hp hu
    have hcomp := HasDerivAt.scomp u hderiv (htime u)
    refine HasDerivAt.congr_deriv (hcomp.sub_const _) ?_
    have hne : (c.scale : ℂ) ≠ 0 := Complex.ofReal_ne_zero.mpr hscale.ne'
    rw [add_sub_cancel_right, mul_div_cancel_left₀ u hscale.ne', Complex.real_smul]
    field_simp

theorem Efficiency.convolution_integrates_at_spline :
    let e : Efficiency ℝ ℝ := ⟨"eff", .spline ⟨[0, 1, 3]⟩ [2, 7, 1, 8, 2]⟩
    let p := e.profile id
    let s := Smearing.ideal
    let c : Convolution ℝ := ⟨2, 1, ⟨1, 2⟩⟩
    e.Constructed ∧ s.Lawful c.z ∧ c.z.toComplex ≠ 0 ∧ 0 < c.scale ∧
      ∃ F : ℝ → ℂ,
        (∀ u, -3 ≤ u → ∃ w, p.convolution s c (-3) u = .ok w ∧ w.toComplex = F u) ∧
        F (-3) = 0 ∧ ContinuousOn F (Set.Ici (-3)) ∧
        ∀ u, -3 < u → c.scale * u + c.offset ∉ p.boundaries →
          HasDerivAt F (p.value (c.scale * u + c.offset) * (s.kernel u c.z).toComplex) u := by
  intro e p s c
  have hk : Knots.ofList (K := ℝ) [0, 1, 3] = .ok ⟨[0, 1, 3]⟩ :=
    Knots.ofList_eq_ok_iff.mpr ⟨rfl, ⟨by decide, by norm_num⟩⟩
  have hok : Efficiency.ofKnots "eff" ⟨[0, 1, 3]⟩ [2, 7, 1, 8, 2] = .ok e := if_pos rfl
  have he : e.Constructed := .ofKnots hk hok
  have hs : s.Lawful c.z := Smearing.lawful_ideal c.z
  have hz : c.z.toComplex ≠ 0 := fun h => one_ne_zero (congrArg (·.re) h : (1 : ℝ) = 0)
  have hscale : 0 < c.scale := two_pos
  exact ⟨he, hs, hz, hscale, Efficiency.convolution_integrates he id hs hz hscale (-3)⟩

end LifetimeEfficiency
