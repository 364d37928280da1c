import LifetimeEfficiency.Proofs.Polynomial
import LifetimeEfficiency.Proofs.Smearing.Moments
import LifetimeEfficiency.Smearing.Convolution
/-!
# Convolutions as differences of primitives

The weighted moments of a cubic are a primitive of the cubic times the kernel. A segment adds the difference of its primitive at
the two ends, whether or not the moments at the lower end were kept.
-/
namespace LifetimeEfficiency

theorem hasDerivAt_sum_map {ι : Type} {f : ι → ℝ → ℂ} {f' : ι → ℂ} {x : ℝ} (l : List ι)
    (h : ∀ i ∈ l, HasDerivAt (f i) (f' i) x) :
    HasDerivAt (fun x => (l.map fun i => f i x).sum) (l.map f').sum x := by
  induction l with
  | nil => exact hasDerivAt_const x 0
  | cons i l ih =>
    simp only [List.map_cons, List.sum_cons]
    exact (h i List.mem_cons_self).fun_add (ih fun j hj => h j (List.mem_cons_of_mem i hj))

theorem sum_map_sub {ι : Type} (l : List ι) (f g : ι → ℂ) :
    (l.map fun i => f i - g i).sum = (l.map f).sum - (l.map g).sum := by
  rw [eq_sub_iff_add_eq, ← List.sum_map_add]
  simp only [sub_add_cancel]

namespace Convolution

noncomputable def term (c : Convolution ℝ) (p : Cubic ℝ) (m : Moments ℝ) (jk : Nat × Nat) : ℂ :=
  (p.moment jk.1 jk.2 * c.scale ^ (jk.1 + jk.2) : ℝ) *
    ((m.get jk.1).toComplex * ((Moments.decay c.z).get jk.2).toComplex)

/-- A primitive of a cubic times the kernel, as a function of time. -/
noncomputable def primitive (s : Smearing ℝ) (c : Convolution ℝ) (p : Cubic ℝ) (t : ℝ) : ℂ :=
  (orders.map (c.term (p.shifted c.offset) (c.momentsAt s t))).sum

theorem get_sub (m m' : Moments ℝ) (j : Nat) : (m - m').get j = m.get j - m'.get j := by
  match j with
  | 0 => rfl
  | 1 => rfl
  | 2 => rfl
  | j + 3 => rfl

theorem term_sub (c : Convolution ℝ) (p : Cubic ℝ) (m m' : Moments ℝ) (jk : Nat × Nat) :
    c.term p (m - m') jk = c.term p m jk - c.term p m' jk := by
  rw [term, term, term, get_sub, Complex.toComplex_sub]
  ring

/-- The pairs of orders, collected by their sum. -/
theorem sum_term_eq (c : Convolution ℝ) (p : Cubic ℝ) (m : Moments ℝ) :
    (orders.map (c.term p m)).sum =
      ∑ n ∈ Finset.range 4, (p.coef n * c.scale ^ n : ℝ) * m.combined c.z n := by
  have horders : orders =
      [(0, 0), (0, 1), (0, 2), (0, 3), (1, 0), (1, 1), (1, 2), (2, 0), (2, 1), (3, 0)] := rfl
  rw [horders]
  simp [term, Cubic.moment, Cubic.binomial, Moments.combined, Finset.sum_range_succ, Nat.choose]
  ring

theorem toComplex_addMoments (c : Convolution ℝ) (p : Cubic ℝ) (m : Moments ℝ) (sum : Complex ℝ) :
    (c.addMoments p m sum).toComplex = sum.toComplex + (orders.map (c.term p m)).sum := by
  -- Weights that are zero would contribute nothing.
  unfold addMoments
  generalize orders = l
  induction l generalizing sum with
  | nil => simp
  | cons jk l ih =>
    dsimp only at ih ⊢
    rw [List.foldl_cons, ih, List.map_cons, List.sum_cons, ← add_assoc]
    congr 1
    rw [Scalar.power_eq, Scalar.exact_zero]
    by_cases hw : p.moment jk.1 jk.2 * c.scale ^ (jk.1 + jk.2) = 0
    · rw [if_pos (beq_iff_eq.mpr hw), term, hw, Complex.ofReal_zero, zero_mul, add_zero]
    · rw [if_neg (mt beq_iff_eq.mp hw), Complex.toComplex_add, Complex.toComplex_scale,
        Complex.toComplex_mul, term, mul_comm]

section Primitive

variable {s : Smearing ℝ} {c : Convolution ℝ}

/-- In the reduced variable the derivative is the cubic times the kernel. -/
theorem hasDerivAt_sum_term (hs : s.Lawful c.z) (hz : c.z.toComplex ≠ 0) (p : Cubic ℝ) (u : ℝ) :
    HasDerivAt (fun u => (orders.map (c.term p (Moments.gauss s u c.z))).sum)
      (p.value (c.scale * u) * (s.kernel u c.z).toComplex) u := by
  have hpower (n : Nat) (hn : n ∈ Finset.range 4) :
      HasDerivAt (fun u => ((p.coef n * c.scale ^ n : ℝ) : ℂ) * (Moments.gauss s u c.z).combined c.z n)
        ((p.coef n * c.scale ^ n : ℝ) * (u ^ n * (s.kernel u c.z).toComplex)) u :=
    (Moments.hasDerivAt_combined hs hz u (Finset.mem_range.mp hn)).const_mul _
  simp only [sum_term_eq]
  refine HasDerivAt.congr_deriv (HasDerivAt.fun_sum hpower) ?_
  rw [Cubic.value_eq]
  simp only [Finset.sum_range_succ, Finset.sum_range_zero, Cubic.coef]
  push_cast
  ring

theorem hasDerivAt_primitive (hs : s.Lawful c.z) (hz : c.z.toComplex ≠ 0) (hscale : c.scale ≠ 0)
    (p : Cubic ℝ) (t : ℝ) :
    HasDerivAt (c.primitive s p)
      (p.value t * ((s.kernel ((t - c.offset) / c.scale) c.z).toComplex / c.scale)) t := by
  have hreduced : HasDerivAt (fun t => (t - c.offset) / c.scale) (1 / c.scale) t :=
    ((hasDerivAt_id' t).sub_const c.offset).div_const c.scale
  have hterm := hasDerivAt_sum_term hs hz (p.shifted c.offset) ((t - c.offset) / c.scale)
  have hcomp := HasDerivAt.scomp t hterm hreduced
  refine HasDerivAt.congr_deriv hcomp ?_
  rw [Cubic.value_shifted, mul_div_cancel₀ _ hscale, sub_add_cancel, Complex.real_smul]
  push_cast
  ring

theorem primitive_constant (a t : ℝ) : c.primitive s (Cubic.constant a) t =
    a * ((Moments.decay c.z).m0.toComplex * (c.momentsAt s t).m0.toComplex) := by
  have hshifted : (Cubic.constant a).shifted c.offset = Cubic.constant a := by
    simp [Cubic.shifted, Cubic.constant]
  have horders : orders = (0, 0) :: orders.tail := rfl
  have hrest : (orders.tail.map (c.term (Cubic.constant a) (c.momentsAt s t))).sum = 0 := by
    apply List.sum_eq_zero
    intro w hw
    obtain ⟨jk, hjk, rfl⟩ := List.mem_map.mp hw
    have hcoef : (Cubic.constant a).coef (jk.1 + jk.2) = 0 := by
      revert jk
      simp [orders, List.range_succ, Cubic.coef, Cubic.constant]
    simp [term, Cubic.moment, hcoef]
  have hweight : (Cubic.constant a).moment 0 0 * c.scale ^ (0 + 0) = a := by
    simp [Cubic.moment, Cubic.coef, Cubic.constant, Cubic.binomial]
  rw [primitive, hshifted, horders, List.map_cons, List.sum_cons, hrest, add_zero, term, hweight,
    mul_comm (Complex.toComplex _)]
  rfl

theorem primitive_zero (t : ℝ) : c.primitive s (Cubic.constant 0) t = 0 := by
  rw [primitive_constant, Complex.ofReal_zero, zero_mul]

end Primitive

section Total

variable (s : Smearing ℝ) (c : Convolution ℝ)

noncomputable def increment (g : Segment ℝ) : ℂ :=
  if g.lo < g.hi then c.primitive s g.polynomial g.hi - c.primitive s g.polynomial g.lo else 0

/-- The moments that were kept are those at the kept point. -/
def Accurate (acc : Accumulator ℝ) : Prop :=
  ∀ t m, acc.boundary = some (t, m) → m = c.momentsAt s t

theorem lowerMoments_eq {acc : Accumulator ℝ} (h : c.Accurate s acc) (t : ℝ) :
    c.lowerMoments s acc t = c.momentsAt s t := by
  unfold lowerMoments
  cases hb : acc.boundary with
  | none => rfl
  | some kept =>
    obtain ⟨t', m⟩ := kept
    by_cases ht : t' = t
    · subst ht
      simp [h t' m hb]
    · simp [ht]

theorem addSegment_spec {acc : Accumulator ℝ} (h : c.Accurate s acc) (g : Segment ℝ) :
    c.Accurate s (c.addSegment s acc g) ∧
      (c.addSegment s acc g).sum.toComplex = acc.sum.toComplex + c.increment s g := by
  unfold addSegment increment
  by_cases hlt : g.lo < g.hi
  · rw [if_pos hlt, if_pos hlt]
    constructor
    · intro t m hb
      cases hb
      rfl
    · rw [toComplex_addMoments, lowerMoments_eq s c h, primitive, primitive]
      congr 1
      rw [← sum_map_sub]
      simp only [← term_sub]
  · rw [if_neg hlt, if_neg hlt, add_zero]
    exact ⟨h, rfl⟩

theorem toComplex_total (gs : List (Segment ℝ)) :
    (c.total s gs).toComplex = (gs.map (c.increment s)).sum := by
  have hfold (acc : Accumulator ℝ) (h : c.Accurate s acc) :
      (gs.foldl (c.addSegment s) acc).sum.toComplex =
        acc.sum.toComplex + (gs.map (c.increment s)).sum := by
    induction gs generalizing acc with
    | nil => simp
    | cons g gs ih =>
      obtain ⟨haccurate, hsum⟩ := addSegment_spec s c h g
      rw [List.foldl_cons, ih _ haccurate, hsum, List.map_cons, List.sum_cons, add_assoc]
  have hstart : c.Accurate s start := by
    intro t m hb
    cases hb
  rw [total, hfold start hstart]
  simp [start]

end Total

end Convolution
end LifetimeEfficiency
