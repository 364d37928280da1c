import LifetimeEfficiency.Proofs.Smearing.Ideal
import LifetimeEfficiency.Proofs.Smearing.Convolution
/-!
# Cubics integrated against the kernel

The moments of one total order are a primitive of one power times the kernel. A segment collects them with the coefficients of
its polynomial, so what it adds is the integral of the polynomial times the kernel over its range.
-/
namespace LifetimeEfficiency

namespace Convolution

variable {s : Smearing ℝ} {c : Convolution ℝ}

theorem sum_term_eq_integral (hs : s.Lawful c.z) (hz : c.z.toComplex ≠ 0) (p : Cubic ℝ) (a b : ℝ) :
    (orders.map (c.term (p.shifted c.offset) (Moments.gauss s b c.z - Moments.gauss s a c.z))).sum =
      ∫ u in a..b, p.value (c.scale * u + c.offset) * (s.kernel u c.z).toComplex := by
  have hderiv (u : ℝ) := hasDerivAt_sum_term hs hz (p.shifted c.offset) u
  simp only [Cubic.value_shifted] at hderiv
  have hcont : Continuous fun u : ℝ =>
      (p.value (c.scale * u + c.offset) : ℂ) * (s.kernel u c.z).toComplex := by
    have hkernel := hs.continuous_kernel
    simp only [Cubic.value_eq]
    fun_prop
  rw [intervalIntegral.integral_eq_sub_of_hasDerivAt (fun u _ => hderiv u) (hcont.intervalIntegrable a b),
    ← sum_map_sub]
  simp only [← term_sub]

theorem increment_eq_integral (hs : s.Lawful c.z) (hz : c.z.toComplex ≠ 0) (p : Cubic ℝ) {lo hi : ℝ}
    (hlt : lo < hi) :
    c.increment s ⟨lo, hi, p⟩ = ∫ u in (lo - c.offset) / c.scale..(hi - c.offset) / c.scale,
      p.value (c.scale * u + c.offset) * (s.kernel u c.z).toComplex := by
  rw [increment, if_pos hlt, primitive, primitive, ← sum_map_sub, ← sum_term_eq_integral hs hz]
  simp only [← term_sub]
  rfl

theorem toComplex_total_concat (s : Smearing ℝ) (c : Convolution ℝ) (gs : List (Segment ℝ)) (g : Segment ℝ) :
    (c.total s (gs ++ [g])).toComplex = (c.total s gs).toComplex + c.increment s g := by
  rw [toComplex_total, toComplex_total, List.map_append, List.sum_append, List.map_singleton, List.sum_singleton]

end Convolution

/-- For every order the combination of moments and decay factors is a primitive of that power times the kernel. So the terms that a
segment adds, whatever came before it, are the integral of its polynomial times the kernel. -/
theorem Moments.integrate_monomials {s : Smearing ℝ} {z : Complex ℝ} (hs : s.Lawful z) (hz : z.toComplex ≠ 0) :
    (∀ n < 4, ∀ x : ℝ,
      HasDerivAt (fun x => (gauss s x z).combined z n) (x ^ n * (s.kernel x z).toComplex) x) ∧
    ∀ (scale offset lo hi : ℝ) (p : Cubic ℝ),
      let c : Convolution ℝ := ⟨scale, offset, z⟩
      let integral : ℂ := ∫ u in (lo - offset) / scale..(hi - offset) / scale,
        p.value (scale * u + offset) * (s.kernel u z).toComplex
      (∀ sum, (c.addMoments (p.shifted offset) (c.momentsAt s hi - c.momentsAt s lo) sum).toComplex =
        sum.toComplex + integral) ∧
      (lo < hi → ∀ gs, (c.total s (gs ++ [⟨lo, hi, p⟩])).toComplex = (c.total s gs).toComplex + integral) := by
  refine ⟨fun n hn x => hasDerivAt_combined hs hz x hn, ?_⟩
  intro scale offset lo hi p c integral
  constructor
  · intro sum
    rw [Convolution.toComplex_addMoments]
    congr 1
    exact Convolution.sum_term_eq_integral (c := c) hs hz p _ _
  · intro hlt gs
    rw [Convolution.toComplex_total_concat, Convolution.increment_eq_integral hs hz p hlt]

theorem Moments.integrate_monomials_at_neighbours :
    let s := Smearing.ideal
    let z : Complex ℝ := ⟨1, 2⟩
    let c : Convolution ℝ := ⟨2, 1, z⟩
    let p : Cubic ℝ := ⟨1, -2, 0, 3⟩
    let q : Cubic ℝ := ⟨0, 1, 0, 0⟩
    s.Lawful z ∧ z.toComplex ≠ 0 ∧
      HasDerivAt (fun x => (gauss s x z).combined z 3) ((5 : ℝ) ^ 3 * (s.kernel 5 z).toComplex) 5 ∧
      (0 : ℝ) < 3 ∧
      (c.total s [⟨-1, 0, q⟩, ⟨0, 3, p⟩]).toComplex = (c.total s [⟨-1, 0, q⟩]).toComplex +
        ∫ u in ((0 : ℝ) - 1) / 2..(3 - 1) / 2, p.value (2 * u + 1) * (s.kernel u z).toComplex := by
  intro s z c p q
  have hs : s.Lawful z := Smearing.lawful_ideal z
  have hz : z.toComplex ≠ 0 := by
    simp [Complex.ext_iff, z]
  have hlt : (0 : ℝ) < 3 := three_pos
  obtain ⟨hpower, hsegment⟩ := integrate_monomials hs hz
  exact ⟨hs, hz, hpower 3 (by decide) 5, hlt, (hsegment 2 1 0 3 p).2 hlt [⟨-1, 0, q⟩]⟩

end LifetimeEfficiency
