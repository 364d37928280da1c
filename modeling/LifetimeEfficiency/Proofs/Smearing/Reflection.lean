import LifetimeEfficiency.Proofs.Smearing.Conjugation
import Mathlib.Analysis.SpecialFunctions.Trigonometric.Basic
import Mathlib.Tactic.NormNum
/-!
# Reflection

Below the real axis the Faddeeva function asks itself for the point opposite, which lies above it, and the two values add up to an
exponential. Far out the kernel draws the Gaussian into that exponential, which changes nothing.
-/
namespace LifetimeEfficiency

variable {K : Type} [Field K] [LinearOrder K]

namespace Complex

variable (a b : Complex K) (r s : K)

theorem i_mul_subReal : i * a.subReal r = ⟨-a.im, a.re - r⟩ := by
  have hre : (i : Complex K).re = 0 := Scalar.exact_zero
  have him : (i : Complex K).im = 1 := Scalar.exact_one
  apply eq_of_parts
  · change i.re * (a.re - r) - i.im * a.im = -a.im
    rw [hre, him]
    ring
  · change i.re * a.im + i.im * (a.re - r) = a.re - r
    rw [hre, him]
    ring

theorem neg_mul_self : -a * a = -(a * a) := by
  apply eq_of_parts
  · change -a.re * a.re - -a.im * a.im = -(a.re * a.re - a.im * a.im)
    ring
  · change -a.re * a.im + -a.im * a.re = -(a.re * a.im + a.im * a.re)
    ring

theorem neg_mul_neg_self : -a * -a = a * a := by
  apply eq_of_parts
  · change -a.re * -a.re - -a.im * -a.im = a.re * a.re - a.im * a.im
    ring
  · change -a.re * -a.im + -a.im * -a.re = a.re * a.im + a.im * a.re
    ring

theorem neg_neg_self : -(-a) = a := eq_of_parts (neg_neg a.re) (neg_neg a.im)

theorem scale_comm : (a.scale r).scale s = (a.scale s).scale r :=
  eq_of_parts (mul_right_comm a.re r s) (mul_right_comm a.im r s)

theorem sub_scale : (a - b).scale r = a.scale r - b.scale r :=
  eq_of_parts (sub_mul a.re b.re r) (sub_mul a.im b.im r)

protected theorem sub_add_cancel : a - b + b = a := eq_of_parts (sub_add_cancel a.re b.re) (sub_add_cancel a.im b.im)

protected theorem add_sub_cancel : a + (b - a) = b := eq_of_parts (add_sub_cancel a.re b.re) (add_sub_cancel a.im b.im)

theorem reflected_exponent (x : K) :
    (-(⟨-a.im, a.re - x⟩ : Complex K) * ⟨-a.im, a.re - x⟩).addReal (-x * x) =
      a * a - (a.scale 2).scale x := by
  apply eq_of_parts
  · change - -a.im * -a.im - -(a.re - x) * (a.re - x) + -x * x = a.re * a.re - a.im * a.im - a.re * 2 * x
    ring
  · change - -a.im * (a.re - x) + -(a.re - x) * -a.im = a.re * a.im + a.im * a.re - a.im * 2 * x
    ring

end Complex

namespace Expansion

/-- What the recursion of the Faddeeva function returns, and how often it calls itself on the way. -/
inductive Evaluates (e : Expansion K) : Complex K → Complex K → Nat → Prop
  | upper {z : Complex K} (h : ¬ z.im < 0) : Evaluates e z (e.upper z) 0
  | reflected {z w : Complex K} {calls : Nat} (h : z.im < 0) (hw : Evaluates e (-z) w calls) :
    Evaluates e z ((e.complexExp (-(z * z))).scale 2 - w) (calls + 1)

section Ordered

variable [IsStrictOrderedRing K] (e : Expansion K) {z w : Complex K} {calls : Nat}

theorem not_im_neg (h : z.im < 0) : ¬ (-z).im < 0 := not_lt.mpr (neg_nonneg.mpr h.le)

omit [IsStrictOrderedRing K] in
theorem evaluates_upper_iff (h : ¬ z.im < 0) : e.Evaluates z w calls ↔ w = e.upper z ∧ calls = 0 := by
  constructor
  · intro hw
    cases hw with
    | upper _ => exact ⟨rfl, rfl⟩
    | reflected hneg _ => exact absurd hneg h
  · rintro ⟨rfl, rfl⟩
    exact .upper h

theorem evaluates_reflected_iff (h : z.im < 0) :
    e.Evaluates z w calls ↔ w = (e.complexExp (-(z * z))).scale 2 - e.upper (-z) ∧ calls = 1 := by
  constructor
  · intro hw
    cases hw with
    | upper hnot => exact absurd h hnot
    | reflected _ hw =>
      obtain ⟨rfl, rfl⟩ := (e.evaluates_upper_iff (not_im_neg h)).mp hw
      exact ⟨rfl, rfl⟩
  · rintro ⟨rfl, rfl⟩
    exact .reflected h (.upper (not_im_neg h))

omit [IsStrictOrderedRing K] in
theorem faddeeva_of_not_im_neg (h : ¬ z.im < 0) : e.faddeeva z = e.upper z := by
  rw [faddeeva, Scalar.exact_zero, if_neg h]

omit [IsStrictOrderedRing K] in
theorem faddeeva_of_im_neg (h : z.im < 0) :
    e.faddeeva z = (e.complexExp (-(z * z))).scale 2 - e.upper (-z) := by
  rw [faddeeva, Scalar.exact_zero, if_pos h, Complex.neg_mul_self, Scalar.exact_ofNat]

theorem evaluates_iff (z : Complex K) :
    ∃ n ≤ 1, ∀ w calls, e.Evaluates z w calls ↔ w = e.faddeeva z ∧ calls = n := by
  by_cases h : z.im < 0
  · refine ⟨1, le_rfl, fun w calls => ?_⟩
    rw [evaluates_reflected_iff e h, faddeeva_of_im_neg e h]
  · refine ⟨0, Nat.zero_le 1, fun w calls => ?_⟩
    rw [evaluates_upper_iff e h, faddeeva_of_not_im_neg e h]

theorem faddeeva_add_neg (z : Complex K) (h : z.im ≠ 0) :
    e.faddeeva z + e.faddeeva (-z) = (e.complexExp (-(z * z))).scale 2 := by
  rcases lt_or_gt_of_ne h with hneg | hpos
  · rw [faddeeva_of_im_neg e hneg, faddeeva_of_not_im_neg e (not_im_neg hneg), Complex.sub_add_cancel]
  · have hneg : (-z).im < 0 := neg_neg_of_pos hpos
    rw [faddeeva_of_not_im_neg e hpos.not_gt, faddeeva_of_im_neg e hneg, Complex.neg_neg_self,
      Complex.add_sub_cancel, Complex.neg_mul_neg_self]

theorem kernel_eq (hexp : ∀ a r, e.complexExp (a.addReal r) = (e.complexExp a).scale (e.exp r)) (x : K)
    (z : Complex K) : e.kernel x z = (e.faddeeva ⟨-z.im, z.re - x⟩).scale (e.gauss x) := by
  -- The exponents of the reflected exponential and of the Gaussian make up that of the smeared decay.
  unfold kernel
  dsimp only
  split_ifs with h
  · rfl
  · have hthreshold : (reflectionThreshold : K) < 0 := by
      simp [reflectionThreshold]
    have hneg : (⟨-z.im, z.re - x⟩ : Complex K).im < 0 := (not_lt.mp h).trans_lt hthreshold
    have hexponential : ((e.complexExp (-((⟨-z.im, z.re - x⟩ : Complex K) * ⟨-z.im, z.re - x⟩))).scale 2).scale
        (e.gauss x) = (e.complexExp (z * z - (z.scale 2).scale x)).scale 2 := by
      rw [Complex.scale_comm, gauss, ← hexp, ← Complex.neg_mul_self, Complex.reflected_exponent]
    rw [faddeeva_of_im_neg e hneg, faddeeva_of_not_im_neg e (not_im_neg hneg), Complex.sub_scale, hexponential]

end Ordered

/-- The kernel is the product of the Gaussian and the Faddeeva function on both sides of its threshold, if the exponential takes the sum
with a real number to a product. That function calls itself once at most, and its values at opposite points off the real
axis add up to an exponential. -/
theorem kernel_reflects [IsStrictOrderedRing K] (e : Expansion K)
    (hexp : ∀ a r, e.complexExp (a.addReal r) = (e.complexExp a).scale (e.exp r)) (x : K) (z : Complex K) :
    e.kernel x z = (e.faddeeva (Complex.i * z.subReal x)).scale (e.exp (-x ^ 2)) ∧
      (∃ n ≤ 1, ∀ w calls, e.Evaluates z w calls ↔ w = e.faddeeva z ∧ calls = n) ∧
      (z.im ≠ 0 → e.faddeeva z + e.faddeeva (-z) = (e.complexExp (-(z * z))).scale 2) := by
  refine ⟨?_, e.evaluates_iff z, e.faddeeva_add_neg z⟩
  have hgauss : e.gauss x = e.exp (-x ^ 2) := by
    rw [gauss]
    congr 1
    ring
  rw [Complex.i_mul_subReal, kernel_eq e hexp, hgauss]

theorem kernel_reflects_beyond_threshold :
    let e : Expansion ℝ :=
      { l := 1, coefs := [1, 2], rootPi := √Real.pi, exp := Real.exp
        complexExp := fun z => ⟨Real.exp z.re * Real.cos z.im, Real.exp z.re * Real.sin z.im⟩ }
    let z : Complex ℝ := ⟨1, -1⟩
    z.re - 8 < reflectionThreshold ∧
      e.kernel 8 z = (e.faddeeva (Complex.i * z.subReal 8)).scale (Real.exp (-8 ^ 2)) ∧
      e.faddeeva z + e.faddeeva (-z) = (e.complexExp (-(z * z))).scale 2 := by
  intro e z
  have hexp (a : Complex ℝ) (r : ℝ) : e.complexExp (a.addReal r) = (e.complexExp a).scale (e.exp r) := by
    apply Complex.eq_of_parts
    · change Real.exp (a.re + r) * Real.cos a.im = Real.exp a.re * Real.cos a.im * Real.exp r
      rw [Real.exp_add]
      ring
    · change Real.exp (a.re + r) * Real.sin a.im = Real.exp a.re * Real.sin a.im * Real.exp r
      rw [Real.exp_add]
      ring
  obtain ⟨hkernel, -, hsum⟩ := kernel_reflects e hexp 8 z
  refine ⟨?_, hkernel, hsum (by norm_num [z])⟩
  norm_num [reflectionThreshold, z]

end Expansion
end LifetimeEfficiency
