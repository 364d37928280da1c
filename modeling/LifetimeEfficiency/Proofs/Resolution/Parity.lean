import LifetimeEfficiency.Proofs.Smearing.Conjugation
import LifetimeEfficiency.Resolution.Response
import Mathlib.Analysis.SpecialFunctions.Trigonometric.Basic
import Mathlib.Tactic.LinearCombination
/-!
# Parities

An opposite frequency conjugates the argument of the kernel, and an opposite width difference exchanges the two arguments that are
combined. So each basis keeps its parity when it is smeared, and the shortcuts for a frequency or a width difference of zero give
what the general forms give.
-/
namespace LifetimeEfficiency

variable {K : Type} [Field K] [LinearOrder K]

/-- The functions of the same lifetime with the opposite frequency or width difference. -/
def DecayBasis.opposite : DecayBasis K → DecayBasis K
  | .flat => .flat
  | .exp tau => .exp tau
  | .sin tau omega => .sin tau (-omega)
  | .cos tau omega => .cos tau (-omega)
  | .sinh tau deltaGamma => .sinh tau (-deltaGamma)
  | .cosh tau deltaGamma => .cosh tau (-deltaGamma)

omit [LinearOrder K] in
theorem DecayBasis.tau?_opposite (basis : DecayBasis K) : basis.opposite.tau? = basis.tau? := by
  cases basis <;> rfl

/-- The factor that a basis takes for it. -/
def DecayBasis.parity : DecayBasis K → K
  | .flat => 1
  | .exp _ => 1
  | .sin _ _ => -1
  | .cos _ _ => 1
  | .sinh _ _ => -1
  | .cosh _ _ => 1

namespace KernelForm

/-- What a form takes of a function of the argument. -/
def part (f : Complex K → Complex K) : KernelForm K → K
  | .gaussian => 0
  | .vanishing => 0
  | .real z => (f z).re
  | .imaginary z => (f z).im
  | .hyperbolic z y sign => 1 / 2 * ((f (z.subReal y)).re + sign * (f (z.addReal y)).re)

variable (scale tau omega : K)

theorem general_sinh (deltaGamma : K) : general scale (.sinh tau deltaGamma) =
    .hyperbolic (argument scale tau 0) (1 / 4 * scale * deltaGamma) (-1) := by
  simp [general]

theorem general_cosh (deltaGamma : K) : general scale (.cosh tau deltaGamma) =
    .hyperbolic (argument scale tau 0) (1 / 4 * scale * deltaGamma) 1 := by
  simp [general]

theorem conjugate_argument : (argument scale tau omega).conjugate = argument scale tau (-omega) := by
  rw [argument, Complex.conjugate_scale]
  rfl

theorem part_neg [IsStrictOrderedRing K] (f : Complex K → Complex K) (z : Complex K) (y : K) {sign : K} (hsign : sign * sign = 1) :
    part f (.hyperbolic z (-y) sign) = sign * part f (.hyperbolic z y sign) := by
  have hsub : z.subReal (-y) = z.addReal y := Complex.eq_of_parts (sub_neg_eq_add z.re y) rfl
  have hadd : z.addReal (-y) = z.subReal y := Complex.eq_of_parts (sub_eq_add_neg z.re y).symm rfl
  rw [part, part, hsub, hadd]
  linear_combination -(1 / 2 * (f (z.addReal y)).re) * hsign

theorem part_zero [IsStrictOrderedRing K] (f : Complex K → Complex K) (z : Complex K) (sign : K) :
    part f (.hyperbolic z 0 sign) = 1 / 2 * (1 + sign) * (f z).re := by
  have hsub : z.subReal 0 = z := Complex.eq_of_parts (sub_zero z.re) rfl
  have hadd : z.addReal 0 = z := Complex.eq_of_parts (add_zero z.re) rfl
  rw [part, hsub, hadd]
  ring

/-- Only a sine without a frequency and a hyperbolic cosine without a width difference have forms of their own. -/
theorem ofBasis_cases {basis : DecayBasis K} {tau : K} (hbasis : basis.tau? = some tau) (htau : tau ≠ 0) :
    ofBasis scale basis = general scale basis ∨
      (basis = .sin tau 0 ∧ ofBasis scale basis = .vanishing) ∨
      basis = .cosh tau 0 ∧ ofBasis scale basis = general scale (.exp tau) := by
  cases basis with
  | flat => cases hbasis
  | exp tau =>
    cases hbasis
    simp [ofBasis, DecayBasis.normalized, DecayBasis.tau?, ofDecay, general, htau]
  | sin tau omega =>
    cases hbasis
    by_cases homega : omega = 0 <;>
      simp [ofBasis, DecayBasis.normalized, DecayBasis.tau?, ofDecay, general, htau, homega]
  | cos tau omega =>
    cases hbasis
    simp [ofBasis, DecayBasis.normalized, DecayBasis.tau?, ofDecay, general, htau]
  | sinh tau deltaGamma =>
    cases hbasis
    simp [ofBasis, DecayBasis.normalized, DecayBasis.tau?, ofDecay, general, htau]
  | cosh tau deltaGamma =>
    cases hbasis
    by_cases hdelta : deltaGamma = 0 <;>
      simp [ofBasis, DecayBasis.normalized, DecayBasis.tau?, ofDecay, general, htau, hdelta]

theorem general_ne_gaussian {basis : DecayBasis K} {tau : K} (hbasis : basis.tau? = some tau) :
    general scale basis ≠ .gaussian := by
  cases basis with
  | flat => cases hbasis
  | exp _ => exact nofun
  | sin _ _ => exact nofun
  | cos _ _ => exact nofun
  | sinh _ _ => exact nofun
  | cosh _ _ => exact nofun

theorem ofBasis_ne_gaussian {basis : DecayBasis K} {tau : K} (hbasis : basis.tau? = some tau) (htau : tau ≠ 0) :
    ofBasis scale basis ≠ .gaussian := by
  rcases ofBasis_cases scale hbasis htau with h | ⟨-, h⟩ | ⟨-, h⟩
  · exact h ▸ general_ne_gaussian scale hbasis
  · exact h ▸ nofun
  · exact h ▸ nofun

variable {f : Complex K → Complex K} (hf : ∀ z, f z.conjugate = (f z).conjugate)

include hf

variable [IsStrictOrderedRing K]

theorem im_argument_zero : (f (argument scale tau 0)).im = 0 := by
  have hself : (f (argument scale tau 0)).conjugate = f (argument scale tau 0) := by
    rw [← hf, conjugate_argument, neg_zero]
  exact self_eq_neg.mp (congrArg Complex.im hself).symm

theorem part_opposite (basis : DecayBasis K) :
    part f (general scale basis.opposite) = basis.parity * part f (general scale basis) := by
  cases basis with
  | flat => exact (one_mul _).symm
  | exp tau => exact (one_mul _).symm
  | sin tau omega =>
    simp only [DecayBasis.opposite, DecayBasis.parity, general, part, ← conjugate_argument, hf,
      Complex.im_conjugate, neg_one_mul]
  | cos tau omega =>
    simp only [DecayBasis.opposite, DecayBasis.parity, general, part, ← conjugate_argument, hf,
      Complex.re_conjugate, one_mul]
  | sinh tau deltaGamma =>
    rw [DecayBasis.opposite, general_sinh, general_sinh, mul_neg]
    exact part_neg f _ _ (by norm_num : (-1 : K) * -1 = 1)
  | cosh tau deltaGamma =>
    rw [DecayBasis.opposite, general_cosh, general_cosh, mul_neg]
    exact part_neg f _ _ (one_mul 1)

theorem part_sin_zero : part f (general scale (.sin tau 0)) = 0 :=
  im_argument_zero scale tau hf

omit hf in
theorem part_sinh_zero (f : Complex K → Complex K) : part f (general scale (.sinh tau 0)) = 0 := by
  rw [general_sinh, mul_zero, part_zero, add_neg_cancel, mul_zero, zero_mul]

omit hf in
theorem part_cosh_zero (f : Complex K → Complex K) :
    part f (general scale (.cosh tau 0)) = part f (general scale (.exp tau)) := by
  have hexp : general scale (.exp tau) = .real (argument scale tau 0) := by
    simp [general]
  rw [general_cosh, mul_zero, part_zero, hexp, part]
  ring

omit [IsStrictOrderedRing K] in
omit hf in
theorem general_cos_zero : general scale (.cos tau 0) = general scale (.exp tau) := by
  simp [general]

/-- The shortcuts take the same of a function as the general forms. -/
theorem part_ofBasis {basis : DecayBasis K} {tau : K} (hbasis : basis.tau? = some tau) (htau : tau ≠ 0) :
    part f (ofBasis scale basis) = part f (general scale basis) := by
  rcases ofBasis_cases scale hbasis htau with h | ⟨rfl, h⟩ | ⟨rfl, h⟩
  · rw [h]
  · rw [h, part_sin_zero scale tau hf, part]
  · rw [h, part_cosh_zero]

end KernelForm

namespace Response

def convolved (s : Smearing K) (r : Response K) (tmin tmax : K) (z : Complex K) : Complex K :=
  Convolution.total s ⟨r.scale s, r.offset, z⟩ (r.profile.segments tmin tmax)

variable {s : Smearing K} {r : Response K} {form : KernelForm K}

theorem valueOf_eq (hform : form ≠ .gaussian) (t : K) :
    r.valueOf s form t = r.profile.value t * form.part (s.kernel (r.reduced s t)) := by
  cases form with
  | gaussian => exact absurd rfl hform
  | vanishing => simp [valueOf, KernelForm.part]
  | real z => rfl
  | imaginary z => rfl
  | hyperbolic z y sign => simp [valueOf, KernelForm.part]

theorem convolution_eq_convolved (hscale : r.scale s ≠ 0) {tmin tmax : K} (hle : tmin ≤ tmax) (z : Complex K) :
    r.profile.convolution s ⟨r.scale s, r.offset, z⟩ (r.reduced s tmin) (r.reduced s tmax) =
      .ok (r.convolved s tmin tmax z) := by
  -- Whatever the sign of the scale, the range runs forwards once it is back in units of time.
  have htime (t : K) : r.scale s * r.reduced s t + r.offset = t := by
    rw [reduced, mul_div_cancel₀ _ hscale, sub_add_cancel]
  unfold Profile.convolution Convolution.range
  dsimp only
  rw [htime, htime, if_pos hle]
  rfl

theorem integralOf_eq (hscale : r.scale s ≠ 0) (hform : form ≠ .gaussian) {tmin tmax : K} (hle : tmin ≤ tmax) :
    r.integralOf s form tmin tmax = .ok (some (r.scale s * form.part (r.convolved s tmin tmax))) := by
  unfold integralOf
  simp only [convolution_eq_convolved hscale hle]
  cases form with
  | gaussian => exact absurd rfl hform
  | vanishing => simp [KernelForm.part, pure, Except.pure]
  | real z => rfl
  | imaginary z => rfl
  | hyperbolic z y sign =>
    rw [KernelForm.part, ← Scalar.exact_half]
    rfl

theorem convolved_conjugate (hs : s.Conjugates) (tmin tmax : K) (z : Complex K) :
    r.convolved s tmin tmax z.conjugate = (r.convolved s tmin tmax z).conjugate :=
  Convolution.total_conjugate ⟨r.scale s, r.offset, z⟩ hs _

variable {tau : K} (hs : s.Conjugates) (basis : DecayBasis K) (hbasis : basis.tau? = some tau) (htau : tau ≠ 0)

include hs hbasis htau

variable [IsStrictOrderedRing K]

theorem value_eq_part (t : K) : r.value s basis t =
    r.profile.value t * (KernelForm.general (r.scale s) basis).part (s.kernel (r.reduced s t)) := by
  have hform := KernelForm.ofBasis_ne_gaussian (r.scale s) hbasis htau
  rw [value, valueOf_eq hform, KernelForm.part_ofBasis _ (hs _) hbasis htau]

theorem integral?_eq_part (hscale : r.scale s ≠ 0) {tmin tmax : K} (hle : tmin ≤ tmax) :
    r.integral? s basis tmin tmax =
      .ok (some (r.scale s * (KernelForm.general (r.scale s) basis).part (r.convolved s tmin tmax))) := by
  have hform := KernelForm.ofBasis_ne_gaussian (r.scale s) hbasis htau
  have hconvolved := convolved_conjugate (r := r) hs tmin tmax
  rw [integral?, integralOf_eq hscale hform hle,
    KernelForm.part_ofBasis _ hconvolved hbasis htau]

theorem valueOf_general (t : K) :
    r.valueOf s (KernelForm.general (r.scale s) basis) t = r.value s basis t := by
  rw [valueOf_eq (KernelForm.general_ne_gaussian _ hbasis), value_eq_part hs basis hbasis htau]

theorem integralOf_general (hscale : r.scale s ≠ 0) {tmin tmax : K} (hle : tmin ≤ tmax) :
    r.integralOf s (KernelForm.general (r.scale s) basis) tmin tmax = r.integral? s basis tmin tmax := by
  rw [integralOf_eq hscale (KernelForm.general_ne_gaussian _ hbasis) hle,
    integral?_eq_part hs basis hbasis htau hscale hle]

theorem value_opposite (t : K) : r.value s basis.opposite t = basis.parity * r.value s basis t := by
  have hopposite : basis.opposite.tau? = some tau := basis.tau?_opposite ▸ hbasis
  rw [value_eq_part hs _ hopposite htau, value_eq_part hs basis hbasis htau,
    KernelForm.part_opposite _ (hs _), mul_left_comm]

theorem integral?_opposite (hscale : r.scale s ≠ 0) {tmin tmax : K} (hle : tmin ≤ tmax) :
    ∃ v, r.integral? s basis tmin tmax = .ok (some v) ∧
      r.integral? s basis.opposite tmin tmax = .ok (some (basis.parity * v)) := by
  have hopposite : basis.opposite.tau? = some tau := basis.tau?_opposite ▸ hbasis
  have hconvolved := convolved_conjugate (r := r) hs tmin tmax
  refine ⟨_, integral?_eq_part hs basis hbasis htau hscale hle, ?_⟩
  rw [integral?_eq_part hs _ hopposite htau hscale hle, KernelForm.part_opposite _ hconvolved,
    mul_left_comm]

omit hs hbasis htau

/-- Smeared with the kernel of any expansion, a cosine and a hyperbolic cosine stay even and a sine and a hyperbolic sine stay odd. The
shortcuts give what the general forms give, so at zero the odd ones vanish and the even ones are the exponential. -/
theorem keeps_parities {e : Expansion K} (hexp : ∀ z, e.complexExp z.conjugate = (e.complexExp z).conjugate)
    (erf : K → K) (rootTwo : K) {r : Response K} (hscale : r.scale (e.smearing erf rootTwo) ≠ 0)
    (htau : tau ≠ 0) (omega deltaGamma : K) :
    let s := e.smearing erf rootTwo
    let general := KernelForm.general (r.scale s)
    (∀ t, r.value s (.cos tau (-omega)) t = r.value s (.cos tau omega) t ∧
      r.value s (.cosh tau (-deltaGamma)) t = r.value s (.cosh tau deltaGamma) t ∧
      r.value s (.sin tau (-omega)) t = -r.value s (.sin tau omega) t ∧
      r.value s (.sinh tau (-deltaGamma)) t = -r.value s (.sinh tau deltaGamma) t) ∧
    (∀ tmin tmax, tmin ≤ tmax →
      (∃ v, r.integral? s (.cos tau omega) tmin tmax = .ok (some v) ∧
        r.integral? s (.cos tau (-omega)) tmin tmax = .ok (some v)) ∧
      (∃ v, r.integral? s (.cosh tau deltaGamma) tmin tmax = .ok (some v) ∧
        r.integral? s (.cosh tau (-deltaGamma)) tmin tmax = .ok (some v)) ∧
      (∃ v, r.integral? s (.sin tau omega) tmin tmax = .ok (some v) ∧
        r.integral? s (.sin tau (-omega)) tmin tmax = .ok (some (-v))) ∧
      ∃ v, r.integral? s (.sinh tau deltaGamma) tmin tmax = .ok (some v) ∧
        r.integral? s (.sinh tau (-deltaGamma)) tmin tmax = .ok (some (-v))) ∧
    (∀ basis, basis.tau? = some tau →
      (∀ t, r.valueOf s (general basis) t = r.value s basis t) ∧
      ∀ tmin tmax, tmin ≤ tmax →
        r.integralOf s (general basis) tmin tmax = r.integral? s basis tmin tmax) ∧
    (∀ t, r.valueOf s (general (.sin tau 0)) t = 0 ∧ r.value s (.sin tau 0) t = 0 ∧
      r.value s (.sinh tau 0) t = 0 ∧ r.value s (.cos tau 0) t = r.value s (.exp tau) t ∧
      r.valueOf s (general (.cosh tau 0)) t = r.value s (.exp tau) t) ∧
    ∀ tmin tmax, tmin ≤ tmax →
      r.integralOf s (general (.sin tau 0)) tmin tmax = .ok (some 0) ∧
      r.integral? s (.sin tau 0) tmin tmax = .ok (some 0) ∧
      r.integral? s (.sinh tau 0) tmin tmax = .ok (some 0) ∧
      r.integral? s (.cos tau 0) tmin tmax = r.integral? s (.exp tau) tmin tmax ∧
      r.integralOf s (general (.cosh tau 0)) tmin tmax = r.integral? s (.exp tau) tmin tmax := by
  intro s general
  have hs : s.Conjugates := Expansion.conjugates_smearing hexp erf rootTwo
  refine ⟨?_, ?_, ?_, ?_, ?_⟩
  · intro t
    exact ⟨(value_opposite hs (.cos tau omega) rfl htau t).trans (one_mul _),
      (value_opposite hs (.cosh tau deltaGamma) rfl htau t).trans (one_mul _),
      (value_opposite hs (.sin tau omega) rfl htau t).trans (neg_one_mul _),
      (value_opposite hs (.sinh tau deltaGamma) rfl htau t).trans (neg_one_mul _)⟩
  · intro tmin tmax hle
    obtain ⟨c, hc, hc'⟩ := integral?_opposite hs (.cos tau omega) rfl htau hscale hle
    obtain ⟨h, hh, hh'⟩ := integral?_opposite hs (.cosh tau deltaGamma) rfl htau hscale hle
    obtain ⟨d, hd, hd'⟩ := integral?_opposite hs (.sin tau omega) rfl htau hscale hle
    obtain ⟨k, hk, hk'⟩ := integral?_opposite hs (.sinh tau deltaGamma) rfl htau hscale hle
    simp only [DecayBasis.parity, one_mul] at hc' hh'
    simp only [DecayBasis.parity, neg_one_mul] at hd' hk'
    exact ⟨⟨c, hc, hc'⟩, ⟨h, hh, hh'⟩, ⟨d, hd, hd'⟩, k, hk, hk'⟩
  · intro basis hbasis
    exact ⟨valueOf_general hs basis hbasis htau,
      fun _ _ => integralOf_general hs basis hbasis htau hscale⟩
  · intro t
    have hsin : r.value s (.sin tau 0) t = 0 := by
      rw [value_eq_part hs _ rfl htau, KernelForm.part_sin_zero _ tau (hs _), mul_zero]
    refine ⟨(valueOf_general hs _ rfl htau t).trans hsin, hsin, ?_, ?_, ?_⟩
    · rw [value_eq_part hs _ rfl htau, KernelForm.part_sinh_zero, mul_zero]
    · rw [value_eq_part hs _ rfl htau, value_eq_part hs _ rfl htau, KernelForm.general_cos_zero]
    · rw [valueOf_general hs _ rfl htau, value_eq_part hs _ rfl htau, value_eq_part hs _ rfl htau,
        KernelForm.part_cosh_zero]
  · intro tmin tmax hle
    have hconvolved := convolved_conjugate (r := r) hs tmin tmax
    have hsin : r.integral? s (.sin tau 0) tmin tmax = .ok (some 0) := by
      rw [integral?_eq_part hs _ rfl htau hscale hle, KernelForm.part_sin_zero _ tau hconvolved, mul_zero]
    refine ⟨(integralOf_general hs _ rfl htau hscale hle).trans hsin, hsin, ?_, ?_, ?_⟩
    · rw [integral?_eq_part hs _ rfl htau hscale hle, KernelForm.part_sinh_zero, mul_zero]
    · rw [integral?_eq_part hs _ rfl htau hscale hle, integral?_eq_part hs _ rfl htau hscale hle,
        KernelForm.general_cos_zero]
    · rw [integralOf_general hs _ rfl htau hscale hle, integral?_eq_part hs _ rfl htau hscale hle,
        integral?_eq_part hs _ rfl htau hscale hle, KernelForm.part_cosh_zero]

theorem keeps_parities_at_steps :
    let e : Expansion ℝ := ⟨1, [1, 2], √Real.pi, Real.exp,
      fun z => ⟨Real.exp z.re * Real.cos z.im, Real.exp z.re * Real.sin z.im⟩⟩
    let s := e.smearing (fun x => x) √2
    let r : Response ℝ := ⟨.steps ⟨[0, 1], [1], true⟩, 1, 0⟩
    (∀ z, e.complexExp z.conjugate = (e.complexExp z).conjugate) ∧ r.scale s ≠ 0 ∧ (2 : ℝ) ≠ 0 ∧
      (∀ t, r.value s (.sin 2 (-3)) t = -r.value s (.sin 2 3) t) ∧
      ∃ v, r.integral? s (.cosh 2 5) (-1) 2 = .ok (some v) ∧
        r.integral? s (.cosh 2 (-5)) (-1) 2 = .ok (some v) := by
  intro e s r
  have hexp : ∀ z, e.complexExp z.conjugate = (e.complexExp z).conjugate := by
    intro z
    apply Complex.eq_of_parts
    · exact congrArg (Real.exp z.re * ·) (Real.cos_neg z.im)
    · change Real.exp z.re * Real.sin (-z.im) = -(Real.exp z.re * Real.sin z.im)
      rw [Real.sin_neg, mul_neg]
  have hscale : r.scale s ≠ 0 := by
    simp [r, s, scale, Expansion.smearing]
  obtain ⟨hvalue, hintegral, -⟩ := keeps_parities hexp (fun x => x) √2 hscale two_ne_zero 3 5
  obtain ⟨-, hcosh, -⟩ := hintegral (-1) 2 (by norm_num)
  exact ⟨hexp, hscale, two_ne_zero, fun t => (hvalue t).2.2.1, hcosh⟩

end Response

end LifetimeEfficiency
