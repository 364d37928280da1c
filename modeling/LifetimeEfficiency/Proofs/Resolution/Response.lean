import LifetimeEfficiency.Proofs.Efficiency.Convolution
import LifetimeEfficiency.Resolution.Model
/-!
# Integrals of responses

The closed form of an integral is a convolution for each argument of the kernel form, in units of the scale. Its derivative is
the value that the same form gives point by point.
-/
namespace LifetimeEfficiency

/-- A basis that leaves the bare resolution: it starts at one and has no lifetime. -/
def DecayBasis.IsBare : DecayBasis ℝ → Prop
  | .flat => True
  | .exp tau => tau = 0
  | .sin _ _ => False
  | .cos tau _ => tau = 0
  | .sinh _ _ => False
  | .cosh tau deltaGamma => tau = 0 ∧ deltaGamma = 0

namespace KernelForm

/-- The complex numbers that a form is convolved at. -/
def arguments {K : Type} [Scalar K] : KernelForm K → List (Complex K)
  | gaussian => []
  | vanishing => []
  | real z => [z]
  | imaginary z => [z]
  | hyperbolic z y _ => [z.subReal y, z.addReal y]

theorem ofBasis_eq_gaussian_iff (scale : ℝ) (basis : DecayBasis ℝ) :
    ofBasis scale basis = gaussian ↔ basis.IsBare := by
  cases basis with
  | flat => simp [ofBasis, DecayBasis.normalized, DecayBasis.tau?, DecayBasis.IsBare]
  | exp tau =>
    by_cases h : tau = 0 <;>
      simp [ofBasis, DecayBasis.normalized, DecayBasis.tau?, DecayBasis.IsBare, ofInstant, ofDecay, general, h]
  | sin tau omega =>
    by_cases h : tau = 0 <;> by_cases h' : omega = 0 <;>
      simp [ofBasis, DecayBasis.normalized, DecayBasis.tau?, DecayBasis.IsBare, ofInstant, ofDecay, general, h, h']
  | cos tau omega =>
    by_cases h : tau = 0 <;>
      simp [ofBasis, DecayBasis.normalized, DecayBasis.tau?, DecayBasis.IsBare, ofInstant, ofDecay, general, h]
  | sinh tau deltaGamma =>
    by_cases h : tau = 0 <;>
      simp [ofBasis, DecayBasis.normalized, DecayBasis.tau?, DecayBasis.IsBare, ofInstant, ofDecay, general, h]
  | cosh tau deltaGamma =>
    by_cases h : tau = 0 <;> by_cases h' : deltaGamma = 0 <;>
      simp [ofBasis, DecayBasis.normalized, DecayBasis.tau?, DecayBasis.IsBare, ofInstant, ofDecay, general, h, h']

/-- The real or imaginary part, or the combination, that a form takes of the convolutions at its arguments. -/
noncomputable def combine (f : Complex ℝ → ℂ) : KernelForm ℝ → ℝ
  | .gaussian => 0
  | .vanishing => 0
  | .real z => (f z).re
  | .imaginary z => (f z).im
  | .hyperbolic z y sign => 1 / 2 * ((f (z.subReal y)).re + sign * (f (z.addReal y)).re)

theorem combine_ofReal_mul (a : ℝ) (f : Complex ℝ → ℂ) (form : KernelForm ℝ) :
    combine (fun z => a * f z) form = a * combine f form := by
  cases form with
  | gaussian => simp [combine]
  | vanishing => simp [combine]
  | real z => simp [combine]
  | imaginary z => simp [combine]
  | hyperbolic z y sign =>
    simp only [combine, Complex.re_ofReal_mul]
    ring

theorem combine_zero (form : KernelForm ℝ) : combine (fun _ => 0) form = 0 := by
  cases form <;> simp [combine]

section Derivative

variable {F : Complex ℝ → ℝ → ℂ} {f' : Complex ℝ → ℂ} {form : KernelForm ℝ} {t : ℝ}

theorem hasDerivAt_combine (h : ∀ z ∈ form.arguments, HasDerivAt (F z) (f' z) t) :
    HasDerivAt (fun t => combine (fun z => F z t) form) (combine f' form) t := by
  have hre {z : Complex ℝ} (hz : z ∈ form.arguments) :
      HasDerivAt (fun t => (F z t).re) (f' z).re t :=
    Complex.reCLM.hasFDerivAt.comp_hasDerivAt t (h z hz)
  have him {z : Complex ℝ} (hz : z ∈ form.arguments) :
      HasDerivAt (fun t => (F z t).im) (f' z).im t :=
    Complex.imCLM.hasFDerivAt.comp_hasDerivAt t (h z hz)
  cases form with
  | gaussian => exact hasDerivAt_const t 0
  | vanishing => exact hasDerivAt_const t 0
  | real z => exact hre (List.mem_singleton_self z)
  | imaginary z => exact him (List.mem_singleton_self z)
  | hyperbolic z y sign =>
    have hsub := hre (z := z.subReal y) (by simp [arguments])
    have hadd := hre (z := z.addReal y) (by simp [arguments])
    exact (hsub.fun_add (hadd.const_mul sign)).const_mul (1 / 2)

theorem continuous_combine (h : ∀ z ∈ form.arguments, Continuous (F z)) :
    Continuous fun t => combine (fun z => F z t) form := by
  cases form with
  | gaussian => exact continuous_const
  | vanishing => exact continuous_const
  | real z => exact Complex.continuous_re.comp (h z (List.mem_singleton_self z))
  | imaginary z => exact Complex.continuous_im.comp (h z (List.mem_singleton_self z))
  | hyperbolic z y sign =>
    have hsub := Complex.continuous_re.comp (h (z.subReal y) (by simp [arguments]))
    have hadd := Complex.continuous_re.comp (h (z.addReal y) (by simp [arguments]))
    exact continuous_const.mul (hsub.add (continuous_const.mul hadd))

end Derivative

end KernelForm

namespace Response

variable {s : Smearing ℝ} {r : Response ℝ}

noncomputable def primitive (s : Smearing ℝ) (r : Response ℝ) (z : Complex ℝ) (t : ℝ) : ℂ :=
  r.profile.primitive s ⟨r.scale s, r.offset, z⟩ t

theorem value_of_isBare {basis : DecayBasis ℝ} (hbasis : basis.IsBare) (t : ℝ) :
    r.value s basis t = r.profile.value t * s.gauss (r.reduced s t) / (r.scale s * s.rootPi) := by
  have hform := (KernelForm.ofBasis_eq_gaussian_iff (r.scale s) basis).mpr hbasis
  simp [value, valueOf, hform]

theorem zero_of_vanishing {basis : DecayBasis ℝ}
    (hform : KernelForm.ofBasis (r.scale s) basis = .vanishing) (tmin t : ℝ) :
    r.value s basis t = 0 ∧ r.integral? s basis tmin t = .ok (some 0) := by
  constructor
  · simp [value, valueOf, hform]
  · simp [integral?, integralOf, hform, pure, Except.pure]

/-- The values of every other basis are the profile times a combination of kernels. -/
theorem value_eq {basis : DecayBasis ℝ} (hbasis : ¬ basis.IsBare) (t : ℝ) :
    r.value s basis t = r.profile.value t * (KernelForm.ofBasis (r.scale s) basis).combine
      fun z => (s.kernel (r.reduced s t) z).toComplex := by
  have hform := mt (KernelForm.ofBasis_eq_gaussian_iff (r.scale s) basis).mp hbasis
  rw [value]
  cases hcase : KernelForm.ofBasis (r.scale s) basis with
  | gaussian => exact absurd hcase hform
  | vanishing => simp [valueOf, KernelForm.combine]
  | real z => simp [valueOf, KernelForm.combine]
  | imaginary z => simp [valueOf, KernelForm.combine]
  | hyperbolic z y sign => simp [valueOf, KernelForm.combine]

section Exact

variable (hscale : 0 < r.scale s) (hp : r.profile.Accepted)

include hscale

theorem time_reduced (t : ℝ) : r.scale s * r.reduced s t + r.offset = t := by
  rw [reduced, mul_div_cancel₀ _ hscale.ne', sub_add_cancel]

include hp

theorem convolution_eq (z : Complex ℝ) {tmin t : ℝ} (ht : tmin ≤ t) :
    ∃ w, r.profile.convolution s ⟨r.scale s, r.offset, z⟩ (r.reduced s tmin) (r.reduced s t) = .ok w ∧
      w.toComplex = r.primitive s z t - r.primitive s z tmin := by
  have htmin := time_reduced hscale tmin
  have htime := time_reduced hscale t
  have hle : r.scale s * r.reduced s tmin + r.offset ≤ r.scale s * r.reduced s t + r.offset := by
    rwa [htmin, htime]
  obtain ⟨w, hw, heq⟩ := Profile.convolution_eq (s := s) (c := ⟨r.scale s, r.offset, z⟩) hp hle
  rw [htmin, htime] at heq
  exact ⟨w, hw, heq⟩

theorem integral?_eq {basis : DecayBasis ℝ} (hbasis : ¬ basis.IsBare) {tmin t : ℝ} (ht : tmin ≤ t) :
    r.integral? s basis tmin t = .ok (some (r.scale s *
      (KernelForm.ofBasis (r.scale s) basis).combine
        fun z => r.primitive s z t - r.primitive s z tmin)) := by
  have hform := mt (KernelForm.ofBasis_eq_gaussian_iff (r.scale s) basis).mp hbasis
  rw [integral?]
  cases hcase : KernelForm.ofBasis (r.scale s) basis with
  | gaussian => exact absurd hcase hform
  | vanishing => simp [integralOf, KernelForm.combine, pure, Except.pure]
  | real z =>
    obtain ⟨w, hw, heq⟩ := convolution_eq hscale hp z ht
    dsimp only [integralOf]
    rw [hw, KernelForm.combine, ← heq]
    rfl
  | imaginary z =>
    obtain ⟨w, hw, heq⟩ := convolution_eq hscale hp z ht
    dsimp only [integralOf]
    rw [hw, KernelForm.combine, ← heq]
    rfl
  | hyperbolic z y sign =>
    obtain ⟨a, ha, haeq⟩ := convolution_eq hscale hp (z.subReal y) ht
    obtain ⟨b, hb, hbeq⟩ := convolution_eq hscale hp (z.addReal y) ht
    dsimp only [integralOf]
    rw [ha, hb, KernelForm.combine, ← haeq, ← hbeq, ← Scalar.exact_half]
    rfl

theorem integral?_eq_none_iff {basis : DecayBasis ℝ} {tmin t : ℝ} (ht : tmin ≤ t) :
    r.integral? s basis tmin t = .ok none ↔ basis.IsBare := by
  constructor
  · intro hnone
    by_contra hbasis
    rw [integral?_eq hscale hp hbasis ht] at hnone
    cases hnone
  · intro hbasis
    have hform := (KernelForm.ofBasis_eq_gaussian_iff (r.scale s) basis).mpr hbasis
    simp [integral?, integralOf, hform, pure, Except.pure]

theorem hasDerivAt_primitive {z : Complex ℝ} (hs : s.Lawful z) (hz : z.toComplex ≠ 0) {t : ℝ}
    (ht : t ∉ r.profile.boundaries) :
    HasDerivAt (r.primitive s z)
      ((r.profile.value t / r.scale s : ℝ) * (s.kernel (r.reduced s t) z).toComplex) t := by
  have hderiv := Profile.hasDerivAt_primitive (c := ⟨r.scale s, r.offset, z⟩) hs hz hscale.ne' hp ht
  refine HasDerivAt.congr_deriv hderiv ?_
  rw [reduced, Complex.ofReal_div]
  ring

end Exact

end Response

/-- A response has a closed integral exactly for the bases that do not leave the resolution bare. It is zero where the values are,
and otherwise a primitive of the values that vanishes at the lower limit. -/
theorem ResolutionModel.integral_is_primitive {α : Type} {m : ResolutionModel ℝ α}
    (hm : m.efficiency.Constructed) (value : α → ℝ) (hwidth : 0 < m.width value) {s : Smearing ℝ}
    (hs : ∀ z, s.Lawful z) (hroot : 0 < s.rootTwo) (basis : DecayBasis ℝ) (tmin : ℝ) :
    let r := m.response value
    let form := KernelForm.ofBasis (r.scale s) basis
    (form = .gaussian ↔ basis.IsBare) ∧
    (∀ t, tmin ≤ t → (r.integral? s basis tmin t = .ok none ↔ basis.IsBare)) ∧
    (basis.IsBare → ∀ t, r.value s basis t =
      r.profile.value t * s.gauss (r.reduced s t) / (r.scale s * s.rootPi)) ∧
    (form = .vanishing → ∀ t, r.value s basis t = 0 ∧ r.integral? s basis tmin t = .ok (some 0)) ∧
    (¬ basis.IsBare → (∀ z ∈ form.arguments, z.toComplex ≠ 0) →
      ∃ T : ℝ → ℝ,
        (∀ t, tmin ≤ t → r.integral? s basis tmin t = .ok (some (T t))) ∧ T tmin = 0 ∧
        ContinuousOn T (Set.Ici tmin) ∧
        ∀ t, tmin < t → t ∉ r.profile.boundaries → HasDerivAt T (r.value s basis t) t) := by
  intro r form
  have hp : r.profile.Accepted := hm.profile value
  have hscale : 0 < r.scale s := mul_pos hwidth hroot
  have hbare : form = .gaussian ↔ basis.IsBare := KernelForm.ofBasis_eq_gaussian_iff _ basis
  refine ⟨hbare, fun t ht => Response.integral?_eq_none_iff hscale hp ht,
    fun hbasis t => Response.value_of_isBare hbasis t,
    fun hform t => Response.zero_of_vanishing hform tmin t, ?_⟩
  intro hbasis hargs
  refine ⟨fun t => r.scale s * form.combine fun z => r.primitive s z t - r.primitive s z tmin,
    fun t ht => Response.integral?_eq hscale hp hbasis ht, ?_, ?_, ?_⟩
  · simp only [sub_self, KernelForm.combine_zero, mul_zero]
  · apply Continuous.continuousOn
    refine continuous_const.mul (KernelForm.continuous_combine fun z hz => ?_)
    exact (Profile.continuous_primitive (hs z) (hargs z hz) hscale.ne').sub continuous_const
  · intro t _ ht
    have hprimitive (z : Complex ℝ) (hz : z ∈ form.arguments) :
        HasDerivAt (fun t => r.primitive s z t - r.primitive s z tmin)
          ((r.profile.value t / r.scale s : ℝ) * (s.kernel (r.reduced s t) z).toComplex) t :=
      (Response.hasDerivAt_primitive hscale hp (hs z) (hargs z hz) ht).sub_const _
    have hcombine := (KernelForm.hasDerivAt_combine hprimitive).const_mul (r.scale s)
    refine HasDerivAt.congr_deriv hcombine ?_
    rw [KernelForm.combine_ofReal_mul, Response.value_eq hbasis, ← mul_assoc,
      mul_div_cancel₀ _ hscale.ne']

theorem ResolutionModel.integral_is_primitive_at_cosh :
    let m : ResolutionModel ℝ ℝ := ⟨"res", ⟨"eff", .threshold ⟨[0, 2], []⟩⟩, 0, 1, 1, 1⟩
    let r := m.response id
    let s := Smearing.ideal
    let basis : DecayBasis ℝ := .cosh 2 (1 / 2)
    m.efficiency.Constructed ∧ 0 < m.width id ∧ (∀ z, s.Lawful z) ∧ 0 < s.rootTwo ∧
      ¬ basis.IsBare ∧ (∀ z ∈ (KernelForm.ofBasis (r.scale s) basis).arguments, z.toComplex ≠ 0) ∧
      ∃ T : ℝ → ℝ,
        (∀ t, -1 ≤ t → r.integral? s basis (-1) t = .ok (some (T t))) ∧ T (-1) = 0 ∧
        ContinuousOn T (Set.Ici (-1)) ∧
        ∀ t, -1 < t → t ∉ r.profile.boundaries → HasDerivAt T (r.value s basis t) t := by
  intro m r s basis
  have hrange : Thresholds.ofRange (α := ℝ) (0 : ℝ) 2 = .ok ⟨[0, 2], []⟩ := by
    simp [Thresholds.ofRange]
  have hok : Efficiency.ofRange (α := ℝ) "eff" 0 2 = .ok m.efficiency := by
    rw [Efficiency.ofRange, hrange]
    rfl
  have hm : m.efficiency.Constructed := .ofRange hok
  have hwidth : 0 < m.width id := by
    simp [m, ResolutionModel.width]
  have hs (z : Complex ℝ) : s.Lawful z := Smearing.lawful_ideal z
  have hroot : 0 < s.rootTwo := Real.sqrt_pos.mpr two_pos
  have hbasis : ¬ basis.IsBare := by
    simp [basis, DecayBasis.IsBare]
  have hscale : r.scale s = √2 := by
    simp [r, m, s, ResolutionModel.response, ResolutionModel.width, Response.scale, Smearing.ideal]
  have hform : KernelForm.ofBasis (r.scale s) basis =
      .hyperbolic (KernelForm.argument √2 2 0) (1 / 4 * √2 * (1 / 2)) 1 := by
    simp [hscale, basis, KernelForm.ofBasis, DecayBasis.normalized, DecayBasis.tau?,
      KernelForm.ofDecay, KernelForm.general]
  have hargs : ∀ z ∈ (KernelForm.ofBasis (r.scale s) basis).arguments, z.toComplex ≠ 0 := by
    have hpos : (0 : ℝ) < √2 := hroot
    intro z hz hzero
    have hre : z.re = 0 := congrArg (·.re) hzero
    simp only [hform, KernelForm.arguments, List.mem_cons, List.not_mem_nil, or_false] at hz
    obtain rfl | rfl := hz
    · simp [KernelForm.argument, Complex.scale, Complex.subReal] at hre
      linarith
    · simp [KernelForm.argument, Complex.scale, Complex.addReal] at hre
      linarith
  obtain ⟨-, -, -, -, hprimitive⟩ :=
    ResolutionModel.integral_is_primitive hm id hwidth hs hroot basis (-1)
  exact ⟨hm, hwidth, hs, hroot, hbasis, hargs, hprimitive hbasis hargs⟩

end LifetimeEfficiency
