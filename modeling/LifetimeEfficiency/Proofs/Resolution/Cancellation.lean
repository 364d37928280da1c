import LifetimeEfficiency.Proofs.Efficiency.Defined
import LifetimeEfficiency.Proofs.Resolution.Parity
import LifetimeEfficiency.Proofs.Resolution.Response
import LifetimeEfficiency.Proofs.Smearing.Singular
/-!
# Rates that cancel

A width difference shifts the decay rate both ways by half of itself. Where one of the two rates comes out as zero the
smeared basis still has its values, but the closed form of the integral divides by that rate.
-/
namespace LifetimeEfficiency

open Undefinable (undefined number)

def DecayBasis.map {K L : Type} (f : K → L) : DecayBasis K → DecayBasis L
  | .flat => .flat
  | .exp tau => .exp (f tau)
  | .sin tau omega => .sin (f tau) (f omega)
  | .cos tau omega => .cos (f tau) (f omega)
  | .sinh tau deltaGamma => .sinh (f tau) (f deltaGamma)
  | .cosh tau deltaGamma => .cosh (f tau) (f deltaGamma)

/-- Half the width difference is the decay rate, up to its sign. -/
def DecayBasis.Cancels {K : Type} [Field K] : DecayBasis K → Prop
  | .sinh tau deltaGamma => tau * deltaGamma = 2 ∨ tau * deltaGamma = -2
  | .cosh tau deltaGamma => tau * deltaGamma = 2 ∨ tau * deltaGamma = -2
  | _ => False

variable {K : Type} [Field K] [LinearOrder K] [IsStrictOrderedRing K]

theorem Undefinable.half_eq : (Scalar.half : Undefinable K) = number (1 / 2) := by
  rw [Scalar.half, one_eq, numeral_eq, number_div two_ne_zero]

namespace KernelForm

/-- Numbers, and a single argument is not zero. -/
def Defined : KernelForm (Undefinable K) → Prop
  | gaussian => True
  | vanishing => True
  | real z => z.Defined ∧ z ≠ Complex.zero
  | imaginary z => z.Defined ∧ z ≠ Complex.zero
  | hyperbolic z y sign => z.Defined ∧ y ≠ undefined ∧ sign ≠ undefined

variable {scale tau omega deltaGamma : K}

theorem argument_eq (htau : tau ≠ 0) : argument (number scale) (number tau) (number omega) =
    ⟨number (1 / tau * (1 / 2 * scale)), number (-omega * (1 / 2 * scale))⟩ := by
  simp [argument, Complex.scale, Undefinable.half_eq, Undefinable.one_eq, Undefinable.number_div htau]

theorem shift_eq : (1 / 4 * number scale * number deltaGamma : Undefinable K) =
    number (1 / 4 * scale * deltaGamma) := by
  rw [Undefinable.one_eq, Undefinable.numeral_eq, Undefinable.number_div four_ne_zero, Undefinable.number_mul,
    Undefinable.number_mul]

theorem defined_argument (htau : tau ≠ 0) : (argument (number scale) (number tau) (number omega)).Defined := by
  rw [argument_eq htau]
  exact ⟨nofun, nofun⟩

theorem argument_ne_zero (hscale : scale ≠ 0) (htau : tau ≠ 0) :
    argument (number scale) (number tau) (number omega) ≠ Complex.zero := by
  have hrate : 1 / tau * (1 / 2 * scale) ≠ 0 := by positivity
  rw [argument_eq htau]
  intro hzero
  exact hrate (Undefinable.number_eq_zero_iff.mp (congrArg Complex.re hzero))

theorem zero_mem_pair_iff (hscale : scale ≠ 0) (htau : tau ≠ 0) :
    Complex.zero ∈ [(argument (number scale) (number tau) 0).subReal (1 / 4 * number scale * number deltaGamma),
      (argument (number scale) (number tau) 0).addReal (1 / 4 * number scale * number deltaGamma)] ↔
    tau * deltaGamma = 2 ∨ tau * deltaGamma = -2 := by
  -- both rates are this unit times two minus or plus the product of the lifetime and the width difference
  have hunit : scale / (4 * tau) ≠ 0 := by positivity
  have hless : 1 / tau * (1 / 2 * scale) - 1 / 4 * scale * deltaGamma = scale / (4 * tau) * (2 - tau * deltaGamma) := by
    field_simp
    ring
  have hmore : 1 / tau * (1 / 2 * scale) + 1 / 4 * scale * deltaGamma = scale / (4 * tau) * (2 + tau * deltaGamma) := by
    field_simp
    ring
  have hzero (x : K) : Complex.zero = (⟨number x, number (-0 * (1 / 2 * scale))⟩ : Complex (Undefinable K)) ↔ x = 0 := by
    simp [Complex.zero, Undefinable.zero_eq, eq_comm]
  rw [Undefinable.zero_eq, argument_eq htau, shift_eq, List.mem_pair, Complex.subReal, Complex.addReal, Undefinable.number_sub,
    Undefinable.number_add, hzero, hzero, hless, hmore, mul_eq_zero_iff_left hunit, mul_eq_zero_iff_left hunit]
  refine or_congr ?_ ?_
  · rw [sub_eq_zero, eq_comm]
  · rw [add_comm, add_eq_zero_iff_eq_neg]

/-- All numbers, with a zero among the arguments exactly on a condition. -/
structure Singular (P : Prop) (form : KernelForm (Undefinable K)) : Prop where
  defined : form.Defined
  zero_mem_iff : Complex.zero ∈ form.arguments ↔ P

omit [IsStrictOrderedRing K] in
theorem singular_gaussian : Singular (K := K) False gaussian := ⟨trivial, by simp [arguments]⟩

omit [IsStrictOrderedRing K] in
theorem singular_vanishing : Singular (K := K) False vanishing := ⟨trivial, by simp [arguments]⟩

theorem singular_real (hscale : scale ≠ 0) (htau : tau ≠ 0) :
    Singular False (real (argument (number scale) (number tau) (number omega))) := by
  have hne : argument (number scale) (number tau) (number omega) ≠ Complex.zero := argument_ne_zero hscale htau
  exact ⟨⟨defined_argument htau, hne⟩, by simp [arguments, hne.symm]⟩

theorem singular_imaginary (hscale : scale ≠ 0) (htau : tau ≠ 0) :
    Singular False (imaginary (argument (number scale) (number tau) (number omega))) := by
  have hne : argument (number scale) (number tau) (number omega) ≠ Complex.zero := argument_ne_zero hscale htau
  exact ⟨⟨defined_argument htau, hne⟩, by simp [arguments, hne.symm]⟩

theorem singular_hyperbolic (hscale : scale ≠ 0) (htau : tau ≠ 0) {sign : Undefinable K} (hsign : sign ≠ undefined) :
    Singular (tau * deltaGamma = 2 ∨ tau * deltaGamma = -2)
      (hyperbolic (argument (number scale) (number tau) 0) (1 / 4 * number scale * number deltaGamma) sign) := by
  refine ⟨⟨?_, ?_, hsign⟩, zero_mem_pair_iff hscale htau⟩
  · rw [Undefinable.zero_eq]
    exact defined_argument htau
  · rw [shift_eq]
    nofun

omit [IsStrictOrderedRing K] in
theorem ne_zero_of_beq (htau : ¬ Scalar.toBEq.beq (number tau) 0 = true) : tau ≠ 0 :=
  mt Undefinable.number_beq_zero_iff.mpr htau

theorem singular_exponential (hscale : scale ≠ 0) : Singular False
    (if Scalar.toBEq.beq (number tau) 0 then gaussian else real (argument (number scale) (number tau) (number omega))) := by
  split
  · exact singular_gaussian
  · rename_i htau
    exact singular_real hscale (ne_zero_of_beq htau)

theorem singular_pair (hscale : scale ≠ 0) {sign : Undefinable K} (hsign : sign ≠ undefined) :
    Singular (tau * deltaGamma = 2 ∨ tau * deltaGamma = -2)
      (if Scalar.toBEq.beq (number tau) 0 then vanishing
        else hyperbolic (argument (number scale) (number tau) 0) (1 / 4 * number scale * number deltaGamma) sign) := by
  split
  · rename_i htau
    have hnone : (tau * deltaGamma = 2 ∨ tau * deltaGamma = -2) = False := by
      simp [Undefinable.number_beq_zero_iff.mp htau, eq_comm]
    rw [hnone]
    exact singular_vanishing
  · rename_i htau
    exact singular_hyperbolic hscale (ne_zero_of_beq htau) hsign

theorem singular_ofBasis (hscale : scale ≠ 0) (basis : DecayBasis K) :
    Singular basis.Cancels (ofBasis (number scale) (basis.map number)) := by
  have hexp (tau : K) : Singular False
      (if Scalar.toBEq.beq (number tau) 0 then gaussian else real (argument (number scale) (number tau) 0)) := by
    have hdecay : Singular False (if Scalar.toBEq.beq (number tau) 0 then gaussian
        else real (argument (number scale) (number tau) (number 0))) := singular_exponential hscale
    rwa [← Undefinable.zero_eq] at hdecay
  unfold ofBasis
  cases basis with
  | flat => exact singular_gaussian
  | exp tau => exact hexp tau
  | cos tau omega => exact singular_exponential hscale
  | sin tau omega =>
    dsimp only [DecayBasis.map, DecayBasis.normalized, DecayBasis.tau?]
    split
    · exact singular_vanishing
    · rename_i htau
      dsimp only [ofDecay]
      split
      · exact singular_vanishing
      · exact singular_imaginary hscale (ne_zero_of_beq htau)
  | sinh tau deltaGamma => exact singular_pair hscale (by simp)
  | cosh tau deltaGamma =>
    -- without a width difference this is a plain exponential
    by_cases hdelta : deltaGamma = 0
    · have hplain : ((DecayBasis.cosh tau deltaGamma).map number).normalized = .exp (number tau) :=
        if_pos (Undefinable.number_beq_zero_iff.mpr hdelta)
      have hnone : (DecayBasis.cosh tau deltaGamma).Cancels = False := by
        simp [DecayBasis.Cancels, hdelta, eq_comm]
      rw [hplain, hnone]
      exact hexp tau
    · have hkept : ((DecayBasis.cosh tau deltaGamma).map number).normalized = .cosh (number tau) (number deltaGamma) :=
        if_neg (mt Undefinable.number_beq_zero_iff.mp hdelta)
      rw [hkept]
      exact singular_pair hscale (by simp)

end KernelForm

namespace Response

structure Defined (s : Smearing (Undefinable K)) (r : Response (Undefinable K)) : Prop where
  profile : r.profile.Defined
  scale : r.scale s ≠ undefined ∧ r.scale s ≠ 0
  offset : r.offset ≠ undefined

variable {s : Smearing (Undefinable K)} {r : Response (Undefinable K)} {form : KernelForm (Undefinable K)}
  {t tmin tmax : Undefinable K}

omit [IsStrictOrderedRing K] in
theorem Defined.reduced (hr : r.Defined s) (ht : t ≠ undefined) : r.reduced s t ≠ undefined := by
  simp [Response.reduced, ht, hr.offset, hr.scale]

omit [IsStrictOrderedRing K] in
theorem Defined.time_reduced (hr : r.Defined s) (ht : t ≠ undefined) : r.scale s * r.reduced s t + r.offset = t := by
  obtain ⟨scale, hscale⟩ := Undefinable.exists_number hr.scale.1
  obtain ⟨offset, hoffset⟩ := Undefinable.exists_number hr.offset
  obtain ⟨t, rfl⟩ := Undefinable.exists_number ht
  have hne : scale ≠ 0 := mt (fun h => hscale.trans (Undefinable.number_eq_zero_iff.mpr h)) hr.scale.2
  rw [Response.reduced, hscale, hoffset, Undefinable.number_sub, Undefinable.number_div hne, Undefinable.number_mul,
    Undefinable.number_add, mul_div_cancel₀ _ hne, sub_add_cancel]

/-- Limits in order are taken, and a value is missed only at zero. -/
theorem Defined.convolution (hr : r.Defined s) (hs : s.Defined) {z : Complex (Undefinable K)} (hz : z.Defined)
    (hle : tmin ≤ tmax) :
    ∃ w, r.profile.convolution s ⟨r.scale s, r.offset, z⟩ (r.reduced s tmin) (r.reduced s tmax) = .ok w ∧
      (w.re = undefined ↔ z = Complex.zero ∧ ∃ g ∈ r.profile.segments tmin tmax, g.Counts) ∧
      (z ≠ Complex.zero → w.Defined) := by
  obtain ⟨hmin, hmax⟩ := Undefinable.ne_undefined_of_le hle
  have hrange : Convolution.range ⟨r.scale s, r.offset, z⟩ (r.reduced s tmin) (r.reduced s tmax) = .ok (tmin, tmax) := by
    rw [Convolution.range, hr.time_reduced hmin, hr.time_reduced hmax, if_pos hle]
  refine ⟨_, bind_eq_ok_iff.mpr ⟨_, hrange, rfl⟩, ?_⟩
  exact Convolution.total_spec hs hr.scale hr.offset hz (hr.profile.segments tmin tmax hmin hmax)

theorem Defined.valueOf (hr : r.Defined s) (hs : s.Defined) (hform : form.Defined) (ht : t ≠ undefined) :
    r.valueOf s form t ≠ undefined := by
  have hvalue := hr.profile.value t ht
  have hreduced := hr.reduced ht
  cases form with
  | gaussian =>
    have hunit : r.scale s * s.rootPi ≠ 0 := by
      rw [Ne, Undefinable.mul_eq_zero_iff hr.scale.1 hs.rootPi.1]
      exact not_or.mpr ⟨hr.scale.2, hs.rootPi.2⟩
    simp [Response.valueOf, hvalue, hs.gauss _ hreduced, hr.scale, hs.rootPi, hunit]
  | vanishing => exact Undefinable.zero_ne_undefined
  | real z =>
    have hkernel := hs.kernel _ z hreduced hform.1
    simp [Response.valueOf, hvalue, hkernel.re]
  | imaginary z =>
    have hkernel := hs.kernel _ z hreduced hform.1
    simp [Response.valueOf, hvalue, hkernel.im]
  | hyperbolic z y sign =>
    obtain ⟨hz, hy, hsign⟩ := hform
    have hless := hs.kernel _ _ hreduced (hz.subReal hy)
    have hmore := hs.kernel _ _ hreduced (hz.addReal hy)
    simp [Response.valueOf, hvalue, hless.re, hmore.re, hsign]

theorem Defined.integralOf (hr : r.Defined s) (hs : s.Defined) (hform : form.Defined) (hle : tmin ≤ tmax) :
    (form = .gaussian ∧ r.integralOf s form tmin tmax = .ok none) ∨
    (form ≠ .gaussian ∧ ∃ x, r.integralOf s form tmin tmax = .ok (some x) ∧
      (x = undefined ↔ Complex.zero ∈ form.arguments ∧ ∃ g ∈ r.profile.segments tmin tmax, g.Counts)) := by
  cases form with
  | gaussian => exact .inl ⟨rfl, rfl⟩
  | vanishing => exact .inr ⟨by simp, 0, rfl, by simp [KernelForm.arguments]⟩
  | real z =>
    obtain ⟨w, hw, hre, -⟩ := hr.convolution hs hform.1 hle
    refine .inr ⟨by simp, r.scale s * w.re, ?_, ?_⟩
    · simp only [Response.integralOf, hw]
      rfl
    · simp [hr.scale, hre, KernelForm.arguments, eq_comm]
  | imaginary z =>
    obtain ⟨w, hw, -, hdefined⟩ := hr.convolution hs hform.1 hle
    refine .inr ⟨by simp, r.scale s * w.im, ?_, ?_⟩
    · simp only [Response.integralOf, hw]
      rfl
    · simp [hr.scale, (hdefined hform.2).im, KernelForm.arguments, hform.2.symm]
  | hyperbolic z y sign =>
    obtain ⟨hz, hy, hsign⟩ := hform
    obtain ⟨a, ha, hare, -⟩ := hr.convolution hs (hz.subReal hy) hle
    obtain ⟨b, hb, hbre, -⟩ := hr.convolution hs (hz.addReal hy) hle
    refine .inr ⟨by simp, r.scale s * (Scalar.half * (a.re + sign * b.re)), ?_, ?_⟩
    · simp only [Response.integralOf, ha, hb]
      rfl
    · simp [hr.scale, hsign, hare, hbre, KernelForm.arguments, eq_comm, or_and_right]

end Response

namespace ResolutionModel

/-- All that a model reads are numbers. -/
structure Defined {α : Type} (value : α → Undefinable K) (m : ResolutionModel (Undefinable K) α) : Prop where
  heights : ∀ q ∈ m.efficiency.parameters, value q ≠ undefined
  width : m.width value ≠ undefined
  offset : m.offset value ≠ undefined

variable {α : Type} {m : ResolutionModel (Undefinable K) α} {value : α → Undefinable K} {s : Smearing (Undefinable K)}

omit [IsStrictOrderedRing K] in
theorem Defined.response (hvalue : m.Defined value) (hm : m.efficiency.Constructed) (hs : s.Defined)
    (hscale : (m.response value).scale s ≠ 0) : (m.response value).Defined s := by
  have hwidth : (m.response value).scale s ≠ undefined := by
    simp [Response.scale, ResolutionModel.response, hvalue.width, hs.rootTwo]
  exact ⟨hm.defined hvalue.heights, ⟨hwidth, hscale⟩, hvalue.offset⟩

/-- A model of numbers has a value at every time, for every basis. One of the arguments of its kernel is zero exactly if half
the width difference cancels the decay rate, and exactly then is the integral without a value, as soon as some of the
efficiency is not zero. -/
theorem undefined_where_rates_cancel (hm : m.efficiency.Constructed) (hvalue : m.Defined value) (hs : s.Defined)
    (hscale : (m.response value).scale s ≠ 0) (basis : DecayBasis K) :
    let r := m.response value
    let form := KernelForm.ofBasis (r.scale s) (basis.map number)
    (Complex.zero ∈ form.arguments ↔ basis.Cancels) ∧
    (∀ t, t ≠ undefined → r.value s (basis.map number) t ≠ undefined) ∧
    ∀ tmin tmax, tmin ≤ tmax →
      (form = .gaussian ∧ r.integral? s (basis.map number) tmin tmax = .ok none) ∨
      (form ≠ .gaussian ∧ ∃ x, r.integral? s (basis.map number) tmin tmax = .ok (some x) ∧
        (x = undefined ↔ basis.Cancels ∧ ∃ g ∈ r.profile.segments tmin tmax, g.Counts)) := by
  intro r form
  have hr : r.Defined s := hvalue.response hm hs hscale
  obtain ⟨scale, hunit⟩ := Undefinable.exists_number hr.scale.1
  have hne : scale ≠ 0 := mt (fun h => hunit.trans (Undefinable.number_eq_zero_iff.mpr h)) hr.scale.2
  obtain ⟨hform, hzero⟩ : form.Singular basis.Cancels := by
    dsimp only [form]
    rw [hunit]
    exact KernelForm.singular_ofBasis hne basis
  refine ⟨hzero, fun t ht => hr.valueOf hs hform ht, fun tmin tmax hle => ?_⟩
  rw [← hzero]
  exact hr.integralOf hs hform hle

section Plain

def plain : ResolutionModel (Undefinable ℝ) (Undefinable ℝ) :=
  ⟨"res", ⟨"eff", .threshold ⟨[number 0, number 1], []⟩⟩, number 0, number 1, number 1, number 1⟩

theorem constructed_plain : plain.efficiency.Constructed := by
  have hlt : (number 0 : Undefinable ℝ) < number 1 := zero_lt_one (α := ℝ)
  exact .ofRange (Efficiency.ofRange_eq_ok_iff.mpr ⟨⟨rfl, rfl, hlt⟩, rfl⟩)

theorem defined_plain : plain.Defined id where
  heights := nofun
  width := nofun
  offset := nofun

theorem defined_ideal : Smearing.ideal.undefinable.Defined :=
  Smearing.defined_undefinable (Real.sqrt_ne_zero'.mpr Real.pi_pos)

theorem scale_plain : (plain.response id).scale Smearing.ideal.undefinable = number √2 := by
  simp [Response.scale, response, width, plain, Smearing.undefinable, Smearing.ideal]

theorem scale_plain_ne_zero : (plain.response id).scale Smearing.ideal.undefinable ≠ 0 := by
  rw [scale_plain]
  exact mt Undefinable.number_eq_zero_iff.mp (Real.sqrt_ne_zero'.mpr two_pos)

theorem counts_plain : ∃ g ∈ (plain.response id).profile.segments (number 0) (number 1), g.Counts := by
  have hsegments : (plain.response id).profile.segments (number 0) (number 1) =
      [⟨number (max 0 0), number (min 1 1), Cubic.constant ((1 - 0) / (number 1 - number 0))⟩] := rfl
  have hlt : (number (max 0 0) : Undefinable ℝ) < number (min 1 1) := by
    rw [max_self, min_self]
    exact zero_lt_one (α := ℝ)
  have hheight : ((1 - 0) / (number 1 - number 0) : Undefinable ℝ) ≠ 0 := by
    simp [Undefinable.zero_eq, Undefinable.one_eq, Undefinable.number_div]
  rw [hsegments]
  exact ⟨_, List.mem_singleton_self _, hlt, fun h => hheight (congrArg Cubic.c0 h)⟩

end Plain

theorem undefined_where_rates_cancel_at_positive_rates :
    let r := plain.response id
    let s := Smearing.ideal.undefinable
    let basis : DecayBasis ℝ := .sinh 1 1
    plain.efficiency.Constructed ∧ plain.Defined id ∧ s.Defined ∧ r.scale s ≠ 0 ∧
      Complex.zero ∉ (KernelForm.ofBasis (r.scale s) (basis.map number)).arguments ∧
      (∀ t, t ≠ undefined → r.value s (basis.map number) t ≠ undefined) ∧
      ∃ x, x ≠ undefined ∧ r.integral? s (basis.map number) (number 0) (number 1) = .ok (some x) := by
  intro r s basis
  have hle : (number 0 : Undefinable ℝ) ≤ number 1 := zero_le_one (α := ℝ)
  have hcancels : ¬ basis.Cancels := by
    norm_num [basis, DecayBasis.Cancels]
  obtain ⟨hzero, hvalue, hintegral⟩ :=
    undefined_where_rates_cancel constructed_plain defined_plain defined_ideal scale_plain_ne_zero basis
  refine ⟨constructed_plain, defined_plain, defined_ideal, scale_plain_ne_zero, mt hzero.mp hcancels, hvalue, ?_⟩
  rcases hintegral _ _ hle with ⟨hform, -⟩ | ⟨-, x, hx, hiff⟩
  · simp [KernelForm.ofBasis, KernelForm.ofDecay, KernelForm.general, DecayBasis.map, DecayBasis.normalized, DecayBasis.tau?, basis] at hform
  · exact ⟨x, mt hiff.mp (fun h => hcancels h.1), hx⟩

/-- A hyperbolic cosine that goes on forever has values and no integral. -/
theorem undefined_integral_at_cosh :
    let r := plain.response id
    let s := Smearing.ideal.undefinable
    let basis : DecayBasis (Undefinable ℝ) := .cosh (number 2) (number 1)
    plain.efficiency.Constructed ∧ plain.Defined id ∧ s.Defined ∧ r.scale s ≠ 0 ∧
      Complex.zero ∈ (KernelForm.ofBasis (r.scale s) basis).arguments ∧
      (∀ t, t ≠ undefined → r.value s basis t ≠ undefined) ∧
      r.integral? s basis (number 0) (number 1) = .ok (some undefined) := by
  intro r s basis
  have hle : (number 0 : Undefinable ℝ) ≤ number 1 := zero_le_one (α := ℝ)
  have hr : r.Defined s := defined_plain.response constructed_plain defined_ideal scale_plain_ne_zero
  have hroot : √2 ≠ 0 := Real.sqrt_ne_zero'.mpr two_pos
  have hcancels : (DecayBasis.cosh 2 1 : DecayBasis ℝ).Cancels := .inl (mul_one 2)
  obtain ⟨hform, hzero⟩ := KernelForm.singular_ofBasis hroot (DecayBasis.cosh 2 1)
  rw [← scale_plain] at hform hzero
  have hmem := hzero.mpr hcancels
  have hvalue (t : Undefinable ℝ) (ht : t ≠ undefined) : r.value s basis t ≠ undefined := hr.valueOf defined_ideal hform ht
  refine ⟨constructed_plain, defined_plain, defined_ideal, scale_plain_ne_zero, hmem, hvalue, ?_⟩
  rcases hr.integralOf defined_ideal hform hle with ⟨hgaussian, -⟩ | ⟨-, x, hx, hiff⟩
  · rw [hgaussian] at hmem
    cases hmem
  · exact hx.trans (by rw [hiff.mpr ⟨hmem, counts_plain⟩])

end ResolutionModel
end LifetimeEfficiency
