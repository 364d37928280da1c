import LifetimeEfficiency.Proofs.Resolution.Response
/-!
# Integrals over adjacent ranges

A convolution is the difference of one primitive at the two ends of its range, whatever functions the decay is smeared with. So the
convolutions over two adjacent ranges add up to the one over both, and the integrals of a response with them.
-/
namespace LifetimeEfficiency

theorem Profile.convolution_add {p : Profile ℝ} (hp : p.Accepted) (s : Smearing ℝ) {c : Convolution ℝ}
    {umin umid umax : ℝ} (hleft : c.scale * umin + c.offset ≤ c.scale * umid + c.offset)
    (hright : c.scale * umid + c.offset ≤ c.scale * umax + c.offset) :
    ∃ a b, p.convolution s c umin umid = .ok a ∧ p.convolution s c umid umax = .ok b ∧
      p.convolution s c umin umax = .ok (a + b) := by
  obtain ⟨a, ha, hprimitive⟩ := convolution_eq (s := s) hp hleft
  obtain ⟨b, hb, hprimitive'⟩ := convolution_eq (s := s) hp hright
  obtain ⟨w, hw, hprimitive''⟩ := convolution_eq (s := s) hp (hleft.trans hright)
  have hsum : w = a + b := by
    apply Complex.toComplex_injective
    rw [Complex.toComplex_add, hprimitive, hprimitive', hprimitive'', sub_add_sub_cancel']
  exact ⟨a, b, ha, hb, hsum ▸ hw⟩

theorem KernelForm.combine_add (f g : Complex ℝ → ℂ) (form : KernelForm ℝ) :
    combine (fun z => f z + g z) form = combine f form + combine g form := by
  cases form with
  | gaussian => simp [combine]
  | vanishing => simp [combine]
  | real z => simp [combine]
  | imaginary z => simp [combine]
  | hyperbolic z y sign =>
    simp only [combine, Complex.add_re]
    ring

theorem Response.integral?_add {s : Smearing ℝ} {r : Response ℝ} (hscale : 0 < r.scale s)
    (hp : r.profile.Accepted) {basis : DecayBasis ℝ} (hbasis : ¬ basis.IsBare) {t₀ t₁ t₂ : ℝ}
    (hleft : t₀ ≤ t₁) (hright : t₁ ≤ t₂) :
    ∃ a b, r.integral? s basis t₀ t₁ = .ok (some a) ∧ r.integral? s basis t₁ t₂ = .ok (some b) ∧
      r.integral? s basis t₀ t₂ = .ok (some (a + b)) := by
  have ha := integral?_eq hscale hp hbasis hleft
  have hb := integral?_eq hscale hp hbasis hright
  refine ⟨_, _, ha, hb, ?_⟩
  rw [integral?_eq hscale hp hbasis (hleft.trans hright), ← mul_add, ← KernelForm.combine_add]
  congr 4
  funext z
  rw [sub_add_sub_cancel']

/-- Convolutions of an efficiency over adjacent ranges add up, and so do the integrals of every model on it for every basis that has
them. -/
theorem Efficiency.integrals_add {α : Type} {e : Efficiency ℝ α} (he : e.Constructed) (value : α → ℝ)
    (s : Smearing ℝ) :
    (∀ c : Convolution ℝ, 0 < c.scale → ∀ umin umid umax, umin ≤ umid → umid ≤ umax →
      ∃ a b, (e.profile value).convolution s c umin umid = .ok a ∧
        (e.profile value).convolution s c umid umax = .ok b ∧
        (e.profile value).convolution s c umin umax = .ok (a + b)) ∧
    (∀ m : ResolutionModel ℝ α, m.efficiency = e → 0 < m.width value → 0 < s.rootTwo →
      ∀ basis t₀ t₁ t₂, t₀ ≤ t₁ → t₁ ≤ t₂ →
        ((m.response value).integral? s basis t₀ t₂ = .ok none ↔ basis.IsBare) ∧
        (¬ basis.IsBare → ∃ a b, (m.response value).integral? s basis t₀ t₁ = .ok (some a) ∧
          (m.response value).integral? s basis t₁ t₂ = .ok (some b) ∧
          (m.response value).integral? s basis t₀ t₂ = .ok (some (a + b)))) := by
  have hp : (e.profile value).Accepted := he.profile value
  constructor
  · intro c hscale umin umid umax hleft hright
    exact Profile.convolution_add hp s (by gcongr) (by gcongr)
  · rintro m rfl hwidth hroot basis t₀ t₁ t₂ hleft hright
    have hscale : 0 < (m.response value).scale s := mul_pos hwidth hroot
    exact ⟨Response.integral?_eq_none_iff hscale hp (hleft.trans hright),
      fun hbasis => Response.integral?_add hscale hp hbasis hleft hright⟩

theorem Efficiency.integrals_add_at_knot :
    let e : Efficiency ℝ ℝ := ⟨"eff", .spline ⟨[0, 1, 3]⟩ [2, 7, 1, 8, 2]⟩
    let m : ResolutionModel ℝ ℝ := ⟨"res", e, 0, 1, 1, 1⟩
    let s := Smearing.ideal
    let c : Convolution ℝ := ⟨2, 1, ⟨1, 2⟩⟩
    let basis : DecayBasis ℝ := .cosh 2 (1 / 2)
    e.Constructed ∧ 0 < c.scale ∧ 0 < m.width id ∧ 0 < s.rootTwo ∧ ¬ basis.IsBare ∧
      (∃ a b, (e.profile id).convolution s c (-3) 0 = .ok a ∧ (e.profile id).convolution s c 0 4 = .ok b ∧
        (e.profile id).convolution s c (-3) 4 = .ok (a + b)) ∧
      ∃ a b, (m.response id).integral? s basis (-1) 1 = .ok (some a) ∧
        (m.response id).integral? s basis 1 5 = .ok (some b) ∧
        (m.response id).integral? s basis (-1) 5 = .ok (some (a + b)) := by
  intro e m s c basis
  have hk : Knots.ofList (K := ℝ) [0, 1, 3] = .ok ⟨[0, 1, 3]⟩ :=
    Knots.ofList_eq_ok_iff.mpr ⟨rfl, ⟨by decide, by norm_num⟩⟩
  have hok : Efficiency.ofKnots "eff" ⟨[0, 1, 3]⟩ [2, 7, 1, 8, 2] = .ok e := if_pos rfl
  have he : e.Constructed := .ofKnots hk hok
  have hscale : 0 < c.scale := two_pos
  have hwidth : 0 < m.width id := by
    simp [m, ResolutionModel.width]
  have hroot : 0 < s.rootTwo := Real.sqrt_pos.mpr two_pos
  have hbasis : ¬ basis.IsBare := by
    simp [basis, DecayBasis.IsBare]
  obtain ⟨hconvolution, hintegral⟩ := Efficiency.integrals_add he id s
  obtain ⟨-, hadd⟩ := hintegral m rfl hwidth hroot basis (-1) 1 5 (by norm_num) (by norm_num)
  exact ⟨he, hscale, hwidth, hroot, hbasis,
    hconvolution c hscale (-3) 0 4 (by norm_num) (by norm_num), hadd hbasis⟩

end LifetimeEfficiency
