import LifetimeEfficiency.Proofs.Efficiency.Area
import LifetimeEfficiency.Proofs.Efficiency.Forms
import LifetimeEfficiency.Proofs.Resolution.Additivity
import LifetimeEfficiency.Proofs.Spline.Reproduction
/-!
# Constant efficiencies

Where one cubic is in force everywhere, it does not matter how the line is cut: what each boundary takes from the piece before it, it
gives to the next. A spline and a step function that are constant are such profiles.
-/
namespace LifetimeEfficiency

/-! The pieces of a range are cut off one after the other, from the left. -/

theorem Span.clip_add {P : ℝ → ℂ} {a b : ℝ} (hab : a ≤ b) (t : ℝ) :
    P ((Span.below a).clip t) + P ((Span.between a b).clip t) = P ((Span.below b).clip t) + P a := by
  simp only [clip]
  rcases le_total t a with hta | hat
  · rw [min_eq_left hta, min_eq_left (hta.trans hab), max_eq_left hta]
  · rw [min_eq_right hat, max_eq_right (le_min hat hab), add_comm]

theorem Span.sum_clip {P : ℝ → ℂ} {u : Nat → ℝ} {n : Nat} (hu : ∀ i < n, u i ≤ u (i + 1)) (t : ℝ) :
    P ((Span.below (u 0)).clip t) +
        ((List.range n).map fun i => P ((Span.between (u i) (u (i + 1))).clip t)).sum =
      P ((Span.below (u n)).clip t) + ((List.range n).map fun i => P (u i)).sum := by
  induction n with
  | zero => simp
  | succ n ih =>
    have hcut := clip_add (P := P) (hu n (Nat.lt_succ_self n)) t
    have hrest := ih fun i hi => hu i (Nat.lt_succ_of_lt hi)
    simp only [List.range_succ, List.map_append, List.sum_append, List.map_singleton,
      List.sum_singleton]
    linear_combination hrest + hcut

namespace Profile

section Follows

variable {K : Type} [Field K] [LinearOrder K] [IsStrictOrderedRing K]

/-- One cubic is in force on both sides of the boundaries and between any two of them. -/
structure Follows (p : Profile K) (q : Cubic K) : Prop where
  left : p.left = q
  inner : ∀ i < p.knots.intervals, p.inner i = q
  right : p.right = q

theorem Follows.value_eq {p : Profile K} {q : Cubic K} (h : p.Follows q) (hp : p.Accepted) (x : K) :
    p.value x = q.value x := by
  have hcovers : p.knots.Covers (p.knots.locate x) x := hp.increasing.locate_eq_iff.mp rfl
  rw [value_eq_form hp]
  cases hside : p.knots.locate x with
  | left => rw [form, h.left]
  | interval i =>
    rw [hside] at hcovers
    rw [form, h.inner i hcovers.1]
  | right => rw [form, h.right]

end Follows

section Convolution

variable {p : Profile ℝ} {q : Cubic ℝ} {s : Smearing ℝ} {c : Convolution ℝ}

/-- Each boundary adds to the primitive what does not depend on the limit. -/
theorem Follows.primitive_eq (h : p.Follows q) (hp : p.Accepted) (t : ℝ) :
    p.primitive s c t = c.primitive s q t +
      (((List.range p.knots.intervals).map fun i : Nat => c.primitive s q (p.knots.u i)).sum +
        c.primitive s q p.knots.last) := by
  obtain ⟨n, hn⟩ := Nat.exists_eq_add_of_le' hp.increasing.two_le
  have hinner : (List.range p.knots.intervals).map (fun i => (p.innerPiece i).primitive s c t) =
      (List.range p.knots.intervals).map fun i : Nat =>
        c.primitive s q ((Span.between (p.knots.u i) (p.knots.u (i + 1 : Nat))).clip t) := by
    apply List.map_congr_left
    intro i hi
    rw [Piece.primitive, innerPiece, h.inner i (List.mem_range.mp hi), Nat.cast_succ]
  have hcut := Span.sum_clip (P := c.primitive s q) (u := fun i : Nat => p.knots.u i)
    (n := p.knots.intervals) (fun i _ => hp.increasing.u_le (by omega)) t
  have hlast : p.knots.u (p.knots.intervals : Nat) = p.knots.last := by
    rw [Knots.last_eq hn, Knots.intervals_eq hn]
  have hend : c.primitive s q ((Span.below p.knots.last).clip t) +
      c.primitive s q ((Span.above p.knots.last).clip t) =
        c.primitive s q t + c.primitive s q p.knots.last := by
    simp only [Span.clip]
    rcases le_total t p.knots.last with hle | hle
    · rw [min_eq_left hle, max_eq_right hle]
    · rw [min_eq_right hle, max_eq_left hle, add_comm]
  rw [hlast] at hcut
  rw [primitive, sum_pieces, hinner, Piece.primitive, Piece.primitive, h.left, h.right]
  have hfirst : p.knots.u (0 : Nat) = p.knots.first := rfl
  rw [hfirst] at hcut
  linear_combination hcut + hend

theorem Follows.convolution_constant {a : ℝ} (h : p.Follows (Cubic.constant a)) (hp : p.Accepted)
    (hscale : 0 < c.scale) {umin umax : ℝ} (hle : umin ≤ umax) :
    p.convolution s c umin umax = .ok (((Moments.decay c.z).m0 *
      ((Moments.gauss s umax c.z).m0 - (Moments.gauss s umin c.z).m0)).scale a) := by
  have hrange : c.scale * umin + c.offset ≤ c.scale * umax + c.offset := by
    gcongr
  obtain ⟨w, hw, hprimitive⟩ := convolution_eq (s := s) hp hrange
  have hmoments (u : ℝ) : c.momentsAt s (c.scale * u + c.offset) = Moments.gauss s u c.z := by
    rw [Convolution.momentsAt, add_sub_cancel_right, mul_div_cancel_left₀ _ hscale.ne']
  have hvalue : w = ((Moments.decay c.z).m0 *
      ((Moments.gauss s umax c.z).m0 - (Moments.gauss s umin c.z).m0)).scale a := by
    apply Complex.toComplex_injective
    rw [hprimitive, h.primitive_eq hp, h.primitive_eq hp, add_sub_add_right_eq_sub,
      Convolution.primitive_constant, Convolution.primitive_constant, hmoments, hmoments]
    simp only [Complex.toComplex_scale, Complex.toComplex_mul, Complex.toComplex_sub]
    ring
  rw [hw, hvalue]

theorem convolution_of_inverted {lo hi : ℝ} (p : Profile ℝ) (h : ¬ c.scale * lo + c.offset ≤ c.scale * hi + c.offset) :
    p.convolution s c lo hi =
      .error (.invertedConvolution (c.scale * lo + c.offset) (c.scale * hi + c.offset)) := by
  rw [convolution, Convolution.range]
  simp only [if_neg h]
  rfl

end Convolution

end Profile

section Constant

variable {K : Type} [Field K] [LinearOrder K] [IsStrictOrderedRing K]

theorem Profile.curveIntegral?_self (c : Curve K) :
    curveIntegral? c c.knots.first c.knots.last = some c.integral := by
  simp [curveIntegral?, samePoint_self]

theorem Steps.integral?_self (s : Steps K) :
    s.integral? s.knots.first s.knots.last = some (s.area s.knots.first s.knots.last) := by
  simp [integral?, first_eq, last_eq, samePoint_self]

namespace Curve

omit [IsStrictOrderedRing K] in
theorem ofCubic_constant (k : Knots K) (a : K) :
    ofCubic k (Cubic.constant a) = ⟨k, List.replicate (k.size + 2) a⟩ := by
  have hpolar (x y z : K) : (Cubic.constant a).polar x y z = a := by
    simp [Cubic.polar, Cubic.constant]
  simp [ofCubic, hpolar]

variable {k : Knots K} {a : K}

theorem follows_constant (hk : k.Increasing) :
    (Profile.curve (ofCubic k (Cubic.constant a))).Follows (Cubic.constant a) := by
  have hvalue {x : K} (hfirst : k.first ≤ x) (hlast : x ≤ k.last) :
      (ofCubic k (Cubic.constant a)).value x = a := by
    rw [Spline.value_ofCubic hk hfirst hlast, Cubic.value_constant]
  have hcoef {i : Nat} (hi : i < k.size + 2) : (ofCubic k (Cubic.constant a)).coef i = a := by
    rw [coef_eq, ofCubic_constant, List.getD_replicate _ hi]
  have hends : k.first ≤ k.last := hk.le_last 0
  have hline (x : K) (hx : (ofCubic k (Cubic.constant a)).value x = a) :
      (ofCubic k (Cubic.constant a)).line 0 x = Cubic.constant a := by
    rw [line, hx, zero_mul, sub_zero, Cubic.linear, Cubic.constant, Scalar.exact_zero]
  constructor
  · have hslope : (ofCubic k (Cubic.constant a)).leftSlope = 0 := by
      rw [leftSlope, hcoef (by omega), hcoef (by omega), sub_self, mul_zero]
    rw [Profile.left, leftLine, hslope]
    exact hline _ (hvalue le_rfl hends)
  · intro i hi
    exact intervalPolynomial_ofCubic hk _ hi
  · have hslope : (ofCubic k (Cubic.constant a)).rightSlope = 0 := by
      have hsize : (ofCubic k (Cubic.constant a)).knots.size = k.size := rfl
      rw [rightSlope, hsize, hcoef (by omega), hcoef (by omega), sub_self, mul_zero]
    rw [Profile.right, rightLine, hslope]
    exact hline _ (hvalue hends le_rfl)

theorem integral_constant (hk : k.Increasing) :
    (ofCubic k (Cubic.constant a)).integral = a * (k.last - k.first) := by
  rw [Spline.integral_ofCubic hk, Cubic.integral_eq]
  simp only [Cubic.primitive, Cubic.constant, Scalar.exact_zero]
  ring

end Curve

namespace Steps

variable {s : Steps K} {a : K}

omit [IsStrictOrderedRing K] in
theorem follows_constant (hs : s.Accepted) (hextended : s.extended = true)
    (hheights : ∀ h ∈ s.heights, h = a) : (Profile.steps s).Follows (Cubic.constant a) := by
  have hlen := hs.heights
  have htwo : 2 ≤ s.boundaries.length := hs.increasing.two_le
  have hheight {i : Nat} (hi : i < s.heights.length) : s.heights.getD i 0 = a := by
    rw [List.getD_eq_getElem _ _ hi]
    exact hheights _ (List.getElem_mem hi)
  constructor
  · rw [Profile.left, hextended, if_pos rfl, firstHeight, Scalar.exact_zero, hheight (by omega)]
  · intro i hi
    have hlt : i < s.boundaries.length - 1 := hi
    rw [Profile.inner, hheight (by omega)]
  · rw [Profile.right, hextended, if_pos rfl, lastHeight, Scalar.exact_zero, hheight (by omega)]

theorem area_constant (hs : s.Accepted) (hheights : ∀ h ∈ s.heights, h = a) :
    s.area s.knots.first s.knots.last = a * (s.knots.last - s.knots.first) := by
  obtain ⟨n, hn⟩ := Nat.exists_eq_add_of_le' hs.increasing.two_le
  have hlen := hs.heights
  have hterm (i : Nat) (hi : i ∈ Finset.range s.knots.intervals) :
      s.heights.getD i 0 * s.knots.width i =
        a * (s.knots.u (i + 1 : Nat) - s.knots.u (i : Nat)) := by
    have hlt : i < s.boundaries.length - 1 := Finset.mem_range.mp hi
    have hheight : i < s.heights.length := by omega
    rw [List.getD_eq_getElem _ _ hheight, hheights _ (List.getElem_mem hheight), Nat.cast_succ]
    rfl
  rw [area_total hs, Finset.sum_congr rfl hterm, ← Finset.mul_sum,
    Finset.sum_range_sub (fun i : Nat => s.knots.u i), Knots.last_eq hn, Knots.intervals_eq hn]
  rfl

end Steps

end Constant

/-- A profile that has one value everywhere: its convolutions depend on the limits alone, and the integral over all of it is that of a
rectangle. -/
structure Profile.IsConstant (p : Profile ℝ) (a : ℝ) : Prop where
  value : ∀ x, p.value x = a
  convolution : ∀ (s : Smearing ℝ) (c : Convolution ℝ), 0 < c.scale → ∀ umin umax, umin ≤ umax →
    p.convolution s c umin umax = .ok (((Moments.decay c.z).m0 *
      ((Moments.gauss s umax c.z).m0 - (Moments.gauss s umin c.z).m0)).scale a)
  integral : p.integral? p.knots.first p.knots.last = some (a * (p.knots.last - p.knots.first))

theorem Profile.isConstant_of_follows {p : Profile ℝ} {a : ℝ} (hp : p.Accepted)
    (h : p.Follows (Cubic.constant a))
    (hintegral : p.integral? p.knots.first p.knots.last = some (a * (p.knots.last - p.knots.first))) :
    p.IsConstant a where
  value x := (h.value_eq hp x).trans (Cubic.value_constant a x)
  convolution _ _ hscale _ _ hle := h.convolution_constant hp hscale hle
  integral := hintegral

namespace Efficiency

variable {α : Type} {name : String} {e : Efficiency ℝ α} {value : α → ℝ} {a : ℝ}

theorem isConstant_of_ofCoefs {points : List ℝ} {coefs : List α}
    (h : ofCoefs name points coefs = .ok e) (ha : ∀ b ∈ coefs, value b = a) :
    (e.profile value).IsConstant a := by
  have hp : (e.profile value).Accepted := (Constructed.ofCoefs h).profile value
  obtain ⟨k, -, h⟩ := bind_eq_ok_iff.mp h
  unfold ofKnots at h
  split at h
  · rename_i hlen
    cases h
    have hk : k.Increasing := hp
    have hcoefs : coefs.map value = List.replicate (k.size + 2) a := by
      rw [List.eq_replicate_iff, List.length_map]
      exact ⟨hlen, List.forall_mem_map.mpr ha⟩
    have hcurve : profile value ⟨name, .spline k coefs⟩ =
        .curve (Curve.ofCubic k (Cubic.constant a)) := by
      rw [Curve.ofCubic_constant, ← hcoefs]
      rfl
    rw [hcurve]
    apply Profile.isConstant_of_follows (hcurve ▸ hp) (Curve.follows_constant hk)
    refine (Profile.curveIntegral?_self _).trans ?_
    rw [Curve.integral_constant hk]
    rfl
  · cases h

theorem isConstant_of_ofBins {boundaries : List ℝ} {heights : List α}
    (h : ofBins name boundaries heights = .ok e) (ha : ∀ b ∈ heights, value b = a) :
    (e.profile value).IsConstant a := by
  have hp : (e.profile value).Accepted := (Constructed.ofBins h).profile value
  obtain ⟨u, -, h⟩ := bind_eq_ok_iff.mp h
  split at h
  · cases h
    have hs : Steps.Accepted ⟨boundaries, heights.map value, true⟩ := hp
    have hheights : ∀ b ∈ heights.map value, b = a := List.forall_mem_map.mpr ha
    apply Profile.isConstant_of_follows hp (Steps.follows_constant hs rfl hheights)
    refine (Steps.integral?_self _).trans ?_
    rw [Steps.area_constant hs hheights]
    rfl
  · cases h

/-- Splines and step functions with one value for all coefficients agree, whatever their knots, boundaries and parameters are. -/
theorem constants_agree {β : Type} {name' : String} {e' : Efficiency ℝ β} {value' : β → ℝ}
    {points boundaries : List ℝ} {coefs : List α} {heights : List β}
    (he : ofCoefs name points coefs = .ok e) (he' : ofBins name' boundaries heights = .ok e')
    (ha : ∀ b ∈ coefs, value b = a) (ha' : ∀ b ∈ heights, value' b = a) :
    let p := e.profile value
    let p' := e'.profile value'
    p.IsConstant a ∧ p'.IsConstant a ∧
      ∀ (s : Smearing ℝ) (c : Convolution ℝ), 0 < c.scale → ∀ umin umax,
        p.convolution s c umin umax = p'.convolution s c umin umax := by
  intro p p'
  have hp : p.IsConstant a := isConstant_of_ofCoefs he ha
  have hp' : p'.IsConstant a := isConstant_of_ofBins he' ha'
  refine ⟨hp, hp', ?_⟩
  intro s c hscale umin umax
  rcases le_or_gt umin umax with hle | hgt
  · rw [hp.convolution s c hscale umin umax hle, hp'.convolution s c hscale umin umax hle]
  · have hinverted : ¬ c.scale * umin + c.offset ≤ c.scale * umax + c.offset := by
      apply not_le.mpr
      gcongr
    rw [p.convolution_of_inverted hinverted, p'.convolution_of_inverted hinverted]

theorem constants_agree_on_shared_parameter :
    let e : Efficiency ℝ Nat := ⟨"spline", .spline ⟨[0, 1, 3]⟩ [0, 0, 0, 0, 0]⟩
    let e' : Efficiency ℝ Nat := ⟨"bins", .binned [-2, -1, 1 / 2, 7] [0, 1, 0]⟩
    let value : Nat → ℝ := fun _ => 3 / 4
    let p := e.profile value
    let p' := e'.profile value
    let c : Convolution ℝ := ⟨2, 1, ⟨1, 2⟩⟩
    ofCoefs "spline" [0, 1, 3] [0, 0, 0, 0, 0] = .ok e ∧
      ofBins "bins" [-2, -1, 1 / 2, 7] [0, 1, 0] = .ok e' ∧ 0 < c.scale ∧
      p.IsConstant (3 / 4) ∧ p'.IsConstant (3 / 4) ∧
      p.convolution Smearing.ideal c (-5) 9 = p'.convolution Smearing.ideal c (-5) 9 := by
  intro e e' value p p' c
  have he : ofCoefs "spline" [0, 1, 3] [0, 0, 0, 0, 0] = .ok e := by
    have hk : Knots.ofList (K := ℝ) [0, 1, 3] = .ok ⟨[0, 1, 3]⟩ :=
      Knots.ofList_eq_ok_iff.mpr ⟨rfl, ⟨by decide, by norm_num⟩⟩
    rw [ofCoefs, hk]
    rfl
  have he' : ofBins "bins" [-2, -1, 1 / 2, 7] [0, 1, 0] = .ok e' :=
    ofBins_of_increasing ⟨by decide, by norm_num⟩ rfl
  have hcoefs : ∀ b ∈ [0, 0, 0, 0, 0], value b = 3 / 4 := fun _ _ => rfl
  have hheights : ∀ b ∈ [0, 1, 0], value b = 3 / 4 := fun _ _ => rfl
  obtain ⟨hp, hp', hconvolution⟩ := constants_agree he he' hcoefs hheights
  exact ⟨he, he', two_pos, hp, hp', hconvolution _ c two_pos _ _⟩

end Efficiency

end LifetimeEfficiency
