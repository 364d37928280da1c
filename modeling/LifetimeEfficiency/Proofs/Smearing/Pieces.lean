import LifetimeEfficiency.Proofs.Overlap
import LifetimeEfficiency.Proofs.Smearing.Convolution
/-!
# Pieces of a function

A cubic that is in force on one part of the line contributes the primitive at the point of that part that is nearest to each limit.
What a range adds is then a difference of two values of one function, however the range lies to the part.
-/
namespace LifetimeEfficiency

inductive Span (K : Type)
  | below (b : K)
  | between (a b : K)
  | above (a : K)

/-- A cubic on the part of the line where it is in force. -/
structure Piece (K : Type) where
  span : Span K
  polynomial : Cubic K

namespace Span

def Ordered : Span ℝ → Prop
  | below _ => True
  | between a b => a ≤ b
  | above _ => True

def ends : Span ℝ → List ℝ
  | below b => [b]
  | between a b => [a, b]
  | above a => [a]

def Contains : Span ℝ → ℝ → Prop
  | below b, t => t < b
  | between a b, t => a < t ∧ t < b
  | above a, t => a < t

noncomputable instance (s : Span ℝ) (t : ℝ) : Decidable (s.Contains t) :=
  match s with
  | below b => inferInstanceAs (Decidable (t < b))
  | between a b => inferInstanceAs (Decidable (a < t ∧ t < b))
  | above a => inferInstanceAs (Decidable (a < t))

noncomputable def clip : Span ℝ → ℝ → ℝ
  | below b, t => min t b
  | between a b, t => max a (min t b)
  | above a, t => max t a

theorem continuous_clip (s : Span ℝ) : Continuous s.clip := by
  cases s with
  | below b => exact continuous_id.min continuous_const
  | between a b => exact continuous_const.max (continuous_id.min continuous_const)
  | above a => exact continuous_id.max continuous_const

theorem eventually_clip_eq_self {s : Span ℝ} {t : ℝ} (h : s.Contains t) :
    ∀ᶠ t' in nhds t, s.clip t' = t' := by
  cases s with
  | below b =>
    filter_upwards [Iio_mem_nhds h] with t' ht'
    exact min_eq_left (le_of_lt ht')
  | between a b =>
    filter_upwards [Ioo_mem_nhds h.1 h.2] with t' ht'
    rw [clip, min_eq_left ht'.2.le, max_eq_right ht'.1.le]
  | above a =>
    filter_upwards [Ioi_mem_nhds h] with t' ht'
    exact max_eq_left (le_of_lt ht')

/-- Outside the part neighbouring points have the same nearest one. -/
theorem eventually_clip_eq {s : Span ℝ} {t : ℝ} (hs : s.Ordered) (h : ¬ s.Contains t)
    (hends : t ∉ s.ends) : ∀ᶠ t' in nhds t, s.clip t' = s.clip t := by
  cases s with
  | below b =>
    have hb : b < t := lt_of_le_of_ne (not_lt.mp h) fun he => hends (by simp [ends, he])
    filter_upwards [Ioi_mem_nhds hb] with t' ht'
    rw [clip, clip, min_eq_right hb.le, min_eq_right (le_of_lt ht')]
  | between a b =>
    have hab : a ≤ b := hs
    rcases lt_trichotomy t a with hlt | heq | hgt
    · filter_upwards [Iio_mem_nhds hlt] with t' ht'
      have ht : t' < a := ht'
      rw [clip, clip, min_eq_left (ht.le.trans hab), min_eq_left (hlt.le.trans hab),
        max_eq_left ht.le, max_eq_left hlt.le]
    · exact absurd (by simp [ends, heq]) hends
    · have hb : b < t := by
        rcases lt_trichotomy b t with hlt | heq | hgt'
        · exact hlt
        · exact absurd (by simp [ends, heq]) hends
        · exact absurd ⟨hgt, hgt'⟩ h
      filter_upwards [Ioi_mem_nhds hb] with t' ht'
      rw [clip, clip, min_eq_right hb.le, min_eq_right (le_of_lt ht')]
  | above a =>
    have ha : t < a := lt_of_le_of_ne (not_lt.mp h) fun he => hends (by simp [ends, he])
    filter_upwards [Iio_mem_nhds ha] with t' ht'
    rw [clip, clip, max_eq_right ha.le, max_eq_right (le_of_lt ht')]

end Span

namespace Piece

noncomputable def segments (g : Piece ℝ) (lo hi : ℝ) : List (Segment ℝ) :=
  match g.span with
  | .below b => if lo < b then [⟨lo, min hi b, g.polynomial⟩] else []
  | .between a b => [⟨max lo a, min hi b, g.polynomial⟩]
  | .above a => if a < hi then [⟨max lo a, hi, g.polynomial⟩] else []

noncomputable def value (g : Piece ℝ) (t : ℝ) : ℝ :=
  if g.span.Contains t then g.polynomial.value t else 0

theorem value_of_contains {g : Piece ℝ} {t : ℝ} (h : g.span.Contains t) :
    g.value t = g.polynomial.value t :=
  if_pos h

theorem value_of_not_contains {g : Piece ℝ} {t : ℝ} (h : ¬ g.span.Contains t) : g.value t = 0 :=
  if_neg h

variable {s : Smearing ℝ} {c : Convolution ℝ}

/-- The primitive, constant outside the part. -/
noncomputable def primitive (s : Smearing ℝ) (c : Convolution ℝ) (g : Piece ℝ) (t : ℝ) : ℂ :=
  c.primitive s g.polynomial (g.span.clip t)

theorem hasDerivAt_primitive (hs : s.Lawful c.z) (hz : c.z.toComplex ≠ 0) (hscale : c.scale ≠ 0)
    {g : Piece ℝ} (hg : g.span.Ordered) {t : ℝ} (ht : t ∉ g.span.ends) :
    HasDerivAt (g.primitive s c)
      (g.value t * ((s.kernel ((t - c.offset) / c.scale) c.z).toComplex / c.scale)) t := by
  by_cases hin : g.span.Contains t
  · rw [value_of_contains hin]
    have hderiv := c.hasDerivAt_primitive hs hz hscale g.polynomial t
    refine hderiv.congr_of_eventuallyEq ?_
    filter_upwards [Span.eventually_clip_eq_self hin] with t' ht'
    rw [primitive, ht']
  · rw [value_of_not_contains hin]
    have hconst := hasDerivAt_const t (g.primitive s c t)
    have hnear : g.primitive s c =ᶠ[nhds t] fun _ => g.primitive s c t := by
      filter_upwards [Span.eventually_clip_eq hg hin ht] with t' ht'
      rw [primitive, primitive, ht']
    refine HasDerivAt.congr_deriv (hconst.congr_of_eventuallyEq hnear) ?_
    simp

theorem continuous_primitive (hs : s.Lawful c.z) (hz : c.z.toComplex ≠ 0) (hscale : c.scale ≠ 0)
    (g : Piece ℝ) : Continuous (g.primitive s c) := by
  have hprimitive : Continuous (c.primitive s g.polynomial) := by
    rw [continuous_iff_continuousAt]
    intro t
    exact (c.hasDerivAt_primitive hs hz hscale g.polynomial t).continuousAt
  exact hprimitive.comp g.span.continuous_clip

/-- A range that runs forwards adds the difference of the primitive at its ends. -/
theorem sum_segments {g : Piece ℝ} (hg : g.span.Ordered) {lo hi : ℝ} (hle : lo ≤ hi) :
    ((g.segments lo hi).map (c.increment s)).sum = g.primitive s c hi - g.primitive s c lo := by
  obtain ⟨span, p⟩ := g
  cases span with
  | below b =>
    simp only [segments, primitive, Span.clip]
    by_cases hlo : lo < b
    · rw [if_pos hlo, List.map_singleton, List.sum_singleton, Convolution.increment,
        min_eq_left hlo.le]
      by_cases hlt : lo < min hi b
      · rw [if_pos hlt]
      · have hhi : min hi b = lo :=
          le_antisymm (not_lt.mp hlt) (le_min hle hlo.le)
        rw [if_neg hlt, hhi, sub_self]
    · have hb : b ≤ lo := not_lt.mp hlo
      rw [if_neg hlo, min_eq_right hb, min_eq_right (hb.trans hle), sub_self, List.map_nil,
        List.sum_nil]
  | between a b =>
    have hoverlap := overlap_eq (c.primitive s p) hg hle
    rw [← ite_not] at hoverlap
    simpa only [segments, primitive, Span.clip, nearest, List.map_singleton, List.sum_singleton,
      Convolution.increment, not_le] using hoverlap
  | above a =>
    simp only [segments, primitive, Span.clip]
    by_cases hhi : a < hi
    · rw [if_pos hhi, List.map_singleton, List.sum_singleton, Convolution.increment,
        max_eq_left hhi.le]
      by_cases hlt : max lo a < hi
      · rw [if_pos hlt]
      · have hlo : max lo a = hi :=
          le_antisymm (max_le hle hhi.le) (not_lt.mp hlt)
        rw [if_neg hlt, hlo, sub_self]
    · have ha : hi ≤ a := not_lt.mp hhi
      rw [if_neg hhi, max_eq_right ha, max_eq_right (hle.trans ha), sub_self, List.map_nil,
        List.sum_nil]

end Piece
end LifetimeEfficiency
