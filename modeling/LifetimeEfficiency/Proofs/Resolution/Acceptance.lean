import LifetimeEfficiency.Proofs.Efficiency.Bounds
import LifetimeEfficiency.Proofs.Resolution.Generation
import LifetimeEfficiency.Resolution.Model
import Mathlib.MeasureTheory.Measure.Lebesgue.Basic
/-!
# Acceptance by the efficiency

A time is accepted with the efficiency in units of its bound as the probability, as long as the bound holds there. Beyond the outer
knots a spline goes on as a line, which is all that can pass the bound.
-/
namespace LifetimeEfficiency

open MeasureTheory

section Lines

variable {intercept slope lo hi x m : ℝ}

/-- A line that is below `m` at both ends is below it between them. -/
theorem Cubic.linear_value_le (hlo : (linear intercept slope).value lo ≤ m)
    (hhi : (linear intercept slope).value hi ≤ m) (hle : lo ≤ x) (hge : x ≤ hi) :
    (linear intercept slope).value x ≤ m := by
  rw [value_linear] at *
  rcases le_total 0 slope with hslope | hslope
  · have := mul_le_mul_of_nonneg_left hge hslope
    linarith
  · have := mul_le_mul_of_nonpos_left hle hslope
    linarith

/-- A line that is below `m` between two ends is below it at the ends. -/
theorem Cubic.linear_value_le_of_between (hlt : lo < hi)
    (h : ∀ x, lo < x → x < hi → (linear intercept slope).value x ≤ m) (hle : lo ≤ x) (hge : x ≤ hi) :
    (linear intercept slope).value x ≤ m := by
  have hclosure : closure (Set.Ioo lo hi) = Set.Icc lo hi := closure_Ioo hlt.ne
  have hline : Continuous fun x => (linear intercept slope).value x := by
    simp only [value_linear]
    fun_prop
  refine le_on_closure (s := Set.Ioo lo hi) (fun x hx => h x hx.1 hx.2) hline.continuousOn
    continuousOn_const ?_
  rw [hclosure]
  exact ⟨hle, hge⟩

end Lines

namespace Curve

variable {c : Curve ℝ} {lo hi : ℝ}

theorem value_line (c : Curve ℝ) (slope anchor : ℝ) : (c.line slope anchor).value anchor = c.value anchor := by
  rw [line, Cubic.value_linear]
  ring

/-- A curve keeps its bound between `lo` and `hi` if it does at those of both that lie beyond the outer knots. -/
theorem value_le_maxAbs_iff (h : c.knots.Increasing) (hlt : lo < hi) :
    (∀ x, lo < x → x < hi → c.value x ≤ c.maxAbs) ↔
      (lo < c.knots.first → c.value lo ≤ c.maxAbs) ∧ (c.knots.last < hi → c.value hi ≤ c.maxAbs) := by
  have hspan : c.knots.first ≤ c.knots.last := h.le_last 0
  have hinside {x : ℝ} (hfirst : c.knots.first ≤ x) (hlast : x ≤ c.knots.last) : c.value x ≤ c.maxAbs :=
    le_of_abs_le (abs_value_le h hfirst hlast)
  have hleft : c.leftLine.value c.knots.first ≤ c.maxAbs :=
    (c.value_line _ _).trans_le (hinside le_rfl hspan)
  have hright : c.rightLine.value c.knots.last ≤ c.maxAbs :=
    (c.value_line _ _).trans_le (hinside hspan le_rfl)
  constructor
  · -- The ends are not in the range, but the line is as near to its value there as one likes.
    intro hbound
    constructor
    · intro hlo
      rw [value_left h hlo]
      refine Cubic.linear_value_le_of_between (lt_min hlt hlo) ?_ le_rfl (le_min hlt.le hlo.le)
      intro x hx hx'
      change c.leftLine.value x ≤ c.maxAbs
      rw [← value_left h (hx'.trans_le (min_le_right _ _))]
      exact hbound x hx (hx'.trans_le (min_le_left _ _))
    · intro hhi
      rw [value_right h hhi]
      refine Cubic.linear_value_le_of_between (max_lt hlt hhi) ?_ (max_le hlt.le hhi.le) le_rfl
      intro x hx hx'
      change c.rightLine.value x ≤ c.maxAbs
      rw [← value_right h ((le_max_right _ _).trans_lt hx)]
      exact hbound x ((le_max_left _ _).trans_lt hx) hx'
  · rintro ⟨hlo, hhi⟩ x hx hx'
    rcases lt_or_ge x c.knots.first with hfirst | hfirst
    · have hlo' := hx.trans hfirst
      rw [value_left h hfirst]
      exact Cubic.linear_value_le (value_left h hlo' ▸ hlo hlo') hleft hx.le hfirst.le
    rcases le_or_gt x c.knots.last with hlast | hlast
    · exact hinside hfirst hlast
    · have hhi' := hlast.trans hx'
      rw [value_right h hlast]
      exact Cubic.linear_value_le hright (value_right h hhi' ▸ hhi hhi') hlast.le hx'.le

end Curve

/-- Only a spline can pass its bound, at an end of the range beyond its knots. -/
theorem Efficiency.value_le_maxValue_iff {α : Type} {e : Efficiency ℝ α} (he : e.Constructed)
    (value : α → ℝ) {lo hi : ℝ} (hlt : lo < hi) :
    (∀ t, lo < t → t < hi → (e.profile value).value t ≤ (e.profile value).maxValue) ↔
      ∀ k coefs, e.shape = .spline k coefs →
        (lo < k.first → (e.profile value).value lo ≤ (e.profile value).maxValue) ∧
        (k.last < hi → (e.profile value).value hi ≤ (e.profile value).maxValue) := by
  have hprofile := he.profile value
  obtain ⟨name, shape⟩ := e
  cases shape with
  | spline k coefs =>
    refine (Curve.value_le_maxAbs_iff hprofile hlt).trans ?_
    constructor
    · intro h k' coefs' hshape
      cases hshape
      exact h
    · intro h
      exact h k coefs rfl
  | binned boundaries heights =>
    exact iff_of_true (fun t _ _ => le_of_abs_le (Steps.abs_value_le _ t)) nofun
  | threshold t =>
    exact iff_of_true (fun t _ _ => le_of_abs_le (Steps.abs_value_le _ t)) nofun

def Source.deciding {K σ : Type} (source : Source K σ) (u : K) : Source K σ :=
  { source with uniform := fun s => (u, s) }

namespace Generator

variable {σ : Type} {g : Generator ℝ} {source : Source ℝ σ} {s : σ}

theorem attempt_deciding_iff {u : ℝ} (hmin : g.tmin < g.time source s) (hmax : g.time source s < g.tmax)
    (hle : g.response.profile.value (g.time source s) ≤ g.maximum) :
    (g.attempt (source.deciding u) s).1 = some (g.time source s) ↔
      u * g.maximum < g.response.profile.value (g.time source s) := by
  rw [attempt_eq]
  change (if g.IsAccepted (source.deciding u) s then some (g.time source s) else none) = _ ↔ _
  rw [Option.ite_none_right_eq_some]
  exact ⟨fun h => h.1.2.2.1, fun h => ⟨⟨hmin, hmax, h, hle⟩, rfl⟩⟩

/-- The uniform numbers that keep a time fill the share of the unit interval that the efficiency is of the maximum. -/
theorem volume_accepted {efficiency maximum : ℝ} (hpos : 0 < maximum) (hle : efficiency ≤ maximum) :
    volume {u ∈ Set.Ico (0 : ℝ) 1 | u * maximum < efficiency} =
      ENNReal.ofReal (max 0 efficiency / maximum) := by
  have hset : {u ∈ Set.Ico (0 : ℝ) 1 | u * maximum < efficiency} = Set.Ico 0 (efficiency / maximum) := by
    ext u
    rw [Set.mem_sep_iff, Set.mem_Ico, Set.mem_Ico, ← lt_div_iff₀ hpos]
    have hone : efficiency / maximum ≤ 1 := (div_le_one hpos).mpr hle
    exact ⟨fun h => ⟨h.1.1, h.2⟩, fun h => ⟨⟨h.1, h.2.trans_le hone⟩, h.2⟩⟩
  rw [hset, Real.volume_Ico, sub_zero, ← max_div_div_right hpos.le, zero_div, ENNReal.ofReal_max,
    ENNReal.ofReal_zero, max_eq_right zero_le]

theorem attempt_of_maximum_lt (hlt : g.maximum < g.response.profile.value (g.time source s)) :
    g.attempt source s = (none, drawn source s) := by
  have hcompared : ¬ g.IsCompared source s := fun h => h.2.2.not_gt hlt
  have haccepted : ¬ g.IsAccepted source s := fun h => h.2.2.2.not_gt hlt
  rw [attempt_eq, next, if_neg hcompared, if_neg haccepted]

/-- The bound holds throughout the range unless a spline passes it at an end of the range beyond its knots. Where it holds a time is
accepted with the efficiency in units of the bound as the probability, and where it does not the time is dropped. -/
theorem accepts_up_to_maximum {α : Type} {m : ResolutionModel ℝ α} (hm : m.efficiency.Constructed)
    {value : α → ℝ} {tmin tmax : ℝ} (hg : ofResponse (m.response value) tmin tmax = .ok g) :
    ((∀ t, tmin < t → t < tmax → (m.efficiency.profile value).value t ≤ g.maximum) ↔
      ∀ k coefs, m.efficiency.shape = .spline k coefs →
        (tmin < k.first → (m.efficiency.profile value).value tmin ≤ g.maximum) ∧
        (k.last < tmax → (m.efficiency.profile value).value tmax ≤ g.maximum)) ∧
    ∀ {σ : Type} (source : Source ℝ σ) (s : σ) (t : ℝ), g.time source s = t → tmin < t → t < tmax →
      ((m.efficiency.profile value).value t ≤ g.maximum →
        volume {u ∈ Set.Ico (0 : ℝ) 1 | (g.attempt (source.deciding u) s).1 = some t} =
          ENNReal.ofReal (max 0 ((m.efficiency.profile value).value t) / g.maximum)) ∧
      (g.maximum < (m.efficiency.profile value).value t →
        g.attempt source s = (none, drawn source s)) := by
  obtain ⟨hrange, hpos, -, rfl⟩ := ofResponse_eq_ok_iff.mp hg
  refine ⟨Efficiency.value_le_maxValue_iff hm value hrange, ?_⟩
  rintro σ source s t rfl hmin hmax
  refine ⟨?_, attempt_of_maximum_lt⟩
  intro hle
  rw [← volume_accepted hpos hle]
  congr 1
  ext u
  exact and_congr_right fun _ => attempt_deciding_iff hmin hmax hle

theorem accepts_up_to_maximum_left_of_knots :
    let e : Efficiency ℝ ℝ := ⟨"eff", .spline ⟨[0, 1]⟩ [1 / 2, 0, 0, 1]⟩
    let m : ResolutionModel ℝ ℝ := ⟨"res", e, 0, 1, 1, 1⟩
    let source : Source ℝ Unit := ⟨fun s => (-1 / 20, s), fun s => (0, s), fun s => (0, s)⟩
    e.Constructed ∧ ∃ g, ofResponse (m.response id) (-1 / 10) (1 / 2) = .ok g ∧
      (∀ t, -1 / 10 < t → t < 1 / 2 → (e.profile id).value t ≤ g.maximum) ∧
      volume {u ∈ Set.Ico (0 : ℝ) 1 | (g.attempt (source.deciding u) ()).1 = some (-1 / 20)} =
        ENNReal.ofReal (23 / 40) := by
  intro e m source
  have hk : Knots.ofList (K := ℝ) [0, 1] = .ok ⟨[0, 1]⟩ :=
    Knots.ofList_eq_ok_iff.mpr ⟨rfl, ⟨by decide, by norm_num⟩⟩
  have hok : Efficiency.ofKnots "eff" ⟨[0, 1]⟩ [1 / 2, 0, 0, 1] = .ok e := if_pos rfl
  have hmaximum : (m.response id).profile.maxValue = 1 := by
    norm_num [m, e, ResolutionModel.response, Efficiency.profile, Efficiency.map, Profile.maxValue,
      Curve.maxAbs, Scalar.largest_eq]
  have hvalue (t : ℝ) (ht : t < 0) : (e.profile id).value t = 1 / 2 - t * 3 * (1 / 2) := by
    norm_num [e, Efficiency.profile, Efficiency.map, Profile.value, Curve.value, Curve.coef,
      Knots.locate, Knots.first, Knots.u, Knots.r, Knots.width, Knots.h, Knots.size, ht]
  let g : Generator ℝ := ⟨m.response id, -1 / 10, 1 / 2, 1⟩
  have hwidth : 0 < (m.response id).width := by
    norm_num [m, ResolutionModel.response, ResolutionModel.width]
  have hg : ofResponse (m.response id) (-1 / 10) (1 / 2) = .ok g :=
    ofResponse_eq_ok_iff.mpr ⟨by norm_num, hmaximum ▸ one_pos, hwidth, by rw [hmaximum]⟩
  have htime : g.time source () = -1 / 20 := by
    norm_num [time, g, source, m, ResolutionModel.response, ResolutionModel.offset]
  have he : e.Constructed := .ofKnots hk hok
  obtain ⟨hbound, haccepted⟩ := accepts_up_to_maximum (m := m) he hg
  have hbelow : ∀ t, -1 / 10 < t → t < 1 / 2 → (e.profile id).value t ≤ g.maximum := by
    refine hbound.mpr fun k coefs hshape => ?_
    cases hshape
    refine ⟨fun _ => ?_, fun hlast => ?_⟩
    · rw [hvalue _ (by norm_num)]
      norm_num [g]
    · norm_num [Knots.last, Knots.u, Knots.size] at hlast
  refine ⟨he, g, hg, hbelow, ?_⟩
  obtain ⟨hvolume, -⟩ := haccepted source () (-1 / 20) htime (by norm_num) (by norm_num)
  rw [hvolume (hbelow _ (by norm_num) (by norm_num)), hvalue _ (by norm_num)]
  norm_num [g]

/-- A time beyond the last knot that no uniform number makes accepted. -/
theorem drops_beyond_knots :
    let e : Efficiency ℝ ℝ := ⟨"eff", .spline ⟨[0, 1]⟩ [0, 0, 0, 1]⟩
    let m : ResolutionModel ℝ ℝ := ⟨"res", e, 0, 1, 1, 1⟩
    e.Constructed ∧ ∃ g, ofResponse (m.response id) 0 3 = .ok g ∧ g.maximum = 1 ∧
      (e.profile id).value 2 = 4 ∧
      ∀ u, g.attempt (⟨fun s => (2, s), fun s => (0, s), fun s => (u, s)⟩ : Source ℝ Unit) () = (none, ()) := by
  intro e m
  have hk : Knots.ofList (K := ℝ) [0, 1] = .ok ⟨[0, 1]⟩ :=
    Knots.ofList_eq_ok_iff.mpr ⟨rfl, ⟨by decide, by norm_num⟩⟩
  have hok : Efficiency.ofKnots "eff" ⟨[0, 1]⟩ [0, 0, 0, 1] = .ok e := if_pos rfl
  have hmaximum : (m.response id).profile.maxValue = 1 := by
    norm_num [m, e, ResolutionModel.response, Efficiency.profile, Efficiency.map, Profile.maxValue,
      Curve.maxAbs, Scalar.largest_eq]
  have hvalue : (e.profile id).value 2 = 4 := by
    norm_num [e, Efficiency.profile, Efficiency.map, Profile.value, Curve.value, Curve.coef,
      Knots.locate, Knots.first, Knots.last, Knots.u, Knots.r, Knots.width, Knots.h, Knots.size]
  have hwidth : 0 < (m.response id).width := by
    norm_num [m, ResolutionModel.response, ResolutionModel.width]
  let g : Generator ℝ := ⟨m.response id, 0, 3, 1⟩
  have hg : ofResponse (m.response id) 0 3 = .ok g :=
    ofResponse_eq_ok_iff.mpr ⟨three_pos, hmaximum ▸ one_pos, hwidth, by rw [hmaximum]⟩
  refine ⟨.ofKnots hk hok, g, hg, rfl, hvalue, fun u => attempt_of_maximum_lt ?_⟩
  have htime : g.time ⟨fun s => (2, s), fun s => (0, s), fun s => (u, s)⟩ () = 2 := by
    norm_num [time, g, m, ResolutionModel.response, ResolutionModel.offset]
  calc
    g.maximum < 4 := by norm_num [g]
    _ = g.response.profile.value (g.time _ ()) := by
      rw [htime]
      exact hvalue.symm

end Generator

end LifetimeEfficiency
