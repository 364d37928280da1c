import LifetimeEfficiency.Proofs.Efficiency.Area
import LifetimeEfficiency.Proofs.Efficiency.Forms
import LifetimeEfficiency.Proofs.Parameter.Change
/-!
# Fractions are areas

However thresholds are added and their parameters moved, each fraction is the area of its bin and the open bin has what is left of one.
-/
namespace LifetimeEfficiency

variable {K : Type} [Field K] [LinearOrder K]

/-- Each bin has its area, all of them together have one, and areas add up. Inside a bin they are those of rectangles under the
function, which vanishes beyond the boundaries. -/
structure Profile.HasAreas (p : Profile K) (areas : List K) : Prop where
  intervals : p.knots.intervals = areas.length
  total : p.integral? p.knots.first p.knots.last = some 1
  bin : ∀ i (hi : i < areas.length), p.integral? (p.knots.u i) (p.knots.u (i + 1)) = some areas[i]
  add : ∀ a b c, a ≤ b → b ≤ c → ∃ x y, p.integral? a b = some x ∧ p.integral? b c = some y ∧
    p.integral? a c = some (x + y)
  inside : ∀ i < p.knots.intervals, ∀ a b, p.knots.u i ≤ a → a ≤ b → b ≤ p.knots.u (i + 1) →
    ∀ x, p.knots.first ≤ x → x ≤ p.knots.last → bracket p.boundaries x = i →
      p.integral? a b = some ((b - a) * p.value x)
  outside : ∀ a b, a ≤ b → b ≤ p.knots.first ∨ p.knots.last ≤ a → p.integral? a b = some 0
  vanishing : ∀ x, x < p.knots.first ∨ p.knots.last < x → p.value x = 0

namespace Thresholds

theorem first_eq {α : Type} (t : Thresholds K α) : t.knots.first = t.low := rfl

theorem last_eq {α : Type} (t : Thresholds K α) : t.knots.last = t.high := by
  rw [Knots.last, Knots.u, Int.toNat_natCast, min_self]
  rfl

omit [LinearOrder K] in
theorem sum_shares (t : Thresholds K K) : t.shares.sum = 1 := by
  rw [shares, List.sum_append, List.sum_singleton, add_sub_cancel]

variable [IsStrictOrderedRing K] {t : Thresholds K K}

theorem height_mul_width (ht : t.Laid) {i : Nat} (hi : i < t.knots.intervals) :
    t.steps.heights.getD i 0 * t.knots.width i = t.shares.getD i 0 := by
  have hwidth : 0 < t.knots.width i := (accepted_steps ht).increasing.width_pos hi
  rw [height_eq ht hi, density, div_mul_cancel₀ _ hwidth.ne']

theorem area_total (ht : t.Laid) :
    t.steps.area t.knots.first t.knots.last = 1 := by
  calc
    t.steps.area t.knots.first t.knots.last =
        ∑ i ∈ Finset.range t.knots.intervals, t.steps.heights.getD i 0 * t.knots.width i :=
      Steps.area_total (accepted_steps ht)
    _ = ∑ i ∈ Finset.range t.shares.length, t.shares.getD i 0 := by
      rw [length_shares ht]
      exact Finset.sum_congr rfl fun i hi => height_mul_width ht (Finset.mem_range.mp hi)
    _ = t.shares.sum := by
      rw [Finset.sum_range, ← Fin.sum_univ_getElem]
      exact Finset.sum_congr rfl fun i _ => List.getD_eq_getElem _ _ i.isLt
    _ = 1 := t.sum_shares

theorem hasAreas (ht : t.Laid) : (Profile.steps t.steps).HasAreas t.shares := by
  have hs : t.steps.Accepted := accepted_steps ht
  refine ⟨(length_shares ht).symm, congrArg some (area_total ht), ?_, ?_, ?_, ?_, ?_⟩
  · intro i hi
    have hlt : i < t.knots.intervals := length_shares ht ▸ hi
    have harea := Steps.area_inside hs hlt le_rfl (hs.increasing.u_le (by omega)) le_rfl
    have hshare := height_mul_width ht hlt
    rw [List.getD_eq_getElem _ _ hi, mul_comm] at hshare
    exact congrArg some (harea.trans hshare)
  · intro a b c hab hbc
    exact ⟨_, _, rfl, rfl, congrArg some (Steps.area_add hs hab hbc).symm⟩
  · intro i hi a b hle hab hge x hfirst hlast hx
    have hvalue : t.steps.value x = t.steps.heights.getD i 0 := Steps.value_of_bracket hfirst hlast hx
    have harea := Steps.area_inside hs hi hle hab hge
    rw [← hvalue] at harea
    exact congrArg some harea
  · intro a b hab h
    exact congrArg some (Steps.area_outside hs hab h)
  · intro x hx
    rcases hx with hfirst | hlast
    · exact (Profile.value_left (p := .steps t.steps) hs hfirst).trans (Cubic.value_constant 0 x)
    · exact (Profile.value_right (p := .steps t.steps) hs hlast).trans (Cubic.value_constant 0 x)

end Thresholds

namespace Efficiency

/-- What may happen to a threshold efficiency over a store: its open bin is closed, or a parameter changes. -/
inductive Event (K : Type)
  | close (limit : K) (fraction : Parameter)
  | change (c : Store.Change K)

def react (r : Store K × Efficiency K Parameter) : Event K → Store K × Efficiency K Parameter
  | .close limit fraction => (r.1, r.2.close limit fraction)
  | .change c => (r.1.change c, r.2)

structure Spans (e : Efficiency K Parameter) (low high : K) : Prop where
  constructed : e.Constructed
  range : ∃ t, e.shape = .threshold t ∧ t.low = low ∧ t.high = high

variable {low high : K} {e : Efficiency K Parameter} {r : Store K × Efficiency K Parameter}

theorem spans_ofRange {name : String} (h : ofRange name low high = .ok e) : e.Spans low high := by
  refine ⟨.ofRange h, ?_⟩
  obtain ⟨-, rfl⟩ := ofRange_eq_ok_iff.mp h
  exact ⟨_, rfl, rfl, rfl⟩

theorem Spans.react (h : r.2.Spans low high) (event : Event K) : (Efficiency.react r event).2.Spans low high := by
  cases event with
  | change c => exact h
  | close limit fraction =>
    refine ⟨h.constructed.close limit fraction, ?_⟩
    rcases r.2.close_cases limit fraction with heq | hok
    · rw [Efficiency.react, heq]
      exact h.range
    · obtain ⟨t, hshape, hlow, hhigh⟩ := h.range
      obtain ⟨t₁, t', hshape₁, hclose, heq⟩ := addThreshold?_eq_ok_iff.mp hok
      obtain rfl : t = t₁ := Shape.threshold.inj (hshape.symm.trans hshape₁)
      have hlaid : t.Laid := by
        have haccepted := h.constructed.accepted
        rw [hshape] at haccepted
        exact haccepted
      obtain ⟨hlow', hhigh'⟩ := hlaid.range_of_close hclose
      exact ⟨t', congrArg Efficiency.shape heq, hlow'.trans hlow, hhigh'.trans hhigh⟩

theorem Spans.foldl (h : r.2.Spans low high) (events : List (Event K)) :
    (events.foldl Efficiency.react r).2.Spans low high := by
  induction events generalizing r with
  | nil => exact h
  | cons event events ih => exact ih (h.react event)

variable [IsStrictOrderedRing K]

/-- Whatever happens to a threshold efficiency and to the parameters it holds, the values of its fractions are the areas of its bins and the
last bin has the rest of one. -/
theorem fractions_are_areas {name : String} (h : ofRange name low high = .ok e) (s : Store K)
    (events : List (Event K)) :
    let r := events.foldl react (s, e)
    let p := r.2.profile r.1.value
    let fractions := r.2.parameters.map r.1.value
    p.knots.first = low ∧ p.knots.last = high ∧ p.HasAreas (fractions ++ [1 - fractions.sum]) := by
  intro r p fractions
  have hspans : r.2.Spans low high := Spans.foldl (r := (s, e)) (spans_ofRange h) events
  obtain ⟨t, hshape, rfl, rfl⟩ := hspans.range
  have hlaid : t.Laid := by
    have haccepted := hspans.constructed.accepted
    rw [hshape] at haccepted
    exact haccepted
  have hp : p = .steps (t.map r.1.value).steps := by
    simp [p, profile, map, hshape]
  have hfractions : fractions = (t.map r.1.value).fractions := by
    simp [fractions, parameters, hshape]
  rw [hp, hfractions]
  exact ⟨(t.map r.1.value).first_eq, (t.map r.1.value).last_eq, Thresholds.hasAreas (hlaid.map _)⟩

theorem fractions_are_areas_at_refused_limits :
    let e : Efficiency ℚ Parameter := ⟨"steps", .threshold ⟨[0, 3], []⟩⟩
    let events : List (Event ℚ) := [.change (.create ⟨"fraction", 1, some (0, 5), false⟩), .close 1 ⟨0⟩,
      .close 1 ⟨0⟩, .close 3 ⟨0⟩, .change (.setValue ⟨0⟩ 4)]
    let r := events.foldl react (Store.empty, e)
    let p := r.2.profile r.1.value
    ofRange "steps" 0 3 = .ok e ∧ p.boundaries = [0, 1, 3] ∧ p.knots.first = 0 ∧ p.knots.last = 3 ∧
      p.HasAreas [4, -3] := by
  intro e events r p
  have h : ofRange "steps" 0 3 = .ok e := rfl
  have hfractions : r.2.parameters.map r.1.value = [4] := by decide
  have hshares : r.2.parameters.map r.1.value ++ [1 - (r.2.parameters.map r.1.value).sum] = [4, -3] := by
    rw [hfractions]
    norm_num
  obtain ⟨hfirst, hlast, hareas⟩ := fractions_are_areas h Store.empty events
  exact ⟨h, by decide, hfirst, hlast, hshares ▸ hareas⟩

end Efficiency
end LifetimeEfficiency
