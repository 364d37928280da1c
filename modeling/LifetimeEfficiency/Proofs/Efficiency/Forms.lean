import LifetimeEfficiency.Proofs.Efficiency.Constructed
/-!
# Polynomial forms of efficiencies

Between two neighbouring boundaries an efficiency is one cubic: the polynomial of the interval, the height of the bin or its density.
Beyond the boundaries it is a line, the outer height or zero.
-/
namespace LifetimeEfficiency

variable {K : Type} [Field K] [LinearOrder K]

namespace Profile

/-- The cubic that is in force on a side of the boundaries or between two of them. -/
def form (p : Profile K) : Location → Cubic K
  | .left => p.left
  | .interval i => p.inner i
  | .right => p.right

variable [IsStrictOrderedRing K]

theorem value_eq_form {p : Profile K} (hp : p.Accepted) (x : K) :
    p.value x = (p.form (p.knots.locate x)).value x := by
  have hcovers : p.knots.Covers (p.knots.locate x) x := hp.increasing.locate_eq_iff.mp rfl
  cases hside : p.knots.locate x with
  | left =>
    rw [hside] at hcovers
    exact value_left hp hcovers
  | interval i =>
    rw [hside] at hcovers
    obtain ⟨hi, hle, hge, hlt⟩ := hcovers
    exact value_inner hp hi hle hge hlt
  | right =>
    rw [hside] at hcovers
    exact value_right hp hcovers

end Profile

namespace Thresholds

/-- The fraction of each bin, that of the open one included. -/
def shares (t : Thresholds K K) : List K := t.fractions ++ [1 - t.fractions.sum]

def knots {α : Type} (t : Thresholds K α) : Knots K := ⟨t.boundaries⟩

def density (t : Thresholds K K) (i : Nat) : K := t.shares.getD i 0 / t.knots.width i

theorem intervals_eq {α : Type} {t : Thresholds K α} (ht : t.Laid) : t.knots.intervals = t.fractions.length + 1 := by
  rw [Knots.intervals, Knots.size, knots, ht.length]
  rfl

theorem length_shares {t : Thresholds K K} (ht : t.Laid) : t.shares.length = t.knots.intervals := by
  rw [intervals_eq ht, shares, List.length_append, List.length_singleton]

theorem height_eq {t : Thresholds K K} (ht : t.Laid) {i : Nat} (hi : i < t.knots.intervals) :
    t.steps.heights.getD i 0 = t.density i := by
  have hlt : i + 1 < t.boundaries.length := Nat.add_lt_of_lt_sub hi
  have hheight : i < t.steps.heights.length := t.length_heights.symm ▸ hi
  have hshares : t.shares = t.fractions ++ [t.lastFraction] := by
    rw [shares, lastFraction, Scalar.exact_one, Scalar.sum_eq]
  have hi' : i < (t.fractions ++ [t.lastFraction]).length := by
    rw [← hshares, length_shares ht]
    exact hi
  have hwidth : t.knots.width i = t.boundaries[i + 1] - t.boundaries[i] := by
    have hu := t.knots.u_natCast (Nat.lt_of_succ_lt hlt)
    have hu' : t.knots.u (i + 1) = t.knots.points[i + 1] := t.knots.u_natCast hlt
    rw [Knots.width, Knots.h, hu, hu']
    rfl
  rw [List.getD_eq_getElem _ _ hheight, getElem_heights, height, fraction_eq_getElem t hi', List.getD_eq_getElem _ _ hlt,
    List.getD_eq_getElem _ _ (Nat.lt_of_succ_lt hlt), density, hwidth, hshares, List.getD_eq_getElem _ _ hi']

end Thresholds

namespace Efficiency

variable {α : Type}

def knots (e : Efficiency K α) : Knots K :=
  match e.shape with
  | .spline k _ => k
  | .binned boundaries _ => ⟨boundaries⟩
  | .threshold t => t.knots

def form (value : α → K) (e : Efficiency K α) : Location → Cubic K :=
  match (e.map value).shape with
  | .spline k coefs => fun
    | .left => (⟨k, coefs⟩ : Curve K).leftLine
    | .interval i => (⟨k, coefs⟩ : Curve K).intervalPolynomial i
    | .right => (⟨k, coefs⟩ : Curve K).rightLine
  | .binned _ heights => fun
    | .left => .constant (heights.headD 0)
    | .interval i => .constant (heights.getD i 0)
    | .right => .constant (heights.getLastD 0)
  | .threshold t => fun
    | .left => .constant 0
    | .interval i => .constant (t.density i)
    | .right => .constant 0

variable {e : Efficiency K α} (value : α → K)

theorem knots_profile (e : Efficiency K α) : (e.profile value).knots = e.knots := by
  obtain ⟨name, shape⟩ := e
  cases shape with
  | spline k coefs => rfl
  | binned boundaries heights => rfl
  | threshold t => rfl

theorem form_profile (he : e.Constructed) {side : Location}
    (hside : ∀ i, side = .interval i → i < e.knots.intervals) :
    (e.profile value).form side = e.form value side := by
  have haccepted := he.accepted
  obtain ⟨name, shape⟩ := e
  cases shape with
  | spline k coefs => cases side <;> rfl
  | binned boundaries heights =>
    cases side with
    | left => exact congrArg Cubic.constant (Steps.firstHeight_eq _)
    | interval i => rfl
    | right => exact congrArg Cubic.constant (Steps.lastHeight_eq _)
  | threshold t =>
    cases side with
    | left => rfl
    | interval i =>
      have hlaid : (t.map value).Laid := haccepted.map value
      exact congrArg Cubic.constant (Thresholds.height_eq hlaid (hside i rfl))
    | right => rfl

variable [IsStrictOrderedRing K]

/-- Cut at its boundaries, a range falls into parts on which the efficiency is one cubic, and at every point its value is that of the
cubic in force there. -/
theorem piecewise_polynomial (he : e.Constructed) (value : α → K) {lo hi : K} (hle : lo ≤ hi) :
    let p := e.profile value
    let ends := lo :: p.boundariesWithin lo hi ++ [hi]
    (p.boundariesWithin lo hi).Pairwise (· < ·) ∧
    (∀ x, x ∈ p.boundariesWithin lo hi ↔ x ∈ e.knots.points ∧ lo ≤ x ∧ x ≤ hi) ∧
    (∀ x, p.value x = (e.form value (e.knots.locate x)).value x) ∧
    ∀ a b, (a, b) ∈ ends.zip ends.tail → ∃ side, ∀ x, a < x → x < b →
      e.knots.locate x = side ∧ p.value x = (e.form value side).value x := by
  intro p ends
  have hp : p.Accepted := he.profile value
  have hknots : p.knots = e.knots := e.knots_profile value
  have hinc : e.knots.Increasing := hknots ▸ hp.increasing
  have hpoints : p.boundaries = e.knots.points := p.boundaries_eq.trans (congrArg _ hknots)
  have hvalue (x : K) : p.value x = (e.form value (e.knots.locate x)).value x := by
    have hcovers : e.knots.Covers (e.knots.locate x) x := hinc.locate_eq_iff.mp rfl
    rw [Profile.value_eq_form hp, hknots, form_profile value he]
    intro i hi
    rw [hi] at hcovers
    exact hcovers.1
  refine ⟨?_, ?_, hvalue, ?_⟩
  · rw [Profile.boundariesWithin, hpoints]
    exact hinc.sorted.filter _
  · intro x
    rw [Profile.boundariesWithin, hpoints, mem_pointsWithin_iff]
  · intro a b hab
    have hgap (q : K) (hq : q ∈ e.knots.points) : q ≤ a ∨ b ≤ q := by
      rw [← hpoints] at hq
      exact le_or_le_of_consecutive (hpoints ▸ hinc.sorted) hle hab hq
    rcases Classical.em (∃ y, a < y ∧ y < b) with ⟨y, hy⟩ | hempty
    · refine ⟨e.knots.locate y, ?_⟩
      intro x hax hxb
      have hside := hinc.locate_congr hgap ⟨hax, hxb⟩ hy
      exact ⟨hside, hside ▸ hvalue x⟩
    · refine ⟨.left, ?_⟩
      intro x hax hxb
      exact absurd ⟨x, hax, hxb⟩ hempty

theorem piecewise_polynomial_at_spline :
    let e : Efficiency ℚ ℚ := ⟨"eff", .spline ⟨[0, 1, 3]⟩ [2, 7, 1, 8, 2]⟩
    let c : Curve ℚ := ⟨⟨[0, 1, 3]⟩, [2, 7, 1, 8, 2]⟩
    let p := e.profile id
    e.Constructed ∧ (1 : ℚ) ≤ 4 ∧ p.boundariesWithin 1 4 = [1, 3] ∧
      p.value 3 = (c.intervalPolynomial 1).value 3 ∧ p.value 4 = c.rightLine.value 4 ∧
      ∃ side, ∀ x, 1 < x → x < 3 →
        e.knots.locate x = side ∧ p.value x = (e.form id side).value x := by
  intro e c p
  have hk : Knots.ofList (K := ℚ) [0, 1, 3] = .ok ⟨[0, 1, 3]⟩ :=
    Knots.ofList_eq_ok_iff.mpr ⟨rfl, ⟨by decide, by norm_num⟩⟩
  have hok : Efficiency.ofKnots "eff" ⟨[0, 1, 3]⟩ [2, 7, 1, 8, 2] = .ok e := if_pos rfl
  have he : e.Constructed := .ofKnots hk hok
  have hle : (1 : ℚ) ≤ 4 := by norm_num
  have hwithin : p.boundariesWithin 1 4 = [1, 3] := by decide
  obtain ⟨-, -, hvalue, hparts⟩ := Efficiency.piecewise_polynomial he id hle
  have hinterval : e.knots.locate 3 = .interval 1 := by decide
  have hright : e.knots.locate 4 = .right := by decide
  have h3 := hvalue 3
  have h4 := hvalue 4
  rw [hinterval] at h3
  rw [hright] at h4
  refine ⟨he, hle, hwithin, h3, h4, ?_⟩
  apply hparts
  rw [hwithin]
  decide

end Efficiency
end LifetimeEfficiency
