import LifetimeEfficiency.Efficiency.Profile
import LifetimeEfficiency.Proofs.Spline.Curve
/-!
# Profiles as pieces

A profile follows one cubic on each interval between its boundaries and one beyond either end. Its values and the segments of a
convolution are those of the same pieces.
-/
namespace LifetimeEfficiency

variable {K : Type} [Field K] [LinearOrder K]

namespace Steps

variable {s : Steps K}

def knots (s : Steps K) : Knots K := ⟨s.boundaries⟩

/-- The boundaries increase, and there is one height between each two of them. -/
structure Accepted (s : Steps K) : Prop where
  increasing : s.knots.Increasing
  heights : s.heights.length + 1 = s.boundaries.length

theorem first_eq (s : Steps K) : s.first = s.knots.first := by
  simp [first, Knots.first, Knots.u, knots]

theorem last_eq (s : Steps K) : s.last = s.knots.last := by
  simp [last, Knots.last, Knots.u, knots, Knots.size]

theorem firstHeight_eq (s : Steps K) : s.firstHeight = s.heights.headD 0 := by
  simp [firstHeight, List.head?_eq_getElem?]

theorem lastHeight_eq (s : Steps K) : s.lastHeight = s.heights.getLastD 0 := by
  simp [lastHeight, List.getLastD_eq_getLast?, List.getLast?_eq_getElem?]

theorem value_of_bracket [IsStrictOrderedRing K] {x : K} {i : Nat} (hfirst : s.knots.first ≤ x) (hlast : x ≤ s.knots.last)
    (hx : bracket s.boundaries x = i) : s.value x = s.heights.getD i 0 := by
  rw [value, s.first_eq, s.last_eq, if_neg hfirst.not_gt, if_neg hlast.not_gt, hx, Scalar.exact_zero]

theorem bins_eq (hs : s.Accepted) :
    s.bins = (List.range s.knots.intervals).map fun i : Nat =>
      ((s.knots.u i, s.knots.u (i + 1)), s.heights.getD i 0) := by
  have hheights := hs.heights
  have hlen : s.bins.length = s.knots.intervals := by
    simp [bins, Knots.intervals, Knots.size, knots]
    omega
  apply List.ext_getElem
  · rw [List.length_map, List.length_range, hlen]
  · intro i hi hi'
    have hlt : i < s.knots.intervals := hlen ▸ hi
    have hpoints : i + 1 < s.knots.points.length := by
      unfold Knots.intervals Knots.size at hlt
      omega
    have hu := s.knots.u_natCast (Nat.lt_of_succ_lt hpoints)
    have hu' : s.knots.u (i + 1) = s.knots.points[i + 1] := s.knots.u_natCast hpoints
    have hheight : i < s.heights.length := by
      unfold knots at hpoints
      dsimp only at hpoints
      omega
    rw [List.getElem_map, List.getElem_range, hu, hu', List.getD_eq_getElem _ _ hheight]
    simp [bins, knots]

end Steps

namespace Profile

def knots : Profile K → Knots K
  | curve c => c.knots
  | steps s => s.knots

def left : Profile K → Cubic K
  | curve c => c.leftLine
  | steps s => Cubic.constant (if s.extended then s.firstHeight else 0)

def inner : Profile K → Nat → Cubic K
  | curve c, i => c.intervalPolynomial i
  | steps s, i => Cubic.constant (s.heights.getD i 0)

def right : Profile K → Cubic K
  | curve c => c.rightLine
  | steps s => Cubic.constant (if s.extended then s.lastHeight else 0)

def Accepted : Profile K → Prop
  | curve c => c.knots.Increasing
  | steps s => s.Accepted

variable {p : Profile K}

omit [Field K] in
theorem Accepted.increasing (hp : p.Accepted) : p.knots.Increasing := by
  cases p with
  | curve c => exact hp
  | steps s => exact Steps.Accepted.increasing hp

omit [Field K] [LinearOrder K] in
theorem boundaries_eq (p : Profile K) : p.boundaries = p.knots.points := by
  cases p <;> rfl

variable [IsStrictOrderedRing K]

theorem value_left (hp : p.Accepted) {t : K} (ht : t < p.knots.first) :
    p.value t = p.left.value t := by
  cases p with
  | curve c => exact Curve.value_left hp ht
  | steps s =>
    have hfirst : t < s.first := s.first_eq ▸ ht
    rw [left, Cubic.value_constant, value, Steps.value, if_pos hfirst, Scalar.exact_zero]

theorem value_right (hp : p.Accepted) {t : K} (ht : p.knots.last < t) :
    p.value t = p.right.value t := by
  have hle : p.knots.first ≤ p.knots.last := hp.increasing.le_last 0
  cases p with
  | curve c => exact Curve.value_right hp ht
  | steps s =>
    have hlast : s.last < t := s.last_eq ▸ ht
    have hfirst : ¬ t < s.first := not_lt.mpr (s.first_eq ▸ hle.trans ht.le)
    rw [right, Cubic.value_constant, value, Steps.value, if_neg hfirst, if_pos hlast,
      Scalar.exact_zero]

theorem value_inner (hp : p.Accepted) {i : Nat} (hi : i < p.knots.intervals) {t : K}
    (hle : p.knots.u i ≤ t) (hge : t ≤ p.knots.u (i + 1))
    (hlt : i + 1 < p.knots.intervals → t < p.knots.u (i + 1)) : p.value t = (p.inner i).value t := by
  have hinc := hp.increasing
  have hfirst := hinc.first_le.trans hle
  have hlast := hge.trans (hinc.le_last _)
  cases p with
  | curve c => exact Curve.value_inside hp hi hle hge hlt
  | steps s =>
    have hlocate : s.knots.locate t = .interval i := hinc.locate_eq hi hle hge hlt
    have hfirst' : ¬ t < s.knots.first := not_lt.mpr hfirst
    have hlast' : ¬ s.knots.last < t := not_lt.mpr hlast
    rw [Knots.locate, if_neg hfirst', if_neg hlast'] at hlocate
    have hgap : bracket s.boundaries t = i := Location.interval.inj hlocate
    rw [inner, Cubic.value_constant]
    exact Steps.value_of_bracket hfirst hlast hgap

end Profile
end LifetimeEfficiency
