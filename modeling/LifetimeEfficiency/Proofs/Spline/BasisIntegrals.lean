import LifetimeEfficiency.Proofs.Outcome
import LifetimeEfficiency.Proofs.Overlap
import LifetimeEfficiency.Proofs.Spline.Exponential
import LifetimeEfficiency.Proofs.Spline.Polar
/-!
# Basis functions against an exponential

Cut off by a range, the integral over an interval is the difference of a primitive between the points of the interval that are nearest to
the ends of the range. Weighted with the coefficients of a curve, the integrals of the basis functions regroup by intervals to
those of the curve's polynomials.
-/
namespace LifetimeEfficiency

open Finset

variable {K : Type} [Field K]

/-- Every interval meets four functions, and every function the intervals up to three places before its own number. -/
theorem sum_supports_eq_sum_intervals (b : Nat → K) (g : Nat → Nat → K) (m : Nat) :
    ∑ n ∈ range (m + 3), b n * ∑ slot ∈ range 4,
        (if slot ≤ n ∧ n - slot < m then g (n - slot) slot else 0) =
      ∑ i ∈ range m, ∑ slot ∈ range 4, b (i + slot) * g i slot := by
  simp only [mul_sum]
  rw [sum_comm, sum_comm (s := range m)]
  refine sum_congr rfl fun slot hslot => ?_
  simp only [mul_ite, mul_zero]
  rw [← sum_filter]
  refine sum_nbij' (fun n => n - slot) (fun i => i + slot) ?_ ?_ ?_ ?_ ?_
  · intro n hn
    exact mem_range.mpr (mem_filter.mp hn).2.2
  · intro i hi
    rw [mem_range] at hi hslot
    rw [mem_filter, mem_range]
    omega
  · intro n hn
    exact Nat.sub_add_cancel (mem_filter.mp hn).2.1
  · intro i _
    exact Nat.add_sub_cancel i slot
  · intro n hn
    rw [Nat.sub_add_cancel (mem_filter.mp hn).2.1]

theorem sum_intervals_eq_sum_slots (g : Nat → Nat → K) (m n : Nat) :
    ((List.range m).map fun i => ∑ slot ∈ range 4, if i + slot = n then g i slot else 0).sum =
      ∑ slot ∈ range 4, if slot ≤ n ∧ n - slot < m then g (n - slot) slot else 0 := by
  have hsum : ((List.range m).map fun i => ∑ slot ∈ range 4, if i + slot = n then g i slot else 0).sum =
      ∑ i ∈ range m, ∑ slot ∈ range 4, if i + slot = n then g i slot else 0 := rfl
  rw [hsum, sum_comm]
  refine sum_congr rfl fun slot _ => ?_
  by_cases hslot : slot ≤ n
  · have hiff (i : Nat) : i + slot = n ↔ n - slot = i := by omega
    simp only [hiff, hslot, true_and, sum_ite_eq, mem_range]
  · have hnot (i : Nat) : ¬ i + slot = n := by omega
    simp [hnot, hslot]

theorem modify_map_range {L : Nat} (f : Nat → K) (j : Nat) (x : K) :
    ((List.range L).map f).modify j (· + x) = (List.range L).map fun n => f n + if j = n then x else 0 := by
  apply List.ext_getElem
  · simp
  · intro n hn hn'
    rw [List.getElem_modify]
    split
    · rename_i h
      simp [h]
    · rename_i h
      simp [h]

theorem foldlM_map_range {ε ι : Type} {L : Nat} {step : List K → ι → Except ε (List K)} {g : ι → Nat → K} {l : List ι}
    (hstep : ∀ f, ∀ i ∈ l, step ((List.range L).map f) i = .ok ((List.range L).map fun n => f n + g i n)) (f : Nat → K) :
    l.foldlM step ((List.range L).map f) = .ok ((List.range L).map fun n => f n + (l.map fun i => g i n).sum) := by
  induction l generalizing f with
  | nil => simp [pure, Except.pure]
  | cons i l ih =>
    rw [List.foldlM_cons, hstep f i List.mem_cons_self]
    refine (ih (fun f j hj => hstep f j (List.mem_cons_of_mem i hj)) _).trans ?_
    simp only [List.map_cons, List.sum_cons, add_assoc]

variable [LinearOrder K]

namespace DecayFunctions

variable [IsStrictOrderedRing K]

theorem isLinear_primitive (d : DecayFunctions K) (gamma x : K) :
    Cubic.IsLinear fun p => d.primitive gamma p x where
  zero := by
    rw [primitive, Cubic.weightedDerivatives_eq, (Cubic.isLinear_value x).zero,
      (Cubic.isLinear_slope x).zero, (Cubic.isLinear_curvature x).zero]
    simp [Cubic.zero, Cubic.constant]
  add p q := by
    simp only [primitive, Cubic.weightedDerivatives_eq, (Cubic.isLinear_value x).add,
      (Cubic.isLinear_slope x).add, (Cubic.isLinear_curvature x).add, Cubic.add_c3]
    ring
  scale p r := by
    have hc3 : (p.scale r).c3 = p.c3 * r := rfl
    simp only [primitive, Cubic.weightedDerivatives_eq, (Cubic.isLinear_value x).scale,
      (Cubic.isLinear_slope x).scale, (Cubic.isLinear_curvature x).scale, hc3]
    ring

omit [IsStrictOrderedRing K] in
theorem primitive_constant (d : DecayFunctions K) (gamma a x : K) :
    d.primitive gamma (Cubic.constant a) x = -d.exp (-gamma * x) * (a / gamma) := by
  rw [primitive, Cubic.weightedDerivatives_eq, Cubic.value_constant]
  simp [Cubic.slope, Cubic.curvature, Cubic.constant]

noncomputable def collected (d : DecayFunctions K) (gamma lo hi a b : K) (p : Cubic K) : K :=
  d.primitive gamma p (nearest a b hi) - d.primitive gamma p (nearest a b lo)

/-- What it collects of a basis function, which lives on four intervals at most. -/
noncomputable def basisCollected (d : DecayFunctions K) (gamma : K) (k : Knots K) (lo hi : K) (n : Nat) : K :=
  ∑ slot ∈ range 4,
    if slot ≤ n ∧ n - slot < k.intervals then
      d.collected gamma lo hi (k.u (n - slot : Nat)) (k.u ((n - slot : Nat) + 1))
        ((k.window (n - slot : Nat)).basis slot)
    else 0

section Lawful

variable {d : DecayFunctions K} {gamma : K} {k : Knots K} {lo hi : K} (hd : d.Lawful) (hgamma : 0 < gamma)
  (hle : lo ≤ hi)

include hd hgamma hle

theorem overlap_integral {a b : K} (hab : a ≤ b) (p : Cubic K) :
    (if min hi b ≤ max lo a then .ok 0 else d.integral p (max lo a) (min hi b) gamma) =
      (.ok (d.collected gamma lo hi a b p) : Except (Misuse K) K) := by
  rw [collected, ← overlap_eq (d.primitive gamma p) hab hle]
  split_ifs with h
  · rfl
  · exact integral_eq hd hgamma (not_le.mp h) p

theorem sum_overlapping {m : Nat} {u : Nat → K} (hu : Monotone u) (p : Nat → Cubic K) :
    sumM (((List.range m).filter fun i => max lo (u i) < min hi (u (i + 1))).map fun i =>
        d.integral (p i) (max lo (u i)) (min hi (u (i + 1))) gamma) =
      .ok (∑ i ∈ range m, d.collected gamma lo hi (u i) (u (i + 1)) (p i)) := by
  have hterm (i : Nat) := overlap_integral hd hgamma hle (hu i.le_succ) (p i)
  have hmet : ((List.range m).filter fun i => max lo (u i) < min hi (u (i + 1))).map
      (fun i => d.integral (p i) (max lo (u i)) (min hi (u (i + 1))) gamma) =
        ((List.range m).filter fun i => max lo (u i) < min hi (u (i + 1))).map
          fun i => .ok (d.collected gamma lo hi (u i) (u (i + 1)) (p i)) := by
    apply List.map_congr_left
    intro i hi
    have hlt := of_decide_eq_true (List.mem_filter.mp hi).2
    rw [← hterm, if_neg hlt.not_ge]
  have hmissed : (((List.range m).filter fun i => ¬ max lo (u i) < min hi (u (i + 1))).map
      fun i => d.collected gamma lo hi (u i) (u (i + 1)) (p i)).sum = 0 := by
    apply List.sum_eq_zero
    intro w hw
    obtain ⟨i, hi, rfl⟩ := List.mem_map.mp hw
    have hnot := of_decide_eq_true (List.mem_filter.mp hi).2
    have hzero := hterm i
    rw [if_pos (not_lt.mp hnot)] at hzero
    exact (Except.ok.inj hzero).symm
  have hsplit := List.sum_map_filter_add_sum_map_filter_not (fun i => max lo (u i) < min hi (u (i + 1)))
    (fun i => d.collected gamma lo hi (u i) (u (i + 1)) (p i)) (List.range m)
  rw [hmissed, add_zero] at hsplit
  rw [hmet, sumM_map_ok, hsplit]
  rfl

variable (hk : k.Increasing)

include hk

theorem addInterval_eq {L : Nat} (f : Nat → K) (i : Nat) :
    d.addInterval k lo hi gamma ((List.range L).map f) i = .ok ((List.range L).map fun n =>
      f n + ∑ slot ∈ range 4, if i + slot = n then
        d.collected gamma lo hi (k.u i) (k.u (i + 1)) ((k.window i).basis slot) else 0) := by
  have hbasis (slot : Nat) (hslot : slot < 4) : k.basisPolynomial i slot = (k.window i).basis slot := by
    simp [Knots.basisPolynomial, Knots.basisPolynomials_eq, hslot]
  have hpart := overlap_integral hd hgamma hle (hk.u_le (show (i : Int) ≤ i + 1 by omega))
  unfold addInterval
  dsimp only
  by_cases hmissed : min hi (k.u (i + 1)) ≤ max lo (k.u i)
  · -- an interval that the range does not meet has nothing to add
    have hzero (slot : Nat) :
        d.collected gamma lo hi (k.u i) (k.u (i + 1)) ((k.window i).basis slot) = 0 := by
      have hnone := hpart ((k.window i).basis slot)
      rw [if_pos hmissed] at hnone
      exact (Except.ok.inj hnone).symm
    rw [if_pos hmissed]
    simp only [hzero, ite_self, sum_const_zero, add_zero]
  · rw [if_neg hmissed]
    refine foldlM_map_range (g := fun slot n => if i + slot = n then
      d.collected gamma lo hi (k.u i) (k.u (i + 1)) ((k.window i).basis slot) else 0) (fun f slot hslot => ?_) f
    have hsome := hpart ((k.window i).basis slot)
    rw [if_neg hmissed] at hsome
    rw [hbasis slot (List.mem_range.mp hslot), hsome, ← modify_map_range]
    rfl

/-- Scattered interval by interval, each function in the end holds what it collects on its own intervals. -/
theorem basisIntegrals_eq : d.basisIntegrals k lo hi gamma =
    .ok ((List.range (k.size + 2)).map (d.basisCollected gamma k lo hi)) := by
  have hstart : List.replicate (k.size + 2) (0 : K) = (List.range (k.size + 2)).map fun _ => 0 := by
    rw [List.map_const', List.length_range]
  rw [basisIntegrals, Scalar.exact_zero, hstart,
    foldlM_map_range fun f i _ => addInterval_eq hd hgamma hle hk f i]
  refine congrArg Except.ok (List.map_congr_left fun n _ => ?_)
  rw [zero_add]
  exact sum_intervals_eq_sum_slots _ _ _

end Lawful

/-- Weighted with the coefficients of a curve, what is collected of the basis functions is collected of its polynomials. -/
theorem sum_basisCollected (d : DecayFunctions K) (gamma lo hi : K) {c : Curve K} (hk : c.knots.Increasing) :
    ∑ n ∈ range (c.knots.size + 2), c.coef n * d.basisCollected gamma c.knots lo hi n =
      ∑ i ∈ range c.knots.intervals,
        d.collected gamma lo hi (c.knots.u i) (c.knots.u (i + 1)) (c.intervalPolynomial i) := by
  obtain ⟨n, hn⟩ := Nat.exists_eq_add_of_le' hk.two_le
  have hcount : c.knots.size + 2 = c.knots.intervals + 3 := by
    rw [Knots.intervals_eq hn, hn]
  rw [hcount]
  refine (sum_supports_eq_sum_intervals c.coef (fun i slot =>
    d.collected gamma lo hi (c.knots.u i) (c.knots.u (i + 1)) ((c.knots.window i).basis slot)) _).trans ?_
  refine sum_congr rfl fun i _ => ?_
  have hlinear := (isLinear_primitive d gamma (nearest (c.knots.u i) (c.knots.u (i + 1)) hi)).sub
    (isLinear_primitive d gamma (nearest (c.knots.u i) (c.knots.u (i + 1)) lo))
  rw [collected, Curve.linear_intervalPolynomial hlinear]
  simp only [collected, sum_range_succ, range_zero, sum_empty, zero_add, add_zero]
  ring

theorem sum_basisCollected_one (d : DecayFunctions K) (gamma : K) {k : Knots K} (hk : k.Increasing) {lo hi : K}
    (hfirst : k.first ≤ lo) (hle : lo ≤ hi) (hlast : hi ≤ k.last) :
    ∑ n ∈ range (k.size + 2), d.basisCollected gamma k lo hi n =
      (d.exp (-gamma * lo) - d.exp (-gamma * hi)) / gamma := by
  have hone := sum_basisCollected d gamma lo hi (c := Curve.ofCubic k (Cubic.constant 1)) hk
  have hcoef (n : Nat) (hn : n ∈ range (k.size + 2)) :
      (Curve.ofCubic k (Cubic.constant 1)).coef n * d.basisCollected gamma k lo hi n =
        d.basisCollected gamma k lo hi n := by
    rw [Curve.coef_ofCubic k _ (mem_range.mp hn) rfl rfl rfl]
    simp [Cubic.polar, Cubic.constant]
  have hinterval (i : Nat) (hi' : i ∈ range k.intervals) :
      d.collected gamma lo hi (k.u i) (k.u (i + 1))
          ((Curve.ofCubic k (Cubic.constant 1)).intervalPolynomial i) =
        d.primitive gamma (Cubic.constant 1) (nearest (k.u i) (k.u (i + 1 : Nat)) hi) -
          d.primitive gamma (Cubic.constant 1) (nearest (k.u i) (k.u (i + 1 : Nat)) lo) := by
    rw [Curve.intervalPolynomial_ofCubic hk _ (mem_range.mp hi'), collected, Nat.cast_succ]
  have hmono : Monotone fun i : Nat => k.u i := fun i j hij => hk.u_le (by omega)
  have hends : k.u (k.intervals : Nat) = k.last := rfl
  calc
    _ = ∑ n ∈ range (k.size + 2), (Curve.ofCubic k (Cubic.constant 1)).coef n *
          d.basisCollected gamma k lo hi n := (sum_congr rfl hcoef).symm
    _ = ∑ i ∈ range k.intervals, _ := hone.trans (sum_congr rfl hinterval)
    _ = d.primitive gamma (Cubic.constant 1) (nearest k.first k.last hi) -
          d.primitive gamma (Cubic.constant 1) (nearest k.first k.last lo) :=
      sum_nearest (d.primitive gamma (Cubic.constant 1)) hmono k.intervals lo hi
    _ = (d.exp (-gamma * lo) - d.exp (-gamma * hi)) / gamma := by
      rw [nearest_of_mem (hfirst.trans hle) hlast, nearest_of_mem hfirst (hle.trans hlast),
        primitive_constant, primitive_constant]
      ring

omit [IsStrictOrderedRing K] in
theorem collected_add (d : DecayFunctions K) (gamma lo mid hi a b : K) (p : Cubic K) :
    d.collected gamma lo mid a b p + d.collected gamma mid hi a b p = d.collected gamma lo hi a b p :=
  sub_add_sub_cancel' _ _ _

omit [IsStrictOrderedRing K] in
theorem basisCollected_add (d : DecayFunctions K) (gamma : K) (k : Knots K) (lo mid hi : K) (n : Nat) :
    d.basisCollected gamma k lo mid n + d.basisCollected gamma k mid hi n =
      d.basisCollected gamma k lo hi n := by
  rw [basisCollected, basisCollected, ← sum_add_distrib]
  refine sum_congr rfl fun slot _ => ?_
  rw [ite_add_ite, collected_add, add_zero]

omit [LinearOrder K] [IsStrictOrderedRing K] in
theorem sum_zipWith_range {m : Nat} {xs : List K} (hlen : xs.length = m) (f : Nat → K) :
    (List.zipWith (· * ·) xs ((List.range m).map f)).sum = ∑ n ∈ range m, xs.getD n 0 * f n := by
  have hxs : xs = (List.range m).map fun n => xs.getD n 0 := by
    apply List.ext_getElem
    · simp [hlen]
    · intro n hn hn'
      simp [hn]
  conv_lhs => rw [hxs]
  rw [List.zipWith_map, List.zipWith_self]
  rfl

/-- On accepted knots the integrals of the basis functions exist over any range that runs forwards. Weighted with the coefficients of a
curve they add up to the integrals of its polynomials over the intervals that the range meets. They add up over adjacent
ranges, and between the outer knots to the integral of the bare exponential. -/
theorem basisIntegrals_represent {points coefs : List K} {k : Knots K} (hk : Knots.ofList points = .ok k)
    (hcoefs : coefs.length = points.length + 2) {d : DecayFunctions K} (hd : d.Lawful) {gamma lo mid hi : K}
    (hgamma : 0 < gamma) (hlo : lo ≤ mid) (hhi : mid ≤ hi) :
    ∃ c whole left right, Curve.ofCoefs k coefs = .ok c ∧
      d.basisIntegrals k lo hi gamma = .ok whole ∧ d.basisIntegrals k lo mid gamma = .ok left ∧
      d.basisIntegrals k mid hi gamma = .ok right ∧ whole.length = coefs.length ∧
      sumM (((List.range k.intervals).filter fun i : Nat =>
          max lo (k.u i) < min hi (k.u (i + 1))).map fun i : Nat =>
            d.integral (c.intervalPolynomial i) (max lo (k.u i)) (min hi (k.u (i + 1))) gamma) =
        .ok (List.zipWith (· * ·) coefs whole).sum ∧
      whole = List.zipWith (· + ·) left right ∧
      (k.first ≤ lo → hi ≤ k.last →
        whole.sum = (d.exp (-gamma * lo) - d.exp (-gamma * hi)) / gamma) := by
  obtain ⟨rfl, hinc⟩ := Knots.ofList_eq_ok_iff.mp hk
  have hle := hlo.trans hhi
  have hmono : Monotone fun i : Nat => k.u i := fun i j hij => hinc.u_le (by omega)
  have hparts := sum_overlapping hd hgamma hle (m := k.intervals) hmono
    (Curve.mk k coefs).intervalPolynomial
  refine ⟨⟨k, coefs⟩, _, _, _, Curve.ofCoefs_eq_ok_iff.mpr ⟨rfl, hcoefs⟩,
    basisIntegrals_eq hd hgamma hle hinc, basisIntegrals_eq hd hgamma hlo hinc,
    basisIntegrals_eq hd hgamma hhi hinc, ?_, ?_, ?_, ?_⟩
  · rw [List.length_map, List.length_range, hcoefs]
    rfl
  · have hcoef (n : Nat) : coefs.getD n 0 = (Curve.mk k coefs).coef n := ((Curve.mk k coefs).coef_eq n).symm
    have hsize : coefs.length = k.size + 2 := hcoefs
    simp only [Nat.cast_succ] at hparts
    rw [hparts, sum_zipWith_range hsize]
    simp only [hcoef]
    exact congrArg Except.ok (sum_basisCollected d gamma lo hi (c := ⟨k, coefs⟩) hinc).symm
  · rw [List.zipWith_map, List.zipWith_self]
    simp only [basisCollected_add]
  · intro hfirst hlast
    exact sum_basisCollected_one d gamma hinc hfirst hle hlast

theorem basisIntegrals_represent_at_three_knots :
    ∃ k : Knots ℝ, Knots.ofList [0, 1, 3] = .ok k ∧
      ∃ whole left right, real.basisIntegrals k 0 2 1 = .ok whole ∧ real.basisIntegrals k 0 1 1 = .ok left ∧
        real.basisIntegrals k 1 2 1 = .ok right ∧ whole = List.zipWith (· + ·) left right ∧
        whole.sum = 1 - Real.exp (-2) := by
  have hk : Knots.ofList [0, 1, 3] = .ok (⟨[0, 1, 3]⟩ : Knots ℝ) :=
    Knots.ofList_eq_ok_iff.mpr ⟨rfl, ⟨by decide, by norm_num⟩⟩
  have hcoefs : ([4, 1, 0, 2, 8] : List ℝ).length = ([0, 1, 3] : List ℝ).length + 2 := rfl
  have hlast : (2 : ℝ) ≤ (⟨[0, 1, 3]⟩ : Knots ℝ).last := show (2 : ℝ) ≤ 3 by norm_num
  obtain ⟨-, whole, left, right, -, hwhole, hleft, hright, -, -, hadd, hsum⟩ :=
    basisIntegrals_represent hk hcoefs lawful_real one_pos (zero_le_one' ℝ) one_le_two
  refine ⟨_, hk, whole, left, right, hwhole, hleft, hright, hadd, (hsum le_rfl hlast).trans ?_⟩
  simp [real]

end DecayFunctions
end LifetimeEfficiency
