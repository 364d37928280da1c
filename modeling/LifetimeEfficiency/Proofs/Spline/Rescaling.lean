import LifetimeEfficiency.Proofs.Spline.Pivots
/-!
# Splines in other units

Knots moved and stretched give the same coefficients from the same values. The equations at the ends are multiplied by a power of the
unit, which the pivot test does not see.
-/
namespace LifetimeEfficiency

variable {K : Type} [Field K] [LinearOrder K]

namespace Window

def map (f : K → K) (w : Window K) : Window K := ⟨f w.a, f w.b, f w.c, f w.d, f w.e, f w.f⟩

theorem spacing_map (α β : K) (w : Window K) :
    Spacing.ofWindow (w.map fun u => α * u + β) =
      ⟨α ^ 3 * (Spacing.ofWindow w).p, α ^ 3 * (Spacing.ofWindow w).q,
        α ^ 3 * (Spacing.ofWindow w).r, α ^ 3 * (Spacing.ofWindow w).s⟩ := by
  simp only [Spacing.ofWindow, map, Spacing.mk.injEq]
  refine ⟨?_, ?_, ?_, ?_⟩ <;> ring

private theorem value_ofRoots_map {α : K} (hα : α ≠ 0) (β weight g a b c x : K) :
    (Cubic.ofRoots (weight / (α ^ 3 * g)) (α * a + β) (α * b + β) (α * c + β)).value (α * x + β) =
      (Cubic.ofRoots (weight / g) a b c).value x := by
  have hstretch (u : K) : α * x + β - (α * u + β) = α * (x - u) := by
    ring
  rw [Cubic.value_ofRoots, Cubic.value_ofRoots, hstretch, hstretch, hstretch, mul_comm (α ^ 3) g,
    ← div_div]
  field_simp

theorem basis_map {α : K} (hα : α ≠ 0) (β : K) (w : Window K) {slot : Nat} (hs : slot < 4) (x : K) :
    ((w.map fun u => α * u + β).basis slot).value (α * x + β) = (w.basis slot).value x := by
  obtain ⟨h0, h1, h2, h3⟩ := linear_slots (Cubic.isLinear_value x) w
  obtain ⟨h0', h1', h2', h3'⟩ :=
    linear_slots (Cubic.isLinear_value (α * x + β)) (w.map fun u => α * u + β)
  simp only [spacing_map] at h0' h1' h2' h3'
  simp only [map, value_ofRoots_map hα] at h0' h1' h2' h3'
  match slot, hs with
  | 0, _ => exact h0'.trans h0.symm
  | 1, _ => exact h1'.trans h1.symm
  | 2, _ => exact h2'.trans h2.symm
  | 3, _ => exact h3'.trans h3.symm

end Window

namespace Knots

def map (f : K → K) (k : Knots K) : Knots K := ⟨k.points.map f⟩

omit [Field K] [LinearOrder K] in
@[simp] theorem size_map (f : K → K) (k : Knots K) : (k.map f).size = k.size := List.length_map f

omit [Field K] [LinearOrder K] in
@[simp] theorem intervals_map (f : K → K) (k : Knots K) : (k.map f).intervals = k.intervals := by
  rw [intervals, size_map, intervals]

namespace Increasing

variable {k : Knots K} (h : k.Increasing)

include h

theorem u_map (f : K → K) (i : Int) : (k.map f).u i = f (k.u i) := by
  have hlt := h.position_lt i
  have hposition : (k.map f).position i = k.position i := by
    rw [position, size_map, position]
  rw [u_eq_getD, u_eq_getD, hposition, List.getD_eq_getElem _ _ hlt, map,
    List.getD_eq_getElem _ _ (by rwa [List.length_map]), List.getElem_map]

theorem window_map (f : K → K) (i : Int) : (k.map f).window i = (k.window i).map f := by
  simp only [window, Window.map, h.u_map]

theorem first_map (f : K → K) : (k.map f).first = f k.first := h.u_map f 0

theorem last_map (f : K → K) : (k.map f).last = f k.last := by
  rw [last, size_map, h.u_map, last]

omit [Field K] in
theorem map {f : K → K} (hf : StrictMono f) : (k.map f).Increasing where
  two_le := h.two_le.trans_eq (size_map f k).symm
  sorted := List.pairwise_map.mpr (h.sorted.imp fun hlt => hf hlt)

theorem locate_map {f : K → K} (hf : StrictMono f) (x : K) : (k.map f).locate (f x) = k.locate x := by
  have hcovers : k.Covers (k.locate x) x := h.locate_eq_iff.mp rfl
  refine (h.map hf).locate_eq_iff.mpr ?_
  cases hside : k.locate x with
  | left =>
    rw [hside] at hcovers
    rw [Covers, h.first_map]
    exact hf hcovers
  | interval i =>
    rw [hside] at hcovers
    simpa only [Covers, intervals_map, h.u_map, hf.le_iff_le, hf.lt_iff_lt] using hcovers
  | right =>
    rw [hside] at hcovers
    rw [Covers, h.last_map]
    exact hf hcovers

variable (α β : K)

theorem h_map (i j : Int) : (k.map fun u => α * u + β).h i j = α * k.h i j := by
  rw [Knots.h, Knots.h, h.u_map, h.u_map]
  ring

theorem width_map (i : Int) : (k.map fun u => α * u + β).width i = α * k.width i := h.h_map α β _ _

theorem r_map (i : Int) : (k.map fun u => α * u + β).r i = k.r i / α := by
  rw [r, r, h.width_map, mul_comm, ← div_div]

end Increasing

end Knots

theorem strictMono_affine [IsStrictOrderedRing K] {α : K} (hα : 0 < α) (β : K) : StrictMono fun u : K => α * u + β :=
  (strictMono_mul_left_of_pos hα).add_const β

namespace Curve

def map (f : K → K) (c : Curve K) : Curve K := ⟨c.knots.map f, c.coefs⟩

section Affine

variable {c : Curve K} (h : c.knots.Increasing) {α : K} (hα : 0 < α) (β : K)

include h hα

theorem value_intervalPolynomial_map (i : Nat) (x : K) :
    ((c.map fun u => α * u + β).intervalPolynomial i).value (α * x + β) =
      (c.intervalPolynomial i).value x := by
  rw [linear_intervalPolynomial (Cubic.isLinear_value _),
    linear_intervalPolynomial (Cubic.isLinear_value _), map, h.window_map]
  simp only [Window.basis_map hα.ne' β _ (show 0 < 4 by decide),
    Window.basis_map hα.ne' β _ (show 1 < 4 by decide),
    Window.basis_map hα.ne' β _ (show 2 < 4 by decide),
    Window.basis_map hα.ne' β _ (show 3 < 4 by decide)]
  rfl

variable [IsStrictOrderedRing K]

theorem value_map (x : K) : (c.map fun u => α * u + β).value (α * x + β) = c.value x := by
  have hlocate := h.locate_map (strictMono_affine hα β) x
  rw [value, value, map, hlocate]
  cases hside : c.knots.locate x with
  | left =>
    simp only [h.first_map, h.r_map]
    rw [show α * x + β - (α * c.knots.first + β) = α * (x - c.knots.first) by ring]
    simp only [coef]
    field_simp
  | interval i =>
    simp only
    rw [valueInside_eq, valueInside_eq]
    exact value_intervalPolynomial_map h hα β i x
  | right =>
    simp only [h.last_map, h.r_map, Knots.size_map]
    rw [show α * x + β - (α * c.knots.last + β) = α * (x - c.knots.last) by ring]
    simp only [coef]
    field_simp

theorem integral_map : (c.map fun u => α * u + β).integral = α * c.integral := by
  have hpiece (i : Nat) : ((c.map fun u => α * u + β).intervalPolynomial i).integral
      (α * c.knots.u i + β) (α * c.knots.u (i + 1) + β) =
        α * (c.intervalPolynomial i).integral (c.knots.u i) (c.knots.u (i + 1)) :=
    Cubic.integral_of_substitution (value_intervalPolynomial_map h hα β i) _ _
  have hknots : (c.map fun u => α * u + β).knots = c.knots.map fun u => α * u + β := rfl
  rw [integral_eq, integral_eq, hknots, Knots.intervals_map, ← List.sum_map_mul_left]
  simp only [h.u_map, hpiece]

end Affine

end Curve

/-- The condition in a unit that is `α` times smaller. -/
def EndCondition.rescaled (α : K) : EndCondition K → EndCondition K
  | .secondDerivative v => .secondDerivative (v / α ^ 2)
  | .firstDerivative v => .firstDerivative (v / α)

def EndConditions.rescaled (α : K) (ends : EndConditions K) : EndConditions K :=
  ⟨ends.left.rescaled α, ends.right.rescaled α⟩

namespace Spline

def Equation.times (m : K) (e : Equation K) : Equation K :=
  ⟨m * e.below, m * e.diag, m * e.above, m * e.rhs⟩

omit [LinearOrder K] in
theorem Equation.Holds.times {e : Equation K} {x y z : K} (h : e.Holds x y z) (m : K) :
    (e.times m).Holds x y z := by
  unfold Holds at *
  rw [Equation.times, ← h]
  ring

theorem interpolate_of_length_ne {k : Knots K} {values : List K} (hlen : values.length ≠ k.size)
    (ends : EndConditions K) :
    interpolate k values ends = .error (.length "sampled values" k.size values.length) := by
  rw [interpolate, checkLength, if_neg hlen]
  rfl

variable [IsStrictOrderedRing K]

section Multiples

variable {k k' : Knots K} {n : Nat} (hn : k.size = n + 2) (hn' : k'.size = n + 2) {values b b' : List K}
  {ends ends' : EndConditions K} (h : ∀ (i : Nat) (e : Equation K), (equations k values ends)[i]? = some e →
    ∃ m, 0 < m ∧ (equations k' values ends')[i]? = some (e.times m))

include hn hn' h

theorem row_of_times (i : Nat) : ∃ m, 0 < m ∧ (bands (equations k' values ends')).row i =
    ((bands (equations k values ends)).row i).times m := by
  cases he : (equations k values ends)[i]? with
  | some e =>
    obtain ⟨m, hm, he'⟩ := h i e he
    refine ⟨m, hm, ?_⟩
    rw [row_eq values ends' he', row_eq values ends he]
    rfl
  | none =>
    rw [List.getElem?_eq_none_iff, length_equations (by omega), hn] at he
    refine ⟨1, one_pos, ?_⟩
    rw [Tridiagonal.row, Tridiagonal.row, List.getD_eq_default _ _ (by rwa [length_rows values ends' hn']),
      List.getD_eq_default _ _ (by rwa [length_rows values ends hn])]
    simp [Tridiagonal.Row.times]

theorem eq_of_interpolate_of_times (hb : interpolate k values ends = .ok b)
    (hb' : interpolate k' values ends' = .ok b') : b' = b := by
  obtain ⟨hfirst, hlast⟩ := outer_of_interpolate hn hb
  apply eq_of_holds hn' hb' (length_of_interpolate hn hb).2 hfirst hlast
  intro i e' he'
  obtain ⟨hi, -⟩ := List.getElem?_eq_some_iff.mp he'
  have hlt : i < (equations k values ends).length := by
    rwa [length_equations (by omega), hn', ← hn, ← length_equations (by omega) values ends] at hi
  obtain ⟨m, -, hm⟩ := h i _ (List.getElem?_eq_getElem hlt)
  rw [he'] at hm
  cases hm
  exact (holds_of_interpolate hn hb (List.getElem?_eq_getElem hlt)).times m

/-- Equations that are positive multiples of each other have one outcome. -/
theorem interpolate_eq_of_times : interpolate k' values ends' = interpolate k values ends := by
  by_cases hlen : values.length = k.size
  · have hcases := interpolate_cases hn' (hlen.trans (hn.trans hn'.symm)) ends'
    simp only [Tridiagonal.accepts_iff_of_times (row_of_times hn hn' h)] at hcases
    rcases interpolate_cases hn hlen ends with ⟨hall, b, hb⟩ | ⟨i, hi, hstop, hbefore, herror⟩
    · rcases hcases with ⟨-, b', hb'⟩ | ⟨j, hj, hstop', -⟩
      · rw [hb, hb', eq_of_interpolate_of_times hn hn' h hb hb']
      · exact absurd (hall j hj) hstop'
    · rcases hcases with ⟨hall, -⟩ | ⟨j, hj, hstop', hbefore', herror'⟩
      · exact absurd (hall i hi) hstop
      · have hij : ¬ i < j := fun hlt => hstop (hbefore' i hlt)
        have hji : ¬ j < i := fun hlt => hstop' (hbefore j hlt)
        obtain rfl : i = j := by omega
        rw [herror, herror']
  · have hlen' : values.length ≠ k'.size := by rwa [hn', ← hn]
    rw [interpolate_of_length_ne hlen, interpolate_of_length_ne hlen', hn, hn']

end Multiples

section Equations

variable {k : Knots K} (hk : k.Increasing) {α : K} (hα : 0 < α) (β : K)

include hk hα

theorem leftEquation_map (first : K) (e : EndCondition K) :
    ∃ m, 0 < m ∧ leftEquation (k.map fun u => α * u + β) first (e.rescaled α) =
      (leftEquation k first e).times m := by
  cases e with
  | secondDerivative v =>
    refine ⟨1 / α ^ 2, by positivity, ?_⟩
    simp only [EndCondition.rescaled, leftEquation, hk.width_map, hk.h_map, Equation.times,
      Equation.mk.injEq, Scalar.exact_zero, Scalar.exact_ofNat, mul_zero, true_and]
    refine ⟨?_, ?_, ?_⟩ <;> field_simp
  | firstDerivative v =>
    refine ⟨1 / α, by positivity, ?_⟩
    simp only [EndCondition.rescaled, leftEquation, hk.width_map, Equation.times,
      Equation.mk.injEq, Scalar.exact_zero, Scalar.exact_ofNat, mul_zero, true_and]
    refine ⟨?_, ?_⟩ <;> field_simp

theorem rightEquation_map (last : K) (e : EndCondition K) :
    ∃ m, 0 < m ∧ rightEquation (k.map fun u => α * u + β) last (e.rescaled α) =
      (rightEquation k last e).times m := by
  cases e with
  | secondDerivative v =>
    refine ⟨1 / α ^ 2, by positivity, ?_⟩
    simp only [EndCondition.rescaled, rightEquation, hk.width_map, hk.h_map, Knots.size_map,
      Equation.times, Equation.mk.injEq, Scalar.exact_zero, Scalar.exact_ofNat, mul_zero, true_and]
    refine ⟨?_, ?_, ?_⟩ <;> field_simp
  | firstDerivative v =>
    refine ⟨1 / α, by positivity, ?_⟩
    simp only [EndCondition.rescaled, rightEquation, hk.width_map, Knots.size_map, Equation.times,
      Equation.mk.injEq, Scalar.exact_zero, Scalar.exact_ofNat, mul_zero, true_and]
    refine ⟨?_, ?_⟩ <;> field_simp

omit [IsStrictOrderedRing K] in
theorem innerEquation_map (i : Nat) (value : K) :
    innerEquation (k.map fun u => α * u + β) i value = innerEquation k i value := by
  have hbasis : (k.map fun u => α * u + β).basisValues i (α * k.u i + β) = k.basisValues i (k.u i) := by
    rw [Knots.basisValues_eq, Knots.basisValues_eq, hk.window_map]
    apply List.map_congr_left
    intro slot hslot
    exact Window.basis_map hα.ne' β _ (List.mem_range.mp hslot) _
  simp only [innerEquation, hk.u_map, hbasis]

theorem interpolate_rescaled (values : List K) (ends : EndConditions K) :
    interpolate (k.map fun u => α * u + β) values (ends.rescaled α) = interpolate k values ends := by
  obtain ⟨n, hn⟩ := Nat.exists_eq_add_of_le' hk.two_le
  have hn' : (k.map fun u => α * u + β).size = n + 2 := (Knots.size_map _ k).trans hn
  apply interpolate_eq_of_times hn hn'
  intro i e he
  obtain ⟨hi, -⟩ := List.getElem?_eq_some_iff.mp he
  rw [length_equations hk.two_le, hn] at hi
  rcases Nat.eq_zero_or_pos i with rfl | hpos
  · rw [equations_head] at he ⊢
    cases he
    obtain ⟨m, hm, heq⟩ := leftEquation_map hk hα β (values.getD 0 0) ends.left
    exact ⟨m, hm, congrArg some heq⟩
  rcases Nat.lt_or_ge i (n + 1) with hlt | hge
  · obtain ⟨j, rfl⟩ := Nat.exists_eq_succ_of_ne_zero hpos.ne'
    rw [equations_inner values ends (by omega)] at he
    rw [equations_inner values _ (by omega)]
    cases he
    refine ⟨1, one_pos, congrArg some ?_⟩
    rw [innerEquation_map hk hα β]
    simp [Equation.times]
  · obtain rfl : i = n + 1 := by omega
    rw [equations_last values ends hn] at he
    rw [equations_last values _ hn']
    cases he
    obtain ⟨m, hm, heq⟩ := rightEquation_map hk hα β (values.getD (n + 1) 0) ends.right
    exact ⟨m, hm, congrArg some heq⟩

end Equations

end Spline
end LifetimeEfficiency
