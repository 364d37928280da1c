import LifetimeEfficiency.Proofs.Banded.Tridiagonal
import LifetimeEfficiency.Proofs.Spline.Curve
import LifetimeEfficiency.Spline.Interpolation
import Mathlib.Algebra.Order.Ring.Rat
import Mathlib.Tactic.LinearCombination
/-!
# Interpolation is exact

The coefficients that interpolation returns satisfy one equation for each knot: the inner ones say that the curve takes the given
value there, the outer ones that the derivative at the end is the prescribed one.
-/
namespace LifetimeEfficiency

/-! Lengths, whatever the numbers are. -/

namespace Spline

variable {K : Type} [Scalar K]

omit [Scalar K] in
theorem checkLength_eq_ok_iff {what : String} {values : List K} {n : Nat} {u : Unit} :
    checkLength what values n = .ok u ↔ values.length = n := by
  unfold checkLength
  split
  · simpa
  · simpa

theorem length_equations {k : Knots K} (hk : 2 ≤ k.size) (values : List K) (ends : EndConditions K) :
    (equations k values ends).length = k.size := by
  simp [equations]
  omega

theorem length_of_interpolate {k : Knots K} {values b : List K} {ends : EndConditions K} {n : Nat}
    (hn : k.size = n + 2) (h : interpolate k values ends = .ok b) :
    values.length = n + 2 ∧ b.length = n + 4 := by
  have hequations := length_equations (k := k) (by omega) values ends
  obtain ⟨u, hvalues, h⟩ := bind_eq_ok_iff.mp h
  obtain ⟨inner, hsolve, h⟩ := bind_eq_ok_iff.mp h
  obtain ⟨A, hA, hinner⟩ := bind_eq_ok_iff.mp (mapError_eq_ok_iff.mp hsolve)
  cases h
  have hlen := Tridiagonal.length_of_solve hA hinner
  rw [List.length_map, hequations, hn] at hlen
  refine ⟨(checkLength_eq_ok_iff.mp hvalues).trans hn, ?_⟩
  rw [List.length_append, List.length_cons, hlen, List.length_singleton]

end Spline

/-! From here on the numbers are exact. -/

variable {K : Type} [Field K] [LinearOrder K]

/-- The prescribed derivative of a polynomial at one end. -/
def EndCondition.HoldsAt (x : K) (p : Cubic K) : EndCondition K → Prop
  | .secondDerivative v => p.toPolynomial.derivative.derivative.eval x = v
  | .firstDerivative v => p.toPolynomial.derivative.eval x = v

namespace Spline

def Equation.row (e : Equation K) : Tridiagonal.Row K := ⟨e.below, e.diag, e.above⟩

def Equation.Holds (e : Equation K) (x y z : K) : Prop := e.below * x + e.diag * y + e.above * z = e.rhs

omit [Field K] [LinearOrder K] in
theorem zipWith_bands (es : List (Equation K)) :
    List.zipWith (fun ab c => (⟨ab.1, ab.2, c⟩ : Tridiagonal.Row K))
      ((es.map (·.below)).zip (es.map (·.diag))) (es.map (·.above)) = es.map Equation.row := by
  induction es with
  | nil => rfl
  | cons e es ih => simp only [List.map_cons, List.zip_cons_cons, List.zipWith_cons_cons, ih]; rfl

theorem below_leftEquation (k : Knots K) (first : K) (c : EndCondition K) :
    (leftEquation k first c).below = 0 := by
  cases c <;> exact Scalar.exact_zero

theorem above_rightEquation (k : Knots K) (last : K) (c : EndCondition K) :
    (rightEquation k last c).above = 0 := by
  cases c <;> exact Scalar.exact_zero

/-- Cutting the absent entries off and putting zeros in their place leaves the equations as they were. -/
private theorem rows_of_absent [IsStrictOrderedRing K] {e e' : Equation K} (es : List (Equation K)) (h : e.below = 0)
    (h' : e'.above = 0) :
    let all := e :: es ++ [e']
    (⟨all.tail.map (·.below), all.map (·.diag), all.dropLast.map (·.above)⟩ :
      Tridiagonal K).rows = all.map Equation.row := by
  intro all
  have hbelow : 0 :: all.tail.map (·.below) = all.map (·.below) := by
    simp [all, h]
  have habove : all.dropLast.map (·.above) ++ [0] = all.map (·.above) := by
    rw [show all.dropLast = e :: es from List.dropLast_concat]
    simp [all, h']
  rw [Tridiagonal.rows, Scalar.exact_zero, hbelow, habove, zipWith_bands]

def bands (es : List (Equation K)) : Tridiagonal K :=
  ⟨es.tail.map (·.below), es.map (·.diag), es.dropLast.map (·.above)⟩

theorem rows_equations [IsStrictOrderedRing K] (k : Knots K) (values : List K) (ends : EndConditions K) :
    (bands (equations k values ends)).rows = (equations k values ends).map Equation.row :=
  rows_of_absent _ (below_leftEquation k _ _) (above_rightEquation k _ _)

theorem rows_equations_congr (k : Knots K) (values values' : List K) (ends : EndConditions K) :
    (equations k values ends).map Equation.row = (equations k values' ends).map Equation.row := by
  obtain ⟨left, right⟩ := ends
  simp only [equations, List.cons_append, List.map_cons, List.map_append, List.map_map,
    List.map_nil, Function.comp_def]
  congr 1
  · cases left <;> rfl
  · congr 1
    cases right <;> rfl

/-- Interpolation returns the outer values with a solution of all equations between them. It succeeds when there is one value for
each knot and elimination goes through. -/
theorem interpolate_eq_ok_iff [IsStrictOrderedRing K] {k : Knots K} (hk : 2 ≤ k.size) {values b : List K}
    {ends : EndConditions K} :
    interpolate k values ends = .ok b ↔
      values.length = k.size ∧
        ∃ steps, Tridiagonal.eliminate 0 0 ((equations k values ends).map Equation.row) = .ok steps ∧
          b = values.getD 0 0 :: Tridiagonal.backward steps
            (Tridiagonal.forward 0 steps ((equations k values ends).map (·.rhs))) ++
              [values.getD (k.size - 1) 0] := by
  have hlen := length_equations hk values ends
  have hrows := rows_equations k values ends
  unfold bands at hrows
  simp only [interpolate, bind_eq_ok_iff, SplineError.ofBanded, mapError_eq_ok_iff,
    checkLength_eq_ok_iff, Tridiagonal.ofBands_eq_ok_iff, Tridiagonal.solve_eq_ok_iff,
    Tridiagonal.factor, Scalar.exact_zero]
  constructor
  · rintro ⟨_, hvalues, inner, ⟨A, ⟨rfl, -⟩, -, steps, hsteps, rfl⟩, hb⟩
    cases hb
    rw [hrows] at hsteps
    exact ⟨hvalues, steps, hsteps, rfl⟩
  · rintro ⟨hvalues, steps, hsteps, rfl⟩
    rw [← hrows] at hsteps
    refine ⟨(), hvalues, _, ⟨_, ⟨rfl, ?_, ?_, ?_⟩, ?_, steps, hsteps, rfl⟩, rfl⟩
    · exact List.ne_nil_of_length_pos (by rw [List.length_map]; omega)
    · simp
    · simp
    · simp [Tridiagonal.dimension]

theorem equations_head (k : Knots K) (values : List K) (ends : EndConditions K) :
    (equations k values ends)[0]? = some (leftEquation k (values.getD 0 0) ends.left) := by
  simp [equations]

theorem equations_inner {k : Knots K} (values : List K) (ends : EndConditions K) {i : Nat}
    (hi : i + 2 < k.size) :
    (equations k values ends)[i + 1]? = some (innerEquation k (i + 1) (values.getD (i + 1) 0)) := by
  have hlt : i < k.size - 2 := by omega
  simp [equations, List.getElem?_append_left, hlt]

theorem equations_last {k : Knots K} (values : List K) (ends : EndConditions K) {n : Nat}
    (hn : k.size = n + 2) :
    (equations k values ends)[n + 1]? =
      some (rightEquation k (values.getD (n + 1) 0) ends.right) := by
  simp [equations, hn]

variable [IsStrictOrderedRing K]

section Solution

variable {k : Knots K} {values b : List K} {ends : EndConditions K} {n : Nat}

theorem solves_of_interpolate (hn : k.size = n + 2) (h : interpolate k values ends = .ok b) :
    ∃ inner, values.length = n + 2 ∧ inner.length = n + 2 ∧
      b = values.getD 0 0 :: (inner ++ [values.getD (n + 1) 0]) ∧
      Tridiagonal.Solves 0 ((equations k values ends).map Equation.row)
        ((equations k values ends).map (·.rhs)) inner := by
  have hk : 2 ≤ k.size := by omega
  obtain ⟨hvalues, steps, hsteps, rfl⟩ := (interpolate_eq_ok_iff hk).mp h
  have hlen : ((equations k values ends).map (·.rhs)).length =
      ((equations k values ends).map Equation.row).length := by
    rw [List.length_map, List.length_map]
  have hs := Tridiagonal.solves_backward hsteps 0 hlen
  rw [zero_mul, sub_zero] at hs
  refine ⟨_, hvalues.trans hn, ?_, ?_, hs⟩
  · rw [hs.length_eq, List.length_map, length_equations hk, hn]
  · rw [hn]
    rfl

theorem outer_of_interpolate (hn : k.size = n + 2) (h : interpolate k values ends = .ok b) :
    b.getD 0 0 = values.getD 0 0 ∧ b.getD (n + 3) 0 = values.getD (n + 1) 0 := by
  obtain ⟨inner, -, hinner, rfl, -⟩ := solves_of_interpolate hn h
  refine ⟨rfl, ?_⟩
  rw [List.getD_cons_succ, List.getD_append_right _ _ _ _ hinner.le, hinner, Nat.sub_self,
    List.getD_cons_zero]

omit [IsStrictOrderedRing K] in
/-- The unknowns are the coefficients between the outer two; no equation has an entry for those. -/
theorem holds_iff {first last : K} {inner : List K} (hn : k.size = n + 2) (hinner : inner.length = n + 2)
    {i : Nat} {e : Equation K} (he : (equations k values ends)[i]? = some e) :
    e.Holds ((first :: (inner ++ [last])).getD i 0) ((first :: (inner ++ [last])).getD (i + 1) 0)
        ((first :: (inner ++ [last])).getD (i + 2) 0) ↔
      e.below * (0 :: inner).getD i 0 + e.diag * inner.getD i 0 + e.above * inner.getD (i + 1) 0 =
        e.rhs := by
  let b := first :: (inner ++ [last])
  have hlt : i < n + 2 := by
    obtain ⟨hi, -⟩ := List.getElem?_eq_some_iff.mp he
    rwa [length_equations (by omega), hn] at hi
  have hbelow : e.below * b.getD i 0 = e.below * (0 :: inner).getD i 0 := by
    cases i with
    | zero =>
      rw [equations_head] at he
      cases he
      rw [below_leftEquation, zero_mul, zero_mul]
    | succ i =>
      rw [List.getD_cons_succ, List.getD_cons_succ, List.getD_append _ _ _ _ (by omega)]
  have hdiag : b.getD (i + 1) 0 = inner.getD i 0 := by
    rw [List.getD_cons_succ, List.getD_append _ _ _ _ (by omega)]
  have habove : e.above * b.getD (i + 2) 0 = e.above * inner.getD (i + 1) 0 := by
    rcases Nat.lt_or_ge i (n + 1) with hi | hi
    · rw [List.getD_cons_succ, List.getD_append _ _ _ _ (by omega)]
    · obtain rfl : i = n + 1 := by omega
      rw [equations_last values ends hn] at he
      cases he
      rw [above_rightEquation, zero_mul, zero_mul]
  show e.below * b.getD i 0 + e.diag * b.getD (i + 1) 0 + e.above * b.getD (i + 2) 0 = e.rhs ↔ _
  rw [hbelow, hdiag, habove]

theorem holds_of_interpolate (hn : k.size = n + 2) (h : interpolate k values ends = .ok b) {i : Nat}
    {e : Equation K} (he : (equations k values ends)[i]? = some e) :
    e.Holds (b.getD i 0) (b.getD (i + 1) 0) (b.getD (i + 2) 0) := by
  obtain ⟨inner, -, hinner, rfl, hs⟩ := solves_of_interpolate hn h
  obtain ⟨hi, hget⟩ := List.getElem?_eq_some_iff.mp he
  have hrow := hs.row (i := i) (by simpa using hi)
  rw [holds_iff hn hinner he]
  simpa [Equation.row, hget, List.getD_eq_getElem?_getD, List.getElem?_map, he] using hrow

/-- Coefficients that satisfy all equations, the outer two being the outer values, are those that interpolation returns. -/
theorem eq_of_holds (hn : k.size = n + 2) (h : interpolate k values ends = .ok b) {coefs : List K}
    (hlen : coefs.length = n + 4) (hfirst : coefs.getD 0 0 = values.getD 0 0)
    (hlast : coefs.getD (n + 3) 0 = values.getD (n + 1) 0)
    (hrows : ∀ (i : Nat) (e : Equation K), (equations k values ends)[i]? = some e →
      e.Holds (coefs.getD i 0) (coefs.getD (i + 1) 0) (coefs.getD (i + 2) 0)) : b = coefs := by
  have hk : 2 ≤ k.size := by omega
  obtain ⟨-, steps, hsteps, rfl⟩ := (interpolate_eq_ok_iff hk).mp h
  obtain ⟨first, inner, last, rfl⟩ : ∃ first inner last, coefs = first :: (inner ++ [last]) := by
    match coefs, hlen with
    | first :: rest, hlen =>
      have hne : rest ≠ [] := List.ne_nil_of_length_pos (by simp at hlen; omega)
      exact ⟨first, rest.dropLast, rest.getLast hne, by rw [List.dropLast_append_getLast]⟩
  have hinner : inner.length = n + 2 := by
    simp at hlen
    omega
  have hsize := length_equations hk values ends
  have hs : Tridiagonal.Solves 0 ((equations k values ends).map Equation.row)
      ((equations k values ends).map (·.rhs)) inner := by
    apply Tridiagonal.solves_of_rows
    · rw [List.length_map, List.length_map]
    · rw [List.length_map, hsize, hn, hinner]
    · intro i hi
      rw [List.length_map] at hi
      have he := List.getElem?_eq_getElem hi
      have hrow := (holds_iff hn hinner he).mp (hrows i _ he)
      simpa [Equation.row, List.getD_eq_getElem?_getD, List.getElem?_map, he] using hrow
  have hsolution := Tridiagonal.eq_backward_of_solves hsteps hs (y := 0) (by rw [zero_mul, sub_zero])
  rw [List.getD_cons_succ, List.getD_append_right _ _ _ _ hinner.le, hinner, Nat.sub_self,
    List.getD_cons_zero] at hlast
  have hend : k.size - 1 = n + 1 := by omega
  rw [← hsolution, hend, ← hlast, ← hfirst]
  rfl

end Solution

/-! For the coefficients of a curve the equations state its derivatives at the ends and its values at the inner knots. -/

section Curve

variable {c : Curve K} (hk : c.knots.Increasing)

include hk

theorem leftEquation_holds_iff (e : EndCondition K) :
    (leftEquation c.knots (c.coef 0) e).Holds (c.coef 0) (c.coef 1) (c.coef 2) ↔
      e.HoldsAt c.knots.first (c.intervalPolynomial 0) := by
  obtain ⟨-, hslope, hcurv⟩ := Curve.intervalPolynomial_first hk
  cases e with
  | secondDerivative v =>
    rw [EndCondition.HoldsAt, Cubic.eval_derivative_derivative, hcurv]
    simp only [leftEquation, Equation.Holds, Scalar.exact_zero, Scalar.exact_ofNat]
    constructor <;> intro h <;> linear_combination h
  | firstDerivative v =>
    rw [EndCondition.HoldsAt, Cubic.eval_derivative, hslope, Knots.r]
    simp only [leftEquation, Equation.Holds, Scalar.exact_zero, Scalar.exact_ofNat]
    constructor <;> intro h <;> linear_combination h

theorem rightEquation_holds_iff {n : Nat} (hn : c.knots.size = n + 2) (e : EndCondition K) :
    (rightEquation c.knots (c.coef (n + 3)) e).Holds (c.coef (n + 1)) (c.coef (n + 2)) (c.coef (n + 3)) ↔
      e.HoldsAt c.knots.last (c.intervalPolynomial n) := by
  obtain ⟨-, hslope, hcurv⟩ := Curve.intervalPolynomial_last hk hn
  have h2 : ((c.knots.size : Nat) - 2 : Int) = n := by omega
  have h1 : ((c.knots.size : Nat) - 1 : Int) = n + 1 := by omega
  have h3 : ((c.knots.size : Nat) - 3 : Int) = n - 1 := by omega
  cases e with
  | secondDerivative v =>
    rw [EndCondition.HoldsAt, Cubic.eval_derivative_derivative, hcurv]
    simp only [rightEquation, Equation.Holds, Scalar.exact_zero, Scalar.exact_ofNat, h1, h2, h3]
    constructor <;> intro h <;> linear_combination h
  | firstDerivative v =>
    rw [EndCondition.HoldsAt, Cubic.eval_derivative, hslope, Knots.r]
    simp only [rightEquation, Equation.Holds, Scalar.exact_zero, Scalar.exact_ofNat, h2]
    constructor <;> intro h <;> linear_combination h

theorem innerEquation_holds_iff {i : Nat} (hi : i < c.knots.intervals) (value : K) :
    (innerEquation c.knots i value).Holds (c.coef i) (c.coef (i + 1)) (c.coef (i + 2)) ↔
      c.value (c.knots.u i) = value := by
  have h3 := (c.knots.window i).basis_three_joins.value
  rw [(Cubic.isLinear_value _).zero] at h3
  rw [Curve.value_u hk hi, Curve.linear_intervalPolynomial (Cubic.isLinear_value _),
    show c.knots.u i = (c.knots.window i).c from rfl, h3, zero_mul, add_zero]
  simp [innerEquation, Equation.Holds, Knots.basisValues_eq, List.range_succ,
    show c.knots.u i = (c.knots.window i).c from rfl]

end Curve

section Exact

variable {c : Curve K} {values : List K} {ends : EndConditions K} {n : Nat}
  (hk : c.knots.Increasing) (hn : c.knots.size = n + 2)
  (h : interpolate c.knots values ends = .ok c.coefs)

include hk hn h

theorem left_holds_of_interpolate : ends.left.HoldsAt c.knots.first (c.intervalPolynomial 0) := by
  have hrow := holds_of_interpolate hn h (equations_head c.knots values ends)
  rw [← (outer_of_interpolate hn h).1] at hrow
  simp only [← Curve.coef_eq] at hrow
  exact (leftEquation_holds_iff hk _).mp hrow

theorem right_holds_of_interpolate : ends.right.HoldsAt c.knots.last (c.intervalPolynomial n) := by
  have hrow := holds_of_interpolate hn h (equations_last values ends hn)
  rw [← (outer_of_interpolate hn h).2] at hrow
  simp only [← Curve.coef_eq] at hrow
  exact (rightEquation_holds_iff hk hn _).mp hrow

theorem value_of_interpolate {i : Nat} (hi : i < n + 2) :
    c.value (c.knots.u i) = values.getD i 0 := by
  obtain ⟨hleft, hright⟩ := outer_of_interpolate hn h
  have hintervals := Knots.intervals_eq hn
  rcases Nat.lt_or_ge i (n + 1) with hlt | hge
  · cases i with
    | zero =>
      rw [← hleft, ← Curve.coef_eq]
      exact Curve.value_first_eq_coef hk
    | succ i =>
      have hrow := holds_of_interpolate hn h (equations_inner values ends (i := i) (by omega))
      simp only [← Curve.coef_eq] at hrow
      exact (innerEquation_holds_iff hk (by omega) _).mp hrow
  · obtain rfl : i = n + 1 := by omega
    rw [← Knots.last_eq hn, ← hright, ← Curve.coef_eq]
    exact Curve.value_last_eq_coef hk hn

end Exact

/-- Whatever interpolation returns, the curve through it takes each value at its knot, and its first and last polynomials have the
prescribed derivatives at the ends. -/
theorem interpolate_exact {points values b : List K} {k : Knots K} {ends : EndConditions K}
    (hk : Knots.ofList points = .ok k) (h : interpolate k values ends = .ok b) :
    b.length = points.length + 2 ∧
      ∃ c, Curve.ofCoefs k b = .ok c ∧ points.map c.value = values ∧
        ends.left.HoldsAt k.first (c.intervalPolynomial 0) ∧
        ends.right.HoldsAt k.last (c.intervalPolynomial (points.length - 2)) := by
  obtain ⟨rfl, hinc⟩ := Knots.ofList_eq_ok_iff.mp hk
  obtain ⟨n, hn⟩ := Nat.exists_eq_add_of_le' hinc.two_le
  obtain ⟨hvalues, hb⟩ := length_of_interpolate hn h
  have hpoints : k.points.length = n + 2 := hn
  refine ⟨by omega, ⟨k, b⟩, if_pos (by omega), ?_, ?_, ?_⟩
  · apply List.ext_getElem
    · rw [List.length_map, hpoints, hvalues]
    · intro i hi hi'
      have hvalue := value_of_interpolate (c := ⟨k, b⟩) hinc hn h (i := i) (by omega)
      have hlt : i < k.points.length := by omega
      rw [Knots.u_natCast k hlt, List.getD_eq_getElem _ _ hi'] at hvalue
      rw [List.getElem_map, hvalue]
  · exact left_holds_of_interpolate (c := ⟨k, b⟩) hinc hn h
  · rw [hpoints]
    exact right_holds_of_interpolate (c := ⟨k, b⟩) hinc hn h

theorem interpolate_exact_at_mixed_ends :
    let k : Knots ℚ := ⟨[0, 1, 3]⟩
    let ends : EndConditions ℚ := ⟨.firstDerivative 1, .secondDerivative 3⟩
    let b : List ℚ := [2, 7 / 3, -293 / 66, -19 / 33, 4]
    Knots.ofList [0, 1, 3] = .ok k ∧ interpolate k [2, -1, 4] ends = .ok b ∧ b.length = 5 ∧
      ∃ c, Curve.ofCoefs k b = .ok c ∧ [0, 1, 3].map c.value = [2, -1, 4] ∧
        ends.left.HoldsAt k.first (c.intervalPolynomial 0) ∧
        ends.right.HoldsAt k.last (c.intervalPolynomial 1) := by
  intro k ends b
  have hk : Knots.ofList [0, 1, 3] = .ok k :=
    Knots.ofList_eq_ok_iff.mpr ⟨rfl, ⟨by decide, by decide⟩⟩
  have hb : interpolate k [2, -1, 4] ends = .ok b := by decide +kernel
  exact ⟨hk, hb, interpolate_exact hk hb⟩

end Spline
end LifetimeEfficiency
