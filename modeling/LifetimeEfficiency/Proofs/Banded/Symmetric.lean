import LifetimeEfficiency.Proofs.Banded.Pentadiagonal
import LifetimeEfficiency.Proofs.Banded.Solutions
/-!
# Symmetric tridiagonal systems

A symmetric tridiagonal matrix is a pentadiagonal one with an empty second band. The two eliminations then meet the same pivots, the
ratios of the one are the multipliers of the other, and their substitutions differ only in when they divide by a pivot.
-/
namespace LifetimeEfficiency

variable {K : Type} [Field K] [LinearOrder K]

namespace Tridiagonal

/-- The row as one of a pentadiagonal system. -/
def Row.upper (r : Row K) : Pentadiagonal.Row K := ⟨r.diag, r.above, 0, r.scale⟩

/-- What elimination keeps of a row, as a column of `L D Lᵀ`. -/
def Step.column (s : Step K) : Pentadiagonal.Step K := ⟨s.pivot, s.ratio, 0⟩

/-- Each entry below the diagonal is the one above it in the row before, which is `a` for the first row. -/
def Symmetric : K → List (Row K) → Prop
  | _, [] => True
  | a, r :: rs => r.below = a ∧ Symmetric r.above rs

/-- Row by row both eliminations test the same pivot, `a` being the product of the multiplier and the pivot before it. -/
theorem eliminate_upper {a : K} {rs : List (Row K)} (hrs : Symmetric a rs) (i : Nat)
    {s2 s1 : Pentadiagonal.Step K} (h2 : s2.l2 = 0) (h1 : s1.l2 = 0) (ha : s1.l1 * s1.d = a) :
    Pentadiagonal.eliminate i s2 s1 (rs.map Row.upper) =
      (eliminate i s1.l1 rs).map (List.map Step.column) := by
  induction rs generalizing a i s2 s1 with
  | nil => rfl
  | cons r rs ih =>
    obtain ⟨hbelow, hrest⟩ := hrs
    have hpivot : r.diag - s1.l1 * s1.l1 * s1.d - s2.l2 * s2.l2 * s2.d = r.diag - r.below * s1.l1 := by
      rw [hbelow, ← ha, h2]
      ring
    rw [List.map_cons, Pentadiagonal.eliminate, eliminate]
    simp only [Row.upper, hpivot]
    cases hcheck : Banded.checkPivot (r.diag - r.below * s1.l1) r.scale i with
    | error e => rfl
    | ok pivot =>
      have hne : pivot ≠ 0 := by
        obtain ⟨rfl, hne⟩ := Banded.checkPivot_eq_ok hcheck
        exact hne
      have hcolumn : (⟨pivot, (r.above - s1.l2 * s1.l1 * s1.d) / pivot, 0 / pivot⟩ :
          Pentadiagonal.Step K) = Step.column ⟨r.below, pivot, r.above / pivot⟩ := by
        simp [Step.column, h1]
      have hnext : Pentadiagonal.eliminate (i + 1) s1 (Step.column ⟨r.below, pivot, r.above / pivot⟩)
          (rs.map Row.upper) = (eliminate (i + 1) (r.above / pivot) rs).map (List.map Step.column) :=
        ih hrest (i + 1) h1 rfl (div_mul_cancel₀ _ hne)
      simp only [bind, Except.bind, hcolumn, hnext]
      cases eliminate (i + 1) (r.above / pivot) rs with
      | error e => rfl
      | ok steps => rfl

/-- Divided by its pivot, each value of the one forward substitution is that of the other. -/
theorem scaleDown_forward {a ratio : K} {rs : List (Row K)} (hrs : Symmetric a rs) {i : Nat}
    {steps : List (Step K)} (h : eliminate i ratio rs = .ok steps) (y : K) (bs : List K) :
    let columns := steps.map Step.column
    Pentadiagonal.scaleDown columns (Pentadiagonal.forward 0 (a * y) 0 columns bs) =
      forward y steps bs := by
  induction rs generalizing a ratio i steps y bs with
  | nil =>
    cases h
    rfl
  | cons r rs ih =>
    obtain ⟨hbelow, hrest⟩ := hrs
    obtain ⟨pivot, rest, -, hne, hnext, rfl⟩ := eliminate_cons h
    cases bs with
    | nil => rfl
    | cons b bs =>
      have hvalue : (b - a * y - 0) / pivot = (b - r.below * y) / pivot := by
        rw [hbelow, sub_zero]
      have hcarry : r.above / pivot * (b - a * y - 0) = r.above * ((b - r.below * y) / pivot) := by
        rw [hbelow, sub_zero, div_mul_eq_mul_div, mul_div_assoc]
      have htail := ih hrest hnext ((b - r.below * y) / pivot) bs
      rw [← hcarry] at htail
      simp only [List.map_cons, Step.column, Pentadiagonal.forward, Pentadiagonal.scaleDown,
        List.zipWith_cons_cons, forward, zero_mul]
      exact congrArg₂ List.cons hvalue htail

theorem backward_column (steps : List (Step K)) (zs : List K) :
    Pentadiagonal.backward (steps.map Step.column) zs = backward steps zs := by
  induction steps generalizing zs with
  | nil => rfl
  | cons s steps ih =>
    cases zs with
    | nil => rfl
    | cons z zs =>
      have hhead (xs : List K) : xs.getD 0 0 = xs.headD 0 := by
        cases xs <;> rfl
      rw [List.map_cons, Pentadiagonal.backward_cons, backward_cons, ih, hhead]
      simp [Step.column]

theorem symmetric_rows (off diag : List K) : Symmetric 0 (rows ⟨off, diag, off⟩) := by
  have hrows (a : K) : Symmetric a
      (List.zipWith (fun ab c => ⟨ab.1, ab.2, c⟩) ((a :: off).zip diag) (off ++ [0])) := by
    induction off generalizing a diag with
    | nil =>
      cases diag with
      | nil => trivial
      | cons d diag => exact ⟨rfl, trivial⟩
    | cons b off ih =>
      cases diag with
      | nil => trivial
      | cons d diag => exact ⟨rfl, ih diag b⟩
  rw [rows, Scalar.exact_zero]
  exact hrows 0

variable [IsStrictOrderedRing K]

theorem rows_upper {off diag : List K} {A : Tridiagonal K} (hA : ofBands off diag off = .ok A) :
    (⟨diag, off, List.replicate (diag.length - 2) 0⟩ : Pentadiagonal K).rows = A.rows.map Row.upper := by
  have hlen : A.rows.length = diag.length := by
    rw [length_rows hA]
    obtain ⟨rfl, -⟩ := ofBands_eq_ok_iff.mp hA
    rfl
  apply List.ext_getElem
  · simp [Pentadiagonal.rows, Pentadiagonal.dimension, hlen]
  · intro i hi hi'
    rw [List.getElem_map, getElem_rows hA]
    obtain ⟨rfl, -⟩ := ofBands_eq_ok_iff.mp hA
    cases i with
    | zero => simp [Pentadiagonal.rows, Pentadiagonal.row, Pentadiagonal.entry, Row.upper, Row.scale]
    | succ i =>
      cases i with
      | zero =>
        simp [Pentadiagonal.rows, Pentadiagonal.row, Pentadiagonal.entry, Row.upper, Row.scale,
          max_right_comm]
      | succ i =>
        simp [Pentadiagonal.rows, Pentadiagonal.row, Pentadiagonal.entry, Row.upper, Row.scale,
          max_right_comm, add_assoc]

theorem factor_upper {off diag : List K} {A : Tridiagonal K} (hA : ofBands off diag off = .ok A) :
    (⟨diag, off, List.replicate (diag.length - 2) 0⟩ : Pentadiagonal K).factor =
      A.factor.map (List.map Step.column) := by
  rw [Pentadiagonal.factor, rows_upper hA, factor, Scalar.exact_zero]
  obtain ⟨rfl, -⟩ := ofBands_eq_ok_iff.mp hA
  have hzero : (Pentadiagonal.Step.zero : Pentadiagonal.Step K) = ⟨0, 0, 0⟩ := by
    simp [Pentadiagonal.Step.zero]
  rw [hzero]
  exact eliminate_upper (symmetric_rows off diag) 0 rfl rfl (mul_zero 0)

/-- The two solvers agree on symmetric tridiagonal bands, whatever the right-hand side: they return the same solution or fail alike. -/
theorem solve_eq_of_symmetric {off diag : List K} (hlen : off.length + 1 = diag.length) :
    ∃ A B, ofBands off diag off = .ok A ∧
      Pentadiagonal.ofBands diag off (List.replicate (diag.length - 2) 0) = .ok B ∧
      ∀ rhs, A.solve rhs = B.solve rhs := by
  have hne : diag ≠ [] := List.ne_nil_of_length_pos (by omega)
  have hA : ofBands off diag off = .ok ⟨off, diag, off⟩ :=
    ofBands_eq_ok_iff.mpr ⟨rfl, hne, by omega, by omega⟩
  refine ⟨_, _, hA, Pentadiagonal.ofBands_eq_ok_iff.mpr ⟨rfl, hne, by omega, List.length_replicate⟩, ?_⟩
  intro rhs
  have hfactor := factor_upper hA
  rw [solve_eq_bind, Pentadiagonal.solve, hfactor]
  show (Banded.checkRhs rhs diag.length >>= _) = (Banded.checkRhs rhs diag.length >>= _)
  congr 1
  funext _
  cases hsteps : factor ⟨off, diag, off⟩ with
  | error e => rfl
  | ok steps =>
    rw [factor, Scalar.exact_zero] at hsteps
    have hvalues := scaleDown_forward (symmetric_rows off diag) hsteps 0 rhs
    rw [zero_mul] at hvalues
    show Except.ok _ = Except.ok _
    simp only [Scalar.exact_zero, backward_column, hvalues]

theorem solve_eq_of_symmetric_at_three_rows :
    let A : Tridiagonal ℚ := ⟨[1, -2], [4, 3, 5], [1, -2]⟩
    let B : Pentadiagonal ℚ := ⟨[4, 3, 5], [1, -2], [0]⟩
    let A' : Tridiagonal ℚ := ⟨[1, 1], [1, 1, 2], [1, 1]⟩
    let B' : Pentadiagonal ℚ := ⟨[1, 1, 2], [1, 1], [0]⟩
    ([1, -2] : List ℚ).length + 1 = ([4, 3, 5] : List ℚ).length ∧
      (∀ rhs, A.solve rhs = B.solve rhs) ∧ A.solve [5, 2, 3] = .ok [1, 1, 1] ∧
      (∀ rhs, A'.solve rhs = B'.solve rhs) ∧ B'.solve [1, 1, 1] = .error (.zeroPivot 1) := by
  intro A B A' B'
  have hlen : ([1, -2] : List ℚ).length + 1 = ([4, 3, 5] : List ℚ).length := rfl
  have hlen' : ([1, 1] : List ℚ).length + 1 = ([1, 1, 2] : List ℚ).length := rfl
  obtain ⟨_, _, hA, hB, hsame⟩ := solve_eq_of_symmetric hlen
  obtain ⟨_, _, hA', hB', hsame'⟩ := solve_eq_of_symmetric hlen'
  cases hA
  cases hB
  cases hA'
  cases hB'
  exact ⟨hlen, hsame, by decide +kernel, hsame', by decide +kernel⟩

end Tridiagonal
end LifetimeEfficiency
