import LifetimeEfficiency.Banded.Tridiagonal
import LifetimeEfficiency.Proofs.Exact
import LifetimeEfficiency.Proofs.Outcome
import Mathlib.Tactic.LinearCombination
/-!
# Tridiagonal elimination solves the system

The sweep over the rows can be taken apart: what it makes of the bands does not depend on the right-hand side. In exact arithmetic the
list that substitution gives satisfies every row of the system, and no other list does. Going down the rows, what elimination
keeps of the row above is that row's unknown in terms of the next one.
-/
namespace LifetimeEfficiency

/-! What holds whatever the numbers are: which bands are accepted, what a row leaves and how long the lists are. -/

theorem Banded.checkPivot_cases {K : Type} [Scalar K] (pivot rowScale : K) (row : Nat) :
    checkPivot pivot rowScale row = .ok pivot ∨
      checkPivot pivot rowScale row = .error (.zeroPivot row) := by
  unfold checkPivot
  split
  · exact .inr rfl
  · exact .inl rfl

namespace Tridiagonal

variable {K : Type} [Scalar K]

/-- What elimination keeps of a row; `ratio` is the entry above the diagonal over the pivot. -/
structure Step (K : Type) where
  below : K
  pivot : K
  ratio : K

/-- Eliminates the rows from number `i` on, `ratio` being left by the row before them. -/
def eliminate (i : Nat) (ratio : K) : List (Row K) → Except BandedError (List (Step K))
  | [] => .ok []
  | r :: rs => do
    let pivot ← Banded.checkPivot (r.diag - r.below * ratio) r.scale i
    let steps ← eliminate (i + 1) (r.above / pivot) rs
    return ⟨r.below, pivot, r.above / pivot⟩ :: steps

def forward (y : K) : List (Step K) → List K → List K
  | s :: ss, b :: bs =>
    let y' := (b - s.below * y) / s.pivot
    y' :: forward y' ss bs
  | _, _ => []

def backward : List (Step K) → List K → List K
  | s :: ss, y :: ys =>
    match backward ss ys with
    | [] => [y]
    | x :: xs => (y - s.ratio * x) :: x :: xs
  | _, _ => []

def factor (A : Tridiagonal K) : Except BandedError (List (Step K)) := eliminate 0 0 A.rows

omit [Scalar K] in
theorem ofBands_eq_ok_iff {sub diag sup : List K} {A : Tridiagonal K} :
    ofBands sub diag sup = .ok A ↔
      A = ⟨sub, diag, sup⟩ ∧ diag ≠ [] ∧ sub.length = diag.length - 1 ∧
        sup.length = diag.length - 1 := by
  unfold ofBands Banded.checkBand
  cases diag with
  | nil => simp [bind, Except.bind, throw, throwThe, MonadExceptOf.throw]
  | cons d diag =>
    by_cases hsub : sub.length = diag.length
    · by_cases hsup : sup.length = diag.length
      · simp [bind, Except.bind, pure, Except.pure, hsub, hsup, eq_comm]
      · simp [bind, Except.bind, hsub, hsup]
    · simp [bind, Except.bind, hsub]

theorem length_rows {sub diag sup : List K} {A : Tridiagonal K} (h : ofBands sub diag sup = .ok A) :
    A.rows.length = A.dimension := by
  obtain ⟨rfl, hne, hsub, hsup⟩ := ofBands_eq_ok_iff.mp h
  have hpos := List.length_pos_iff.mpr hne
  simp [rows, dimension]
  omega

/-- The rows hold the bands, with nothing below the first diagonal entry and nothing above the last. -/
theorem map_rows {sub diag sup : List K} {A : Tridiagonal K} (h : ofBands sub diag sup = .ok A) :
    A.rows.map (·.below) = 0 :: sub ∧ A.rows.map (·.diag) = diag ∧ A.rows.map (·.above) = sup ++ [0] := by
  have hlen := length_rows h
  obtain ⟨rfl, hne, hsub, hsup⟩ := ofBands_eq_ok_iff.mp h
  have hpos := List.length_pos_iff.mpr hne
  simp only [dimension] at hlen
  refine ⟨?_, ?_, ?_⟩
  · apply List.ext_getElem
    · rw [List.length_map, hlen, List.length_cons]
      omega
    · intro i hi hi'
      simp [rows]
  · apply List.ext_getElem
    · rw [List.length_map, hlen]
    · intro i hi hi'
      simp [rows]
  · apply List.ext_getElem
    · rw [List.length_map, hlen, List.length_append, List.length_singleton]
      omega
    · intro i hi hi'
      simp [rows]

theorem eliminate_cons_eq_ok_iff {i : Nat} {ratio : K} {r : Row K} {rs : List (Row K)}
    {steps : List (Step K)} : eliminate i ratio (r :: rs) = .ok steps ↔
      let pivot := r.diag - r.below * ratio
      Banded.checkPivot pivot r.scale i = .ok pivot ∧
        ∃ rest, eliminate (i + 1) (r.above / pivot) rs = .ok rest ∧
          steps = ⟨r.below, pivot, r.above / pivot⟩ :: rest := by
  rw [eliminate]
  dsimp only
  generalize r.diag - r.below * ratio = pivot
  rcases Banded.checkPivot_cases pivot r.scale i with hpivot | hpivot
  · rw [hpivot]
    constructor
    · intro h
      obtain ⟨_, hp, h⟩ := bind_eq_ok_iff.mp h
      obtain ⟨rest, hrest, hsteps⟩ := bind_eq_ok_iff.mp h
      cases hp
      cases hsteps
      exact ⟨rfl, rest, hrest, rfl⟩
    · rintro ⟨-, rest, hrest, rfl⟩
      exact bind_eq_ok_iff.mpr ⟨_, rfl, bind_eq_ok_iff.mpr ⟨rest, hrest, rfl⟩⟩
  · rw [hpivot]
    simp [bind_eq_ok_iff]

/-- The right-hand side goes along with the elimination without a part in it. -/
theorem sweep_eq_map {i : Nat} {ratio y : K} {rs : List (Row K)} {bs : List K} (hlen : rs.length ≤ bs.length) :
    sweep i ratio y rs bs = (eliminate i ratio rs).map fun steps => (steps.map (·.ratio)).zip (forward y steps bs) := by
  induction rs generalizing i ratio y bs with
  | nil => rfl
  | cons r rs ih =>
    cases bs with
    | nil => exact absurd hlen (Nat.not_succ_le_zero _)
    | cons b bs =>
      rw [sweep, eliminate]
      dsimp only
      cases Banded.checkPivot (r.diag - r.below * ratio) r.scale i with
      | error e => rfl
      | ok pivot =>
        dsimp only [bind, Except.bind]
        rw [ih (Nat.le_of_succ_le_succ hlen)]
        cases eliminate (i + 1) (r.above / pivot) rs <;> rfl

theorem substitute_zip (steps : List (Step K)) (ys : List K) :
    substitute ((steps.map (·.ratio)).zip ys) = backward steps ys := by
  induction steps generalizing ys with
  | nil => rfl
  | cons s steps ih =>
    cases ys with
    | nil => rfl
    | cons y ys =>
      rw [List.map_cons, List.zip_cons_cons, substitute, ih]
      cases hrest : backward steps ys <;> simp only [backward, hrest]

theorem length_rows_le (A : Tridiagonal K) : A.rows.length ≤ A.dimension := by
  simp only [rows, List.length_zipWith, List.length_zip, dimension]
  omega

/-- One sweep is an elimination of the bands and then a pass over the right-hand side. -/
theorem solve_eq_bind (A : Tridiagonal K) (rhs : List K) : A.solve rhs = (do
    Banded.checkRhs rhs A.dimension
    let steps ← A.factor
    return backward steps (forward 0 steps rhs)) := by
  rw [solve, Banded.checkRhs]
  by_cases hlen : rhs.length = A.dimension
  · have hrows : A.rows.length ≤ rhs.length := hlen ▸ A.length_rows_le
    rw [if_pos hlen, factor, sweep_eq_map hrows]
    cases eliminate 0 0 A.rows with
    | error e => rfl
    | ok steps => exact congrArg Except.ok (substitute_zip _ _)
  · rw [if_neg hlen]
    rfl

theorem solve_eq_ok_iff {A : Tridiagonal K} {rhs xs : List K} :
    A.solve rhs = .ok xs ↔
      rhs.length = A.dimension ∧
        ∃ steps, A.factor = .ok steps ∧ xs = backward steps (forward 0 steps rhs) := by
  rw [solve_eq_bind, Banded.checkRhs]
  by_cases hlen : rhs.length = A.dimension
  · cases A.factor with
    | error e => simp [bind, Except.bind, hlen]
    | ok steps => simp [bind, Except.bind, pure, Except.pure, hlen, eq_comm]
  · simp [bind, Except.bind, hlen]

theorem solve_eq_map {A : Tridiagonal K} {rhs : List K} (hlen : rhs.length = A.dimension) :
    A.solve rhs = A.factor.map fun steps => backward steps (forward 0 steps rhs) := by
  rw [solve_eq_bind, Banded.checkRhs, if_pos hlen]
  cases A.factor with
  | error e => rfl
  | ok steps => rfl

theorem length_of_eliminate {i : Nat} {ratio : K} {rs : List (Row K)} {steps : List (Step K)}
    (h : eliminate i ratio rs = .ok steps) : steps.length = rs.length := by
  induction rs generalizing i ratio steps with
  | nil =>
    cases h
    rfl
  | cons r rs ih =>
    obtain ⟨-, rest, hrest, rfl⟩ := eliminate_cons_eq_ok_iff.mp h
    rw [List.length_cons, List.length_cons, ih hrest]

theorem length_forward {steps : List (Step K)} {bs : List K} (hlen : bs.length = steps.length) (y : K) :
    (forward y steps bs).length = steps.length := by
  induction steps generalizing bs y with
  | nil => rfl
  | cons s steps ih =>
    cases bs with
    | nil => simp at hlen
    | cons b bs => rw [forward, List.length_cons, ih (Nat.succ.inj hlen), List.length_cons]

theorem length_backward {steps : List (Step K)} {ys : List K} (hlen : ys.length = steps.length) :
    (backward steps ys).length = steps.length := by
  induction steps generalizing ys with
  | nil => rfl
  | cons s steps ih =>
    cases ys with
    | nil => simp at hlen
    | cons y ys =>
      have hrest := ih (Nat.succ.inj hlen)
      rw [backward]
      cases hback : backward steps ys with
      | nil =>
        rw [hback] at hrest
        exact congrArg Nat.succ hrest
      | cons x xs =>
        rw [hback] at hrest
        exact congrArg Nat.succ hrest

theorem length_of_solve {sub diag sup : List K} {A : Tridiagonal K} {rhs xs : List K}
    (hA : ofBands sub diag sup = .ok A) (h : A.solve rhs = .ok xs) : xs.length = diag.length := by
  obtain ⟨hlen, steps, hsteps, rfl⟩ := solve_eq_ok_iff.mp h
  have hcount : steps.length = A.dimension := (length_of_eliminate hsteps).trans (length_rows hA)
  have hforward := length_forward (hlen.trans hcount.symm) 0
  rw [length_backward hforward, hcount]
  obtain ⟨rfl, -⟩ := ofBands_eq_ok_iff.mp hA
  rfl

end Tridiagonal

/-! From here on the numbers are exact. -/

variable {K : Type} [Field K] [LinearOrder K]

theorem Banded.checkPivot_eq_ok {pivot rowScale q : K} {row : Nat}
    (h : Banded.checkPivot pivot rowScale row = .ok q) : q = pivot ∧ pivot ≠ 0 := by
  unfold Banded.checkPivot at h
  split at h
  · cases h
  · rename_i hc
    cases h
    refine ⟨rfl, ?_⟩
    intro hz
    simp [hz] at hc

namespace Tridiagonal

/-- The unknowns `xs` satisfy the rows, `x` being the unknown before the first of them. -/
def Solves : K → List (Row K) → List K → List K → Prop
  | x, r :: rs, b :: bs, y :: ys =>
    r.below * x + r.diag * y + r.above * ys.headD 0 = b ∧ Solves y rs bs ys
  | _, [], [], [] => True
  | _, _, _, _ => False

theorem eliminate_cons {i : Nat} {ratio : K} {r : Row K} {rs : List (Row K)} {steps : List (Step K)}
    (h : eliminate i ratio (r :: rs) = .ok steps) :
    ∃ pivot rest, pivot = r.diag - r.below * ratio ∧ pivot ≠ 0 ∧
      eliminate (i + 1) (r.above / pivot) rs = .ok rest ∧
      steps = ⟨r.below, pivot, r.above / pivot⟩ :: rest := by
  obtain ⟨hpivot, rest, hrest, hsteps⟩ := eliminate_cons_eq_ok_iff.mp h
  exact ⟨_, rest, rfl, (Banded.checkPivot_eq_ok hpivot).2, hrest, hsteps⟩

theorem backward_cons (s : Step K) (ss : List (Step K)) (y : K) (ys : List K) :
    backward (s :: ss) (y :: ys) =
      (y - s.ratio * (backward ss ys).headD 0) :: backward ss ys := by
  rw [backward]
  cases backward ss ys with
  | nil => simp
  | cons x xs => rfl

theorem solves_backward {rs : List (Row K)} {steps : List (Step K)} {i : Nat} {ratio : K}
    (h : eliminate i ratio rs = .ok steps) (y : K) {bs : List K} (hlen : bs.length = rs.length) :
    Solves (y - ratio * (backward steps (forward y steps bs)).headD 0) rs bs
      (backward steps (forward y steps bs)) := by
  induction rs generalizing i ratio steps y bs with
  | nil =>
    cases h
    have hb : bs = [] := List.length_eq_zero_iff.mp hlen
    subst hb
    simp [backward, Solves]
  | cons r rs ih =>
    cases bs with
    | nil => simp at hlen
    | cons b bs =>
      obtain ⟨pivot, rest, hp, hne, hrest, rfl⟩ := eliminate_cons h
      have htail := ih hrest ((b - r.below * y) / pivot) (by simpa using hlen)
      rw [forward, backward_cons]
      refine ⟨?_, htail⟩
      have hdiag : r.diag = pivot + r.below * ratio := by
        rw [hp]
        ring
      rw [hdiag, List.headD_cons]
      field_simp
      ring

theorem eq_backward_of_solves {rs : List (Row K)} {steps : List (Step K)} {i : Nat} {ratio : K}
    (h : eliminate i ratio rs = .ok steps) {x y : K} {bs ys : List K} (hs : Solves x rs bs ys)
    (hx : x = y - ratio * ys.headD 0) : ys = backward steps (forward y steps bs) := by
  -- There is no other solution, because no pivot is zero: the unknown before the rows being what elimination left
  -- of it, the others follow from the last one up.
  induction rs generalizing i ratio steps x y bs ys with
  | nil =>
    match bs, ys, hs with
    | [], [], _ =>
      cases h
      rfl
  | cons r rs ih =>
    match bs, ys, hs with
    | b :: bs, y' :: ys, hs =>
      obtain ⟨pivot, rest, hp, hne, hrest, rfl⟩ := eliminate_cons h
      obtain ⟨hrow, htail⟩ := hs
      rw [hx, List.headD_cons] at hrow
      have hy : y' = (b - r.below * y) / pivot - r.above / pivot * ys.headD 0 := by
        have hdiag : r.diag = pivot + r.below * ratio := by
          rw [hp]
          ring
        rw [hdiag] at hrow
        field_simp
        linear_combination hrow
      have hrec := ih hrest htail hy
      rw [forward, backward_cons, ← hrec]
      exact congrArg (· :: ys) hy

omit [LinearOrder K] in
theorem Solves.length_eq {x : K} {rs : List (Row K)} {bs ys : List K} (h : Solves x rs bs ys) :
    ys.length = rs.length := by
  induction rs generalizing x bs ys with
  | nil =>
    match bs, ys, h with
    | [], [], _ => rfl
  | cons r rs ih =>
    match bs, ys, h with
    | b :: bs, y :: ys, h => simp [ih h.2]

omit [LinearOrder K] in
theorem Solves.row {x : K} {rs : List (Row K)} {bs ys : List K} (h : Solves x rs bs ys) {i : Nat}
    (hi : i < rs.length) :
    rs[i].below * (x :: ys).getD i 0 + rs[i].diag * ys.getD i 0 + rs[i].above * ys.getD (i + 1) 0 =
      bs.getD i 0 := by
  induction rs generalizing x bs ys i with
  | nil => simp at hi
  | cons r rs ih =>
    match bs, ys, h with
    | b :: bs, y :: ys, h =>
      cases i with
      | zero =>
        have hhead : ys.headD 0 = ys.getD 0 0 := by
          cases ys <;> rfl
        have hrow := h.1
        rw [hhead] at hrow
        simpa using hrow
      | succ i => simpa using ih h.2 (Nat.lt_of_succ_lt_succ hi)

omit [LinearOrder K] in
theorem solves_of_rows {x : K} {rs : List (Row K)} {bs ys : List K} (hb : bs.length = rs.length)
    (hy : ys.length = rs.length)
    (h : ∀ i (hi : i < rs.length), rs[i].below * (x :: ys).getD i 0 + rs[i].diag * ys.getD i 0 +
      rs[i].above * ys.getD (i + 1) 0 = bs.getD i 0) : Solves x rs bs ys := by
  induction rs generalizing x bs ys with
  | nil =>
    match bs, ys, hb, hy with
    | [], [], _, _ => trivial
  | cons r rs ih =>
    match bs, ys, hb, hy with
    | b :: bs, y :: ys, hb, hy =>
      constructor
      · have hhead : ys.headD 0 = ys.getD 0 0 := by
          cases ys <;> rfl
        rw [hhead]
        exact h 0 (Nat.succ_pos _)
      · apply ih (Nat.succ.inj hb) (Nat.succ.inj hy)
        intro i hi
        exact h (i + 1) (Nat.succ_lt_succ hi)

theorem solves_of_solve {sub diag sup : List K} {A : Tridiagonal K} {rhs xs : List K}
    (hA : ofBands sub diag sup = .ok A) (h : A.solve rhs = .ok xs) : Solves 0 A.rows rhs xs := by
  obtain ⟨hlen, steps, hsteps, rfl⟩ := solve_eq_ok_iff.mp h
  have hs := solves_backward hsteps 0 (hlen.trans (length_rows hA).symm)
  simpa using hs

end Tridiagonal
end LifetimeEfficiency
