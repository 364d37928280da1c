import LifetimeEfficiency.Banded.Pentadiagonal
import LifetimeEfficiency.Proofs.Banded.Tridiagonal
import Mathlib.Data.List.GetD
import Mathlib.Tactic.LinearCombination
/-!
# Pentadiagonal factors solve the system

The columns that elimination keeps are those of `L D Lᵀ` in exact arithmetic, and the three substitutions undo the three factors. Lists
are padded in front with the two columns and unknowns that precede them.
-/
namespace LifetimeEfficiency.Pentadiagonal

section Bands

variable {K : Type} [Scalar K]

omit [Scalar K] in
theorem ofBands_eq_ok_iff {diag first second : List K} {A : Pentadiagonal K} :
    ofBands diag first second = .ok A ↔
      A = ⟨diag, first, second⟩ ∧ diag ≠ [] ∧ first.length = diag.length - 1 ∧
        second.length = diag.length - 2 := by
  unfold ofBands Banded.checkBand
  cases diag with
  | nil => simp [bind, Except.bind, throw, throwThe, MonadExceptOf.throw]
  | cons d diag =>
    by_cases hfirst : first.length = diag.length
    · by_cases hsecond : second.length = diag.length - 1
      · simp [bind, Except.bind, pure, Except.pure, hfirst, hsecond, eq_comm]
      · simp [bind, Except.bind, hfirst, hsecond]
    · simp [bind, Except.bind, hfirst]

theorem length_forward {steps : List (Step K)} {bs : List K} (hlen : bs.length = steps.length)
    (a b c : K) : (forward a b c steps bs).length = steps.length := by
  induction steps generalizing bs a b c with
  | nil =>
    cases bs <;> rfl
  | cons s steps ih =>
    cases bs with
    | nil => simp at hlen
    | cons b' bs =>
      rw [forward, List.length_cons, ih (Nat.succ.inj hlen), List.length_cons]

theorem length_backward {steps : List (Step K)} {zs : List K} (hlen : zs.length = steps.length) :
    (backward steps zs).length = steps.length := by
  induction steps generalizing zs with
  | nil =>
    cases zs <;> rfl
  | cons s steps ih =>
    cases zs with
    | nil => simp at hlen
    | cons z zs =>
      have hrest := ih (Nat.succ.inj hlen)
      rw [backward, List.length_cons, ← hrest]
      match backward steps zs with
      | [] => rfl
      | [x] => rfl
      | x :: x' :: xs => rfl

theorem row_bands (A : Pentadiagonal K) (i : Nat) :
    (A.row i).diag = A.diag.getD i 0 ∧ (A.row i).first = A.first.getD i 0 ∧
      (A.row i).second = A.second.getD i 0 := by
  simp [row, entry]

theorem entry_comm (A : Pentadiagonal K) (i j : Nat) : A.entry i j = A.entry j i := by
  rw [entry, entry, min_comm, max_comm]

end Bands

variable {K : Type} [Field K] [LinearOrder K]

/-- A row is the product of the factors in three neighbouring columns. -/
structure Row.IsProduct (r : Row K) (s2 s1 s : Step K) : Prop where
  ne_zero : s.d ≠ 0
  diag : s.d + s1.l1 * s1.l1 * s1.d + s2.l2 * s2.l2 * s2.d = r.diag
  first : s.l1 * s.d + s1.l2 * s1.l1 * s1.d = r.first
  second : s.l2 * s.d = r.second

theorem eliminate_cons {r : Row K} {rows : List (Row K)} {s2 s1 : Step K} {i : Nat}
    {steps : List (Step K)} (h : eliminate i s2 s1 (r :: rows) = .ok steps) :
    ∃ s rest, r.IsProduct s2 s1 s ∧ eliminate (i + 1) s1 s rows = .ok rest ∧ steps = s :: rest := by
  rw [eliminate, bind_eq_ok_iff] at h
  obtain ⟨d, hd, h⟩ := h
  obtain ⟨rest, hrest, hsteps⟩ := bind_eq_ok_iff.mp h
  obtain ⟨hpivot, hne⟩ := Banded.checkPivot_eq_ok hd
  rw [← hpivot] at hne
  cases hsteps
  refine ⟨_, rest, ⟨hne, ?_, ?_, ?_⟩, hrest, rfl⟩
  · rw [hpivot]
    ring
  · rw [div_mul_cancel₀ _ hne, sub_add_cancel]
  · exact div_mul_cancel₀ _ hne

theorem isProduct_of_eliminate {rows : List (Row K)} {s2 s1 : Step K} {i : Nat}
    {steps : List (Step K)} (h : eliminate i s2 s1 rows = .ok steps) :
    steps.length = rows.length ∧ ∀ j (hj : j < rows.length),
      let s := fun j => (s2 :: s1 :: steps).getD j Step.zero
      rows[j].IsProduct (s j) (s (j + 1)) (s (j + 2)) := by
  induction rows generalizing i s2 s1 steps with
  | nil =>
    cases h
    exact ⟨rfl, fun j hj => absurd hj (Nat.not_lt_zero j)⟩
  | cons r rows ih =>
    obtain ⟨s, rest, hr, hrest, rfl⟩ := eliminate_cons h
    obtain ⟨hlen, hrows⟩ := ih hrest
    refine ⟨congrArg Nat.succ hlen, fun j hj => ?_⟩
    cases j with
    | zero => exact hr
    | succ j => exact hrows j (Nat.lt_of_succ_lt_succ hj)

/-- What forward substitution gives, with the products of the two rows above, is the right-hand side. -/
theorem forward_row {steps : List (Step K)} {bs : List K} (hlen : bs.length = steps.length)
    (s2 s1 : Step K) (y2 y1 : K) {i : Nat} (hi : i < steps.length) :
    let s := fun j => (s2 :: s1 :: steps).getD j Step.zero
    let y := fun j => (y2 :: y1 :: forward (s2.l2 * y2) (s1.l1 * y1) (s1.l2 * y1) steps bs).getD j 0
    y (i + 2) + (s (i + 1)).l1 * y (i + 1) + (s i).l2 * y i = bs.getD i 0 := by
  induction steps generalizing bs s2 s1 y2 y1 i with
  | nil => simp at hi
  | cons s steps ih =>
    cases bs with
    | nil => simp at hlen
    | cons b bs =>
      cases i with
      | zero =>
        show b - s1.l1 * y1 - s2.l2 * y2 + s1.l1 * y1 + s2.l2 * y2 = b
        ring
      | succ i =>
        exact ih (Nat.succ.inj hlen) s1 s y1 (b - s1.l1 * y1 - s2.l2 * y2) (Nat.lt_of_succ_lt_succ hi)

theorem backward_cons (s : Step K) (ss : List (Step K)) (z : K) (zs : List K) :
    backward (s :: ss) (z :: zs) =
      (z - s.l1 * (backward ss zs).getD 0 0 - s.l2 * (backward ss zs).getD 1 0) ::
        backward ss zs := by
  rw [backward]
  match backward ss zs with
  | [] => simp
  | [x] => simp
  | x :: x' :: xs => simp

theorem backward_row {steps : List (Step K)} {zs : List K} (hlen : zs.length = steps.length) {i : Nat}
    (hi : i < steps.length) :
    let s := steps.getD i Step.zero
    let x := fun j => (backward steps zs).getD j 0
    x i + s.l1 * x (i + 1) + s.l2 * x (i + 2) = zs.getD i 0 := by
  induction steps generalizing zs i with
  | nil => simp at hi
  | cons s steps ih =>
    cases zs with
    | nil => simp at hlen
    | cons z zs =>
      dsimp only
      rw [backward_cons]
      cases i with
      | zero =>
        simp only [List.getD_cons_zero, List.getD_cons_succ]
        ring
      | succ i => exact ih (Nat.succ.inj hlen) (Nat.lt_of_succ_lt_succ hi)

theorem row_eq (A : Pentadiagonal K) (i : Nat) :
    (A.row i).diag = A.diag.getD i 0 ∧ (A.row i).first = A.first.getD i 0 ∧
      (A.row i).second = A.second.getD i 0 := by
  simpa only [Scalar.exact_zero] using A.row_bands i

/-- A row times unknowns, of which two zeros are put before the first. -/
def times (A : Pentadiagonal K) (xs : List K) (i : Nat) : K :=
  let x := fun j => (0 :: 0 :: xs).getD j 0
  (0 :: 0 :: A.second).getD i 0 * x i + (0 :: A.first).getD i 0 * x (i + 1) +
    A.diag.getD i 0 * x (i + 2) + A.first.getD i 0 * x (i + 3) + A.second.getD i 0 * x (i + 4)

def scaled (c : Nat → Step K) (xs : List K) (j : Nat) : K :=
  let x := fun j => (0 :: 0 :: xs).getD j 0
  (c j).d * (x j + (c j).l1 * x (j + 1) + (c j).l2 * x (j + 2))

/-- Columns, behind two empty ones, that multiply out to the first `m` rows. -/
structure Factored (A : Pentadiagonal K) (m : Nat) (c : Nat → Step K) : Prop where
  zero : c 0 = Step.zero
  one : c 1 = Step.zero
  row : ∀ i < m, (A.row i).IsProduct (c i) (c (i + 1)) (c (i + 2))

namespace Factored

variable {A : Pentadiagonal K} {m : Nat} {c : Nat → Step K} (h : A.Factored m c)

include h

theorem mono {i : Nat} (hi : i ≤ m) : A.Factored i c :=
  ⟨h.zero, h.one, fun j hj => h.row j (hj.trans_le hi)⟩

theorem second_eq {j : Nat} (hj : j < m + 2) : (0 :: 0 :: A.second).getD j 0 = (c j).l2 * (c j).d := by
  match j, hj with
  | 0, _ => simp [h.zero, Step.zero]
  | 1, _ => simp [h.one, Step.zero]
  | i + 2, hi =>
    have hproduct := h.row i (Nat.lt_of_add_lt_add_right hi)
    exact (A.row_eq i).2.2.symm.trans hproduct.second.symm

theorem first_eq {j : Nat} (hj : j < m + 1) :
    (0 :: A.first).getD j 0 = (c (j + 1)).l1 * (c (j + 1)).d + (c j).l2 * (c j).l1 * (c j).d := by
  cases j with
  | zero => simp [h.zero, h.one, Step.zero]
  | succ i =>
    have hproduct := h.row i (Nat.lt_of_add_lt_add_right hj)
    exact (A.row_eq i).2.1.symm.trans hproduct.first.symm

theorem lower_eq (hdiag : (c (m + 2)).d + (c (m + 1)).l1 * (c (m + 1)).l1 * (c (m + 1)).d +
      (c m).l2 * (c m).l2 * (c m).d = (A.row m).diag) (x : Nat → K) :
    (0 :: 0 :: A.second).getD m 0 * x m + (0 :: A.first).getD m 0 * x (m + 1) + A.diag.getD m 0 * x (m + 2) =
      (c (m + 2)).d * x (m + 2) + (c (m + 1)).l1 * ((c (m + 1)).d * (x (m + 1) + (c (m + 1)).l1 * x (m + 2))) +
        (c m).l2 * ((c m).d * (x m + (c m).l1 * x (m + 1) + (c m).l2 * x (m + 2))) := by
  rw [h.second_eq (by omega), h.first_eq (by omega), ← (A.row_eq m).1, ← hdiag]
  ring

/-- `L` takes what a column gives to its row and the two rows below. -/
theorem times_eq {i : Nat} (hi : i < m) (xs : List K) :
    A.times xs i =
      scaled c xs (i + 2) + (c (i + 1)).l1 * scaled c xs (i + 1) + (c i).l2 * scaled c xs i := by
  have hproduct := h.row i hi
  have hlower := (h.mono hi.le).lower_eq hproduct.diag fun j => (0 :: 0 :: xs).getD j 0
  rw [times, hlower, ← (A.row_eq i).2.1, ← (A.row_eq i).2.2, ← hproduct.first, ← hproduct.second]
  simp only [scaled]
  ring

end Factored

theorem solve_eq_ok_iff {A : Pentadiagonal K} {rhs xs : List K} :
    A.solve rhs = .ok xs ↔
      rhs.length = A.dimension ∧
        ∃ steps, eliminate 0 Step.zero Step.zero A.rows = .ok steps ∧
          xs = backward steps (scaleDown steps (forward 0 0 0 steps rhs)) := by
  unfold solve Banded.checkRhs factor
  by_cases hlen : rhs.length = A.dimension
  · cases eliminate 0 Step.zero Step.zero A.rows with
    | error e => simp [bind, Except.bind, hlen]
    | ok steps => simp [bind, Except.bind, pure, Except.pure, hlen, eq_comm]
  · simp [bind, Except.bind, hlen]

section Solution

variable {A : Pentadiagonal K} {rhs xs : List K} {steps : List (Step K)}

def column (steps : List (Step K)) (j : Nat) : Step K :=
  (Step.zero :: Step.zero :: steps).getD j Step.zero

section Factors

variable (h : eliminate 0 Step.zero Step.zero A.rows = .ok steps)

include h

theorem length_steps : steps.length = A.dimension := by
  simpa [rows] using (isProduct_of_eliminate h).1

theorem factored : A.Factored A.dimension (column steps) where
  zero := rfl
  one := rfl
  row := by
    intro i hi
    have hlt : i < A.rows.length := by simpa [rows] using hi
    have hget : A.rows[i] = A.row i := by simp [rows]
    rw [← hget]
    exact (isProduct_of_eliminate h).2 i hlt

/-- The last two substitutions together: each intermediate value is its column of `D Lᵀ` times the unknowns. -/
theorem forward_eq (hlen : rhs.length = A.dimension) {j : Nat} (hj : j < A.dimension + 2) :
    let ys := forward 0 0 0 steps rhs
    scaled (column steps) (backward steps (scaleDown steps ys)) j = (0 :: 0 :: ys).getD j 0 := by
  intro ys
  have hsteps := length_steps h
  have hys : ys.length = steps.length := length_forward (hlen.trans hsteps.symm) 0 0 0
  have hzs : (scaleDown steps ys).length = steps.length := by simp [scaleDown, hys]
  match j, hj with
  | 0, _ => simp [scaled, column, Step.zero]
  | 1, _ => simp [scaled, column, Step.zero]
  | i + 2, hi =>
    have hlt : i < steps.length := by omega
    have hne : (steps.getD i Step.zero).d ≠ 0 :=
      ((factored h).row i (Nat.lt_of_add_lt_add_right hi)).ne_zero
    have hrow := backward_row hzs hlt
    have hz : (scaleDown steps ys).getD i 0 = ys.getD i 0 / (steps.getD i Step.zero).d := by
      rw [List.getD_eq_getElem _ _ (by omega), List.getD_eq_getElem _ _ (by omega),
        List.getD_eq_getElem _ _ hlt]
      simp [scaleDown]
    rw [hz] at hrow
    exact (congrArg ((steps.getD i Step.zero).d * ·) hrow).trans (mul_div_cancel₀ _ hne)

end Factors

theorem length_of_solve (h : A.solve rhs = .ok xs) : xs.length = A.dimension := by
  obtain ⟨hlen, steps, hsteps, rfl⟩ := solve_eq_ok_iff.mp h
  have hrows := length_steps hsteps
  have hforward := length_forward (hlen.trans hrows.symm) 0 0 0
  rw [length_backward, hrows]
  simp [scaleDown, hforward]

theorem row_of_solve (h : A.solve rhs = .ok xs) {i : Nat} (hi : i < A.dimension) :
    A.times xs i = rhs.getD i 0 := by
  obtain ⟨hlen, steps, hsteps, rfl⟩ := solve_eq_ok_iff.mp h
  have hlt : i < steps.length := (length_steps hsteps).symm ▸ hi
  have hrow : (0 :: 0 :: forward 0 0 0 steps rhs).getD (i + 2) 0 +
      (column steps (i + 1)).l1 * (0 :: 0 :: forward 0 0 0 steps rhs).getD (i + 1) 0 +
      (column steps i).l2 * (0 :: 0 :: forward 0 0 0 steps rhs).getD i 0 = rhs.getD i 0 := by
    have h := forward_row (hlen.trans (length_steps hsteps).symm) Step.zero Step.zero 0 0 hlt
    rwa [mul_zero, mul_zero] at h
  rw [(factored hsteps).times_eq hi, forward_eq hsteps hlen (by omega), forward_eq hsteps hlen (by omega),
    forward_eq hsteps hlen (by omega)]
  exact hrow

end Solution

end LifetimeEfficiency.Pentadiagonal
