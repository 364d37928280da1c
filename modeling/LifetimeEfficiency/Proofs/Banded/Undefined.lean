import LifetimeEfficiency.Proofs.Banded.Columns
import LifetimeEfficiency.Proofs.Undefined
import Mathlib.Algebra.Order.Ring.Rat
/-!
# Undefined numbers in banded systems

An undefined number in a band reaches a pivot one or two rows below it, where it is refused, so what is solved has numbers in all bands. A
right-hand side is not looked at: from one that is undefined on, forward substitution gives nothing else, and the substitution back
up carries this to every unknown.
-/
namespace LifetimeEfficiency

open Undefinable (undefined number)

variable {K : Type} [Field K] [LinearOrder K]

namespace Banded

theorem ne_of_checkPivot {pivot rowScale q : Undefinable K} {row : Nat}
    (h : checkPivot pivot rowScale row = .ok q) : pivot ≠ undefined ∧ pivot ≠ 0 := by
  constructor
  · rintro rfl
    simp [checkPivot, Undefinable.isFinite_undefined] at h
  · rintro rfl
    simp [checkPivot, Undefinable.beq_zero] at h

end Banded

namespace Tridiagonal

structure Row.Defined (r : Row (Undefinable K)) : Prop where
  below : r.below ≠ undefined
  diag : r.diag ≠ undefined
  above : r.above ≠ undefined

structure Step.Defined (s : Step (Undefinable K)) : Prop where
  below : s.below ≠ undefined
  pivot : s.pivot ≠ undefined
  ratio : s.ratio ≠ undefined
  ne_zero : s.pivot ≠ 0

theorem defined_of_eliminate {i : Nat} {ratio : Undefinable K} {rs : List (Row (Undefinable K))}
    {steps : List (Step (Undefinable K))} (h : eliminate i ratio rs = .ok steps)
    (hlast : ∀ r ∈ rs.getLast?, r.above ≠ undefined) :
    (rs ≠ [] → ratio ≠ undefined) ∧ (∀ r ∈ rs, r.Defined) ∧ ∀ s ∈ steps, s.Defined := by
  -- The entry above the diagonal goes into the next pivot. Only in the last row it does not.
  induction rs generalizing i ratio steps with
  | nil =>
    cases h
    simp
  | cons r rs ih =>
    obtain ⟨hcheck, rest, hrest, rfl⟩ := eliminate_cons_eq_ok_iff.mp h
    obtain ⟨hpivot, hzero⟩ := Banded.ne_of_checkPivot hcheck
    have hparts : r.diag ≠ undefined ∧ r.below ≠ undefined ∧ ratio ≠ undefined := by
      simpa [not_or] using hpivot
    obtain ⟨hnext, hrows, hsteps⟩ := ih hrest (by
      intro r' hr'
      apply hlast
      cases rs with
      | nil => cases hr'
      | cons q rs => rwa [List.getLast?_cons_cons])
    have habove : r.above ≠ undefined := by
      cases rs with
      | nil => exact hlast r rfl
      | cons q rs =>
        intro habove
        exact hnext (List.cons_ne_nil q rs) (by simp [habove])
    refine ⟨fun _ => hparts.2.2, List.forall_mem_cons.mpr ⟨⟨hparts.2.1, hparts.1, habove⟩, hrows⟩,
      List.forall_mem_cons.mpr ⟨⟨hparts.2.1, hpivot, ?_, hzero⟩, hsteps⟩⟩
    simp [habove, hparts, hzero]

/-- Every unknown depends on all right-hand sides: those above it through forward substitution, the others through the unknowns below. -/
theorem eq_undefined_iff {steps : List (Step (Undefinable K))} (hsteps : ∀ s ∈ steps, s.Defined)
    {bs : List (Undefinable K)} (hlen : bs.length = steps.length) (y : Undefinable K) :
    ∀ x ∈ backward steps (forward y steps bs), x = undefined ↔ y = undefined ∨ undefined ∈ bs := by
  induction steps generalizing bs y with
  | nil => simp [backward]
  | cons s steps ih =>
    cases bs with
    | nil => simp at hlen
    | cons b bs =>
      obtain ⟨⟨hbelow, hpivot, hratio, hzero⟩, hrest⟩ := List.forall_mem_cons.mp hsteps
      rw [forward]
      generalize hvalue : (b - s.below * y) / s.pivot = y'
      have hy' : y' = undefined ↔ b = undefined ∨ y = undefined := by
        simp [← hvalue, hbelow, hpivot, hzero]
      have hall : y = undefined ∨ undefined ∈ b :: bs ↔ y' = undefined ∨ undefined ∈ bs := by
        rw [hy', List.mem_cons, eq_comm (a := undefined)]
        tauto
      have htail := ih hrest (Nat.succ.inj hlen) y'
      have hcount := length_backward (length_forward (Nat.succ.inj hlen) y')
      rw [hall, backward]
      cases hback : backward steps (forward y' steps bs) with
      | nil =>
        rw [hback, ← Nat.succ.inj hlen] at hcount
        obtain rfl := List.length_eq_zero_iff.mp hcount.symm
        simp
      | cons x xs =>
        rw [hback] at htail
        have hx := htail x (List.mem_cons_self ..)
        refine List.forall_mem_cons.mpr ⟨?_, htail⟩
        simp [hratio, hx]

/-- What is solved has numbers in all bands, and unknowns that are all undefined or none. -/
theorem defined_of_solve {sub diag sup rhs xs : List (Undefinable K)} {A : Tridiagonal (Undefinable K)}
    (hA : ofBands sub diag sup = .ok A) (h : A.solve rhs = .ok xs) :
    undefined ∉ sub ++ diag ++ sup ∧ ∀ x ∈ xs, x = undefined ↔ undefined ∈ rhs := by
  obtain ⟨hlen, steps, hsteps, rfl⟩ := solve_eq_ok_iff.mp h
  have hcount := (length_of_eliminate hsteps).trans (length_rows hA)
  obtain ⟨hbelow, hdiag, habove⟩ := map_rows hA
  obtain ⟨-, hrows, hdefined⟩ := defined_of_eliminate hsteps (by
    intro r hr
    have hlast := congrArg List.getLast? habove
    rw [List.getLast?_map, Option.mem_def.mp hr, List.getLast?_concat] at hlast
    have hzero : r.above = 0 := Option.some.inj hlast
    rw [hzero]
    exact Undefinable.zero_ne_undefined)
  have hnone {f : Row (Undefinable K) → Undefinable K} (hf : ∀ r ∈ A.rows, f r ≠ undefined) :
      undefined ∉ A.rows.map f := by
    intro hmem
    obtain ⟨r, hr, he⟩ := List.mem_map.mp hmem
    exact hf r hr he
  constructor
  · rw [List.mem_append, List.mem_append]
    rintro ((hmem | hmem) | hmem)
    · exact hnone (fun r hr => (hrows r hr).below) (hbelow.symm ▸ List.mem_cons_of_mem 0 hmem)
    · exact hnone (fun r hr => (hrows r hr).diag) (hdiag.symm ▸ hmem)
    · exact hnone (fun r hr => (hrows r hr).above) (habove.symm ▸ List.mem_append_left [0] hmem)
  · intro x hx
    rw [eq_undefined_iff hdefined (hlen.trans hcount.symm) 0 x hx]
    simp

end Tridiagonal
namespace Pentadiagonal

structure Step.Defined (s : Step (Undefinable K)) : Prop where
  d : s.d ≠ undefined
  l1 : s.l1 ≠ undefined
  l2 : s.l2 ≠ undefined

structure Row.Defined (r : Row (Undefinable K)) : Prop where
  diag : r.diag ≠ undefined
  first : r.first ≠ undefined
  second : r.second ≠ undefined

theorem defined_zero : (Step.zero : Step (Undefinable K)).Defined := by
  constructor <;> simp [Step.zero]

section Columns

variable {A : Pentadiagonal (Undefinable K)} (haccepts : ∀ i < A.dimension, A.Accepts i)

include haccepts

theorem defined_of_accepts {i : Nat} (hi : i < A.dimension) :
    (A.row i).diag ≠ undefined ∧ (A.padded (i + 1)).l1 ≠ undefined ∧ (A.padded i).l2 ≠ undefined ∧
      A.pivot i ≠ undefined ∧ A.pivot i ≠ 0 := by
  obtain ⟨hpivot, hzero⟩ := Banded.ne_of_checkPivot (haccepts i hi)
  have hparts := hpivot
  simp only [pivot, step_eq, Row.column] at hparts
  simp only [ne_eq, Undefinable.sub_eq_undefined_iff, Undefinable.mul_eq_undefined_iff, not_or] at hparts
  obtain ⟨⟨hdiag, ⟨hl1, -⟩, -⟩, ⟨hl2, -⟩, -⟩ := hparts
  exact ⟨hdiag, hl1, hl2, hpivot, hzero⟩

theorem defined_row {i : Nat} (hi : i < A.dimension) (hfirst : A.first.length = A.dimension - 1)
    (hsecond : A.second.length = A.dimension - 2) : (A.row i).Defined := by
  -- The entries of a row beside the diagonal are met in the pivots of the next row and the next but one, where
  -- there are such rows.
  obtain ⟨hdiag, -⟩ := defined_of_accepts haccepts hi
  obtain ⟨-, hfirstEq, hsecondEq⟩ := A.row_bands i
  refine ⟨hdiag, ?_, ?_⟩
  · rcases Nat.lt_or_ge (i + 1) A.dimension with hlt | hge
    · obtain ⟨-, hl1, -⟩ := defined_of_accepts haccepts hlt
      intro hundefined
      simp [padded, Row.column, hundefined] at hl1
    · rw [hfirstEq, List.getD_eq_default _ _ (by omega)]
      exact Undefinable.zero_ne_undefined
  · rcases Nat.lt_or_ge (i + 2) A.dimension with hlt | hge
    · obtain ⟨-, -, hl2, -⟩ := defined_of_accepts haccepts hlt
      intro hundefined
      simp [padded, Row.column, hundefined] at hl2
    · rw [hsecondEq, List.getD_eq_default _ _ (by omega)]
      exact Undefinable.zero_ne_undefined

theorem defined_padded (hrows : ∀ i < A.dimension, (A.row i).Defined) {i : Nat} (hi : i < A.dimension + 2) :
    (A.padded i).Defined := by
  induction i using Nat.strong_induction_on with
  | _ i ih =>
    match i, hi with
    | 0, _ => exact defined_zero
    | 1, _ => exact defined_zero
    | i + 2, hi =>
      have hlt : i < A.dimension := by omega
      obtain ⟨-, hfirst, hsecond⟩ := hrows i hlt
      obtain ⟨-, -, -, hpivot, hzero⟩ := defined_of_accepts haccepts hlt
      obtain ⟨hd, hl1, hl2⟩ := ih (i + 1) (by omega) (by omega)
      have hcolumn : A.padded (i + 2) = ⟨A.pivot i,
        ((A.row i).first - (A.padded (i + 1)).l2 * (A.padded (i + 1)).l1 * (A.padded (i + 1)).d) / A.pivot i,
        (A.row i).second / A.pivot i⟩ := rfl
      rw [hcolumn]
      refine ⟨hpivot, ?_, ?_⟩
      · simp [hfirst, hd, hl1, hl2, hpivot, hzero]
      · simp [hsecond, hpivot, hzero]

end Columns

theorem eq_undefined_iff_backward {p : Prop} {s : Step (Undefinable K)} (hs : s.Defined)
    {steps : List (Step (Undefinable K))} {z : Undefinable K} {zs : List (Undefinable K)}
    (hbelow : ∀ x ∈ backward steps zs, x = undefined ↔ p) (hz : z = undefined → p)
    (hlast : backward steps zs = [] → (z = undefined ↔ p)) :
    ∀ x ∈ backward (s :: steps) (z :: zs), x = undefined ↔ p := by
  obtain ⟨-, hl1, hl2⟩ := hs
  rw [backward]
  revert hbelow hlast
  cases backward steps zs with
  | nil =>
    intro _ hlast
    simpa using hlast rfl
  | cons x xs =>
    intro hbelow _
    have hx := hbelow x (List.mem_cons_self ..)
    cases xs with
    | nil =>
      refine List.forall_mem_cons.mpr ⟨?_, hbelow⟩
      simp only [Undefinable.sub_eq_undefined_iff, Undefinable.mul_eq_undefined_iff, hl1, hx]
      tauto
    | cons x' xs =>
      have hx' := hbelow x' (List.mem_cons_of_mem x (List.mem_cons_self ..))
      refine List.forall_mem_cons.mpr ⟨?_, hbelow⟩
      simp only [Undefinable.sub_eq_undefined_iff, Undefinable.mul_eq_undefined_iff, hl1, hl2, hx, hx']
      tauto

theorem eq_undefined_iff {steps : List (Step (Undefinable K))} (hsteps : ∀ s ∈ steps, s.Defined ∧ s.d ≠ 0)
    {bs : List (Undefinable K)} (hlen : bs.length = steps.length) {l2y l1y l2y' : Undefinable K}
    (h : l2y = undefined → l1y = undefined) (h' : l2y' = undefined → l1y = undefined) :
    ∀ x ∈ backward steps (scaleDown steps (forward l2y l1y l2y' steps bs)),
      x = undefined ↔ l1y = undefined ∨ undefined ∈ bs := by
  induction steps generalizing bs l2y l1y l2y' with
  | nil => simp [backward]
  | cons s steps ih =>
    cases bs with
    | nil => simp at hlen
    | cons b bs =>
      obtain ⟨⟨hs, hzero⟩, hrest⟩ := List.forall_mem_cons.mp hsteps
      have hcount := Nat.succ.inj hlen
      rw [forward]
      generalize hvalue : b - l1y - l2y = y
      have hy : y = undefined ↔ b = undefined ∨ l1y = undefined := by
        rw [← hvalue]
        simp only [Undefinable.sub_eq_undefined_iff]
        tauto
      have hall : l1y = undefined ∨ undefined ∈ b :: bs ↔ y = undefined ∨ undefined ∈ bs := by
        rw [hy, List.mem_cons, eq_comm (a := undefined)]
        tauto
      have hl1 : s.l1 * y = undefined ↔ y = undefined := by simp [hs.l1]
      have hl2 : s.l2 * y = undefined ↔ y = undefined := by simp [hs.l2]
      have hd : y / s.d = undefined ↔ y = undefined := by simp [hs.d, hzero]
      have hl2y : l2y' = undefined → s.l1 * y = undefined := fun hu => hl1.mpr (hy.mpr (.inr (h' hu)))
      have hl2y' : s.l2 * y = undefined → s.l1 * y = undefined := fun hu => hl1.mpr (hl2.mp hu)
      have hbelow := ih hrest hcount hl2y hl2y'
      rw [hl1] at hbelow
      rw [hall]
      apply eq_undefined_iff_backward hs hbelow (fun hu => .inl (hd.mp hu))
      intro hnone
      have hforward := length_forward hcount l2y' (s.l1 * y) (s.l2 * y)
      have hscaled : (scaleDown steps (forward l2y' (s.l1 * y) (s.l2 * y) steps bs)).length = steps.length := by
        rw [scaleDown, List.length_zipWith, hforward, Nat.min_self]
      have hsteps := length_backward hscaled
      have hbs : bs = [] := List.length_eq_zero_iff.mp (by rw [hcount, ← hsteps]; exact congrArg _ hnone)
      simp [hd, hbs]

theorem defined_of_solve {diag first second rhs xs : List (Undefinable K)}
    {A : Pentadiagonal (Undefinable K)} (hA : ofBands diag first second = .ok A)
    (h : A.solve rhs = .ok xs) :
    undefined ∉ diag ++ first ++ second ∧ ∀ x ∈ xs, x = undefined ↔ undefined ∈ rhs := by
  obtain ⟨rfl, -, hfirst, hsecond⟩ := ofBands_eq_ok_iff.mp hA
  have hlen := length_eq_of_solve h
  rcases solve_cases hlen with ⟨haccepts, hok⟩ | ⟨i, -, -, -, herror⟩
  · rw [hok] at h
    cases h
    have hrows : ∀ i < diag.length, (row ⟨diag, first, second⟩ i).Defined :=
      fun i hi => defined_row haccepts hi hfirst hsecond
    constructor
    · rw [List.mem_append, List.mem_append]
      rintro ((hmem | hmem) | hmem)
      · obtain ⟨i, hi, hget⟩ := List.getElem_of_mem hmem
        apply (hrows i hi).diag
        rw [(row_bands _ i).1, List.getD_eq_getElem _ _ hi, hget]
      · obtain ⟨i, hi, hget⟩ := List.getElem_of_mem hmem
        apply (hrows i (by omega)).first
        rw [(row_bands _ i).2.1, List.getD_eq_getElem _ _ hi, hget]
      · obtain ⟨i, hi, hget⟩ := List.getElem_of_mem hmem
        apply (hrows i (by omega)).second
        rw [(row_bands _ i).2.2, List.getD_eq_getElem _ _ hi, hget]
    · intro x hx
      have hsteps : ∀ s ∈ (List.range diag.length).map (step ⟨diag, first, second⟩), s.Defined ∧ s.d ≠ 0 := by
        intro s hs
        obtain ⟨i, hi, rfl⟩ := List.mem_map.mp hs
        have hlt := List.mem_range.mp hi
        exact ⟨defined_padded haccepts hrows (Nat.add_lt_add_right hlt 2), (defined_of_accepts haccepts hlt).2.2.2.2⟩
      have hcount : rhs.length = ((List.range diag.length).map (step ⟨diag, first, second⟩)).length := by
        rw [List.length_map, List.length_range]
        exact hlen
      rw [eq_undefined_iff hsteps hcount (by simp) (by simp) x hx]
      simp
  · rw [herror] at h
    cases h

end Pentadiagonal
namespace Banded

/-- Where either system returns a solution no band holds an undefined number, and an unknown is undefined if a right-hand side is, and
only then. -/
theorem solutions_defined :
    (∀ (sub diag sup rhs xs : List (Undefinable K)) (A : Tridiagonal (Undefinable K)),
      Tridiagonal.ofBands sub diag sup = .ok A → A.solve rhs = .ok xs →
        undefined ∉ sub ++ diag ++ sup ∧ ∀ x ∈ xs, x = undefined ↔ undefined ∈ rhs) ∧
    ∀ (diag first second rhs xs : List (Undefinable K)) (A : Pentadiagonal (Undefinable K)),
      Pentadiagonal.ofBands diag first second = .ok A → A.solve rhs = .ok xs →
        undefined ∉ diag ++ first ++ second ∧ ∀ x ∈ xs, x = undefined ↔ undefined ∈ rhs :=
  ⟨fun _ _ _ _ _ _ hA h => Tridiagonal.defined_of_solve hA h,
    fun _ _ _ _ _ _ hA h => Pentadiagonal.defined_of_solve hA h⟩

theorem solutions_defined_at_two_rows :
    let A : Tridiagonal (Undefinable ℚ) := ⟨[number 1], [number 2, number 3], [number 1]⟩
    let B : Pentadiagonal (Undefinable ℚ) := ⟨[number 2, number 3], [number 1], []⟩
    let rhs : List (Undefinable ℚ) := [number 4, number 7]
    let xs : List (Undefinable ℚ) := [number 1, number 2]
    A.solve rhs = .ok xs ∧ B.solve rhs = .ok xs ∧ (∀ x ∈ xs, x = undefined ↔ undefined ∈ rhs) ∧
      undefined ∉ A.sub ++ A.diag ++ A.sup ∧ undefined ∉ B.diag ++ B.first ++ B.second := by
  intro A B rhs xs
  obtain ⟨htri, hpenta⟩ := solutions_defined (K := ℚ)
  have hA : A.solve rhs = .ok xs := by decide +kernel
  have hB : B.solve rhs = .ok xs := by decide +kernel
  obtain ⟨hbands, hxs⟩ := htri [number 1] [number 2, number 3] [number 1] rhs xs A rfl hA
  obtain ⟨hbands', -⟩ := hpenta [number 2, number 3] [number 1] [] rhs xs B rfl hB
  exact ⟨hA, hB, hxs, hbands, hbands'⟩

/-- One undefined right-hand side of one row is solved by an undefined number. -/
theorem undefined_solutions :
    let A : Tridiagonal (Undefinable ℚ) := ⟨[], [number 2], []⟩
    let B : Pentadiagonal (Undefinable ℚ) := ⟨[number 2], [], []⟩
    Tridiagonal.ofBands [] [number 2] [] = .ok A ∧ A.solve [undefined] = .ok [undefined] ∧
      Pentadiagonal.ofBands [number 2] [] [] = .ok B ∧ B.solve [undefined] = .ok [undefined] := by
  intro A B
  exact ⟨rfl, by decide +kernel, rfl, by decide +kernel⟩

end Banded
end LifetimeEfficiency
