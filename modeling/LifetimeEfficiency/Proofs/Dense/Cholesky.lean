import LifetimeEfficiency.Dense.Cholesky
import LifetimeEfficiency.Proofs.Exact
import Mathlib.Data.List.OfFn
import Mathlib.LinearAlgebra.Matrix.NonsingularInverse
import Mathlib.LinearAlgebra.Matrix.Symmetric
/-!
# Exact factorisations

What a least-squares fit relies on is that systems with an accepted symmetric matrix are solved, and that the inverse is one. In
exact arithmetic symmetric elimination keeps both, the inverse being put together from its columns. Nothing but pivots other than
zero is used of the factors.
-/
namespace LifetimeEfficiency

open Matrix

theorem zipWith_ofFn {α β γ : Type} {n : Nat} (f : α → β → γ) (a : Fin n → α) (b : Fin n → β) :
    List.zipWith f (List.ofFn a) (List.ofFn b) = List.ofFn fun i => f (a i) (b i) := by
  apply List.ext_getElem
  · simp
  · simp

theorem map_range_eq_ofFn {α : Type} (n : Nat) (f : Nat → α) :
    (List.range n).map f = List.ofFn fun i : Fin n => f i := by
  apply List.ext_getElem
  · simp
  · simp

variable {K : Type} [Field K] [LinearOrder K] {m n : Nat}

def rowsOf (A : Matrix (Fin m) (Fin n) K) : List (List K) := List.ofFn fun i => List.ofFn (A i)

/-- Solving and inverting are exact for every symmetric matrix that is accepted. -/
structure Factorisation.Exact (f : Factorisation K) : Prop where
  solve : ∀ {n : Nat} {A : Matrix (Fin n) (Fin n) K} {factors : f.Factors}, A.IsSymm →
    f.factor (rowsOf A) = some factors → ∀ b, ∃ x, f.solve factors (List.ofFn b) = List.ofFn x ∧ A *ᵥ x = b
  inverse : ∀ {n : Nat} {A : Matrix (Fin n) (Fin n) K} {factors : f.Factors}, A.IsSymm →
    f.factor (rowsOf A) = some factors → ∃ V : Matrix (Fin n) (Fin n) K, f.inverse factors = rowsOf V ∧ A * V = 1

theorem Scalar.dot_ofFn (a b : Fin n → K) : dot (List.ofFn a) (List.ofFn b) = a ⬝ᵥ b := by
  rw [dot, zipWith_ofFn, sum_eq, List.sum_ofFn]
  rfl

namespace Cholesky

section Step

variable (A : Matrix (Fin (n + 1)) (Fin (n + 1)) K)

def multiplier (i : Fin n) : K := A 0 i.succ / A 0 0

def reduced : Matrix (Fin n) (Fin n) K :=
  Matrix.of fun i j => A i.succ j.succ - multiplier A i * A 0 j.succ

omit [Field K] [LinearOrder K] in
theorem rowsOf_succ : rowsOf A =
    (A 0 0 :: List.ofFn fun j => A 0 j.succ) ::
      List.ofFn fun i : Fin n => A i.succ 0 :: List.ofFn fun j => A i.succ j.succ := by
  simp only [rowsOf, List.ofFn_succ]

theorem factor_succ_eq_some_iff {pivots : List (Pivot K)} :
    factor (n + 1) (rowsOf A) = some pivots ↔
      0 < A 0 0 ∧ ∃ ps, factor n (rowsOf (reduced A)) = some ps ∧
        pivots = ⟨A 0 0, List.ofFn (multiplier A)⟩ :: ps := by
  have hbelow : (List.ofFn fun j => A 0 j.succ).map (· / A 0 0) = List.ofFn (multiplier A) := by
    rw [List.map_ofFn]
    rfl
  have hrest : complement (List.ofFn fun j => A 0 j.succ) (List.ofFn (multiplier A))
      (List.ofFn fun i : Fin n => A i.succ 0 :: List.ofFn fun j => A i.succ j.succ) =
      rowsOf (reduced A) := by
    simp only [complement, zipWith_ofFn, List.tail_cons]
    rfl
  rw [rowsOf_succ]
  simp only [factor, Scalar.exact_zero, hbelow, hrest]
  by_cases hpos : 0 < A 0 0
  · simp [hpos, eq_comm]
  · simp [hpos]

variable {A}

omit [LinearOrder K] in
theorem isSymm_reduced (hA : A.IsSymm) : (reduced A).IsSymm := by
  apply Matrix.IsSymm.ext
  intro i j
  simp only [reduced, multiplier, of_apply, hA.apply i.succ j.succ]
  ring

end Step

omit [LinearOrder K] in
theorem mulVec_cons (A : Matrix (Fin (n + 1)) (Fin (n + 1)) K) (y : K) (x : Fin n → K) (i : Fin (n + 1)) :
    (A *ᵥ Fin.cons y x) i = A i 0 * y + ∑ j, A i j.succ * x j := by
  simp [mulVec, dotProduct, Fin.sum_univ_succ]

theorem exists_solution {A : Matrix (Fin n) (Fin n) K} {pivots : List (Pivot K)} (hA : A.IsSymm)
    (h : factor n (rowsOf A) = some pivots) (b : Fin n → K) :
    ∃ x, solve pivots (List.ofFn b) = List.ofFn x ∧ A *ᵥ x = b := by
  induction n generalizing pivots with
  | zero =>
    cases h
    exact ⟨b, rfl, Subsingleton.elim _ _⟩
  | succ n ih =>
    obtain ⟨hpos, ps, hps, rfl⟩ := (factor_succ_eq_some_iff A).mp h
    -- the smaller system has the right-hand side that elimination of the first unknown leaves
    obtain ⟨x, hx, hsolution⟩ := ih (isSymm_reduced hA) hps fun i => b i.succ - multiplier A i * b 0
    have hfirst (j : Fin n) : A 0 j.succ = A 0 0 * multiplier A j :=
      (mul_div_cancel₀ _ hpos.ne').symm
    have hsum : ∑ j, A 0 j.succ * x j = A 0 0 * (multiplier A ⬝ᵥ x) := by
      rw [dotProduct, Finset.mul_sum]
      exact Finset.sum_congr rfl fun j _ => by rw [hfirst, mul_assoc]
    have hrest (i : Fin n) : ∑ j, A i.succ j.succ * x j =
        (reduced A *ᵥ x) i + multiplier A i * ∑ j, A 0 j.succ * x j := by
      rw [mulVec, dotProduct, Finset.mul_sum, ← Finset.sum_add_distrib]
      refine Finset.sum_congr rfl fun j _ => ?_
      rw [reduced, of_apply]
      ring
    refine ⟨Fin.cons (b 0 / A 0 0 - multiplier A ⬝ᵥ x) x, ?_, ?_⟩
    · rw [List.ofFn_succ, solve, zipWith_ofFn, hx, Scalar.dot_ofFn, List.ofFn_succ]
      rfl
    · funext i
      rw [mulVec_cons]
      refine Fin.cases ?_ (fun i => ?_) i
      · rw [hsum]
        field_simp
        ring
      · rw [hrest, hsum, hsolution, hA.apply 0 i.succ, hfirst]
        field_simp
        ring

theorem length_of_factor {rows : List (List K)} {pivots : List (Pivot K)} (h : factor n rows = some pivots) :
    pivots.length = n := by
  induction n generalizing rows pivots with
  | zero =>
    cases h
    rfl
  | succ n ih =>
    unfold factor at h
    split at h
    · split at h
      · obtain ⟨ps, hps, rfl⟩ := Option.map_eq_some_iff.mp h
        rw [List.length_cons, ih hps]
      · cases h
    · cases h

theorem exists_inverse {A : Matrix (Fin n) (Fin n) K} {pivots : List (Pivot K)} (hA : A.IsSymm)
    (h : factor n (rowsOf A) = some pivots) :
    ∃ V : Matrix (Fin n) (Fin n) K, inverse pivots = rowsOf V ∧ A * V = 1 := by
  have hunit (j : Fin n) : (unit n j : List K) = List.ofFn (Pi.single j 1) := by
    rw [unit, map_range_eq_ofFn]
    congr 1
    funext i
    simp [Pi.single_apply, Fin.ext_iff]
  choose x hx hsolution using fun j : Fin n => exists_solution hA h (Pi.single j 1)
  refine ⟨Matrix.of fun i j => x j i, ?_, ?_⟩
  · simp only [inverse, length_of_factor h, map_range_eq_ofFn, hunit, hx, List.map_ofFn, rowsOf]
    congr 1
    funext i
    congr 1
    funext j
    simp
  · ext i j
    have hentry := congrFun (hsolution j) i
    rw [mulVec, dotProduct] at hentry
    rw [Matrix.mul_apply, one_apply, ← Pi.single_apply, ← hentry]
    rfl

theorem exact_elimination : (elimination : Factorisation K).Exact := by
  have hfactor {n : Nat} {A : Matrix (Fin n) (Fin n) K} {pivots : List (Pivot K)}
      (h : factor (rowsOf A).length (rowsOf A) = some pivots) : factor n (rowsOf A) = some pivots := by
    rwa [rowsOf, List.length_ofFn] at h
  constructor
  · intro n A pivots hA h
    exact exists_solution hA (hfactor h)
  · intro n A pivots hA h
    exact exists_inverse hA (hfactor h)

end Cholesky
end LifetimeEfficiency
