import LifetimeEfficiency.Proofs.Dense.Cholesky
import LifetimeEfficiency.Proofs.Outcome
import LifetimeEfficiency.Spline.HistogramFit
import Mathlib.Tactic.LinearCombination
/-!
# Histogram fits are least squares

The lists that a fit handles are the rows of a design matrix, of the normal matrix that belongs to it and of its inverse. A
solution of the normal equations leaves residuals that no column of the design sees, so that every other vector of
coefficients lies further away, by the weighted squares of what the design makes of the difference.
-/
namespace LifetimeEfficiency

open Matrix

variable {K : Type} [Field K] [LinearOrder K] {n : Nat}

theorem map_eq_ofFn {α β : Type} (f : α → β) (as : List α) :
    as.map f = List.ofFn fun i : Fin as.length => f as[i] := by
  apply List.ext_getElem
  · simp
  · simp

omit [Field K] [LinearOrder K] in
theorem map_rowsOf {m : Nat} {β : Type} (f : List K → β) (A : Matrix (Fin m) (Fin n) K) :
    (rowsOf A).map f = List.ofFn fun i => f (List.ofFn (A i)) :=
  List.map_ofFn

omit [LinearOrder K] in
theorem ofFn_getD {m : Nat} (a : Fin m → K) (i : Fin m) : (List.ofFn a).getD i 0 = a i := by
  simp

namespace HistogramFit

variable {m : Nat} (D : Matrix (Fin m) (Fin n) K) (w y : Fin m → K)

theorem columns_rowsOf : columns n (rowsOf D) = rowsOf Dᵀ := by
  rw [columns, map_range_eq_ofFn]
  refine congrArg List.ofFn (funext fun j => ?_)
  rw [map_rowsOf]
  refine congrArg List.ofFn (funext fun r => ?_)
  rw [Scalar.exact_zero, ofFn_getD, transpose_apply]

theorem weighted_rowsOf : weighted n (rowsOf D) (List.ofFn w) = rowsOf (diagonal w * D)ᵀ := by
  rw [weighted, columns_rowsOf, map_rowsOf]
  refine congrArg List.ofFn (funext fun j => ?_)
  rw [zipWith_ofFn]
  refine congrArg List.ofFn (funext fun r => ?_)
  rw [transpose_apply, transpose_apply, diagonal_mul, mul_comm]

/-- Only one of the two factors carries the weights. -/
theorem normalMatrix_rowsOf :
    normalMatrix n (rowsOf D) (List.ofFn w) = rowsOf (Dᵀ * diagonal w * D) := by
  rw [normalMatrix, weighted_rowsOf, columns_rowsOf, map_rowsOf]
  refine congrArg List.ofFn (funext fun i => ?_)
  rw [map_rowsOf]
  refine congrArg List.ofFn (funext fun j => ?_)
  rw [Scalar.dot_ofFn, Matrix.mul_assoc, Matrix.mul_apply]
  rfl

theorem normalRhs_rowsOf :
    normalRhs n (rowsOf D) (List.ofFn w) (List.ofFn y) = List.ofFn (Dᵀ *ᵥ (w * y)) := by
  rw [normalRhs, weighted_rowsOf, map_rowsOf]
  refine congrArg List.ofFn (funext fun j => ?_)
  rw [Scalar.dot_ofFn, mulVec, dotProduct, dotProduct]
  refine Finset.sum_congr rfl fun r _ => ?_
  rw [transpose_apply, transpose_apply, diagonal_mul, Pi.mul_apply]
  ring

theorem distance_rowsOf (c : Fin n → K) :
    distance (rowsOf D) (List.ofFn w) (List.ofFn y) (List.ofFn c) =
      ∑ r, w r * (y r - (D *ᵥ c) r) ^ 2 := by
  rw [distance, rowsOf, zipWith_ofFn, zipWith_ofFn, Scalar.sum_eq, List.sum_ofFn]
  refine Finset.sum_congr rfl fun r _ => ?_
  rw [Scalar.dot_ofFn, mulVec]
  ring

section LeastSquares

variable {D w y} {c : Fin n → K}

omit [LinearOrder K] in
/-- The residuals of a solution are orthogonal to the design. -/
theorem sum_residual_mul (hc : (Dᵀ * diagonal w * D) *ᵥ c = Dᵀ *ᵥ (w * y)) (x : Fin n → K) :
    ∑ r, w r * (y r - (D *ᵥ c) r) * (D *ᵥ x) r = 0 := by
  have hresidual : Dᵀ *ᵥ (fun r => w r * (y r - (D *ᵥ c) r)) = 0 := by
    have hsplit : (fun r => w r * (y r - (D *ᵥ c) r)) = w * y - diagonal w *ᵥ (D *ᵥ c) := by
      funext r
      rw [Pi.sub_apply, Pi.mul_apply, mulVec_diagonal, mul_sub]
    rw [hsplit, mulVec_sub, mulVec_mulVec, mulVec_mulVec, hc, sub_self]
  have hdot : (fun r => w r * (y r - (D *ᵥ c) r)) ⬝ᵥ (D *ᵥ x) = 0 := by
    rw [dotProduct_mulVec, ← mulVec_transpose, hresidual, zero_dotProduct]
  exact hdot

omit [LinearOrder K] in
theorem sum_residual_sq (hc : (Dᵀ * diagonal w * D) *ᵥ c = Dᵀ *ᵥ (w * y)) (x : Fin n → K) :
    ∑ r, w r * (y r - (D *ᵥ x) r) ^ 2 =
      ∑ r, w r * (y r - (D *ᵥ c) r) ^ 2 + ∑ r, w r * (D *ᵥ (x - c)) r ^ 2 := by
  have hcross := sum_residual_mul hc (x - c)
  have hexpand : ∑ r, w r * (y r - (D *ᵥ x) r) ^ 2 =
      ∑ r, w r * (y r - (D *ᵥ c) r) ^ 2 + ∑ r, w r * (D *ᵥ (x - c)) r ^ 2 -
        2 * ∑ r, w r * (y r - (D *ᵥ c) r) * (D *ᵥ (x - c)) r := by
    rw [Finset.mul_sum, ← Finset.sum_add_distrib, ← Finset.sum_sub_distrib]
    refine Finset.sum_congr rfl fun r _ => ?_
    rw [mulVec_sub, Pi.sub_apply]
    ring
  rw [hexpand, hcross, mul_zero, sub_zero]

/-- A left inverse of the normal matrix leaves no direction in which the design is blind. -/
theorem eq_of_sum_sq_eq_zero [IsStrictOrderedRing K] (hw : ∀ r, 0 ≤ w r) {V : Matrix (Fin n) (Fin n) K}
    (hV : V * (Dᵀ * diagonal w * D) = 1) {x : Fin n → K} (hx : ∑ r, w r * (D *ᵥ x) r ^ 2 = 0) :
    x = 0 := by
  -- a vanishing sum of squares vanishes in every bin that has a weight
  have hterm (r : Fin m) : w r * (D *ᵥ x) r = 0 := by
    have hsq := (Finset.sum_eq_zero_iff_of_nonneg fun r _ => mul_nonneg (hw r) (sq_nonneg _)).mp hx r
      (Finset.mem_univ r)
    rcases mul_eq_zero.mp hsq with h | h
    · rw [h, zero_mul]
    · rw [pow_eq_zero_iff two_ne_zero |>.mp h, mul_zero]
  have hblind : diagonal w *ᵥ (D *ᵥ x) = 0 := by
    funext r
    rw [mulVec_diagonal, hterm, Pi.zero_apply]
  calc x = (V * (Dᵀ * diagonal w * D)) *ᵥ x := by rw [hV, one_mulVec]
    _ = V *ᵥ (Dᵀ *ᵥ (diagonal w *ᵥ (D *ᵥ x))) := by
      simp only [mulVec_mulVec, Matrix.mul_assoc]
    _ = 0 := by rw [hblind, mulVec_zero, mulVec_zero]

end LeastSquares

end HistogramFit

/-! The design of a fit, bin by bin. -/

section Design

variable {d : DecayFunctions K} {k : Knots K} {gamma : K}

theorem DecayFunctions.length_basisIntegrals {lo hi : K} {integrals : List K}
    (h : d.basisIntegrals k lo hi gamma = .ok integrals) : integrals.length = k.size + 2 := by
  have hslot (i : Nat) (a b : K) (ys : List K) (slot : Nat) (ys' : List K) (hys : ys.length = k.size + 2)
      (h : (do
        let part ← d.integral (k.basisPolynomial i slot) a b gamma
        return ys.modify (i + slot) (· + part)) = .ok ys') : ys'.length = k.size + 2 := by
    obtain ⟨part, -, h⟩ := bind_eq_ok_iff.mp h
    cases h
    rw [List.length_modify]
    exact hys
  refine foldlM_keeps (P := fun xs => xs.length = k.size + 2) (fun xs i xs' hxs h => ?_) List.length_replicate h
  unfold addInterval at h
  dsimp only at h
  split at h
  · cases h
    exact hxs
  · exact foldlM_keeps (P := fun xs => xs.length = k.size + 2) (hslot i _ _) hxs h

theorem DecayFunctions.exists_basisIntegrals {lo hi : K} {integrals : List K}
    (h : d.basisIntegrals k lo hi gamma = .ok integrals) :
    ∃ I : Fin (k.size + 2) → K, integrals = List.ofFn I := by
  have hlen : integrals.length = k.size + 2 := length_basisIntegrals h
  rw [← hlen]
  exact ⟨integrals.get, (List.ofFn_get integrals).symm⟩

theorem Bin.row_eq_ok {b : Bin K} {row : List K} (h : b.row d k gamma = .ok row) :
    ∃ I : Fin (k.size + 2) → K, d.basisIntegrals k b.low b.high gamma = .ok (List.ofFn I) ∧
      row = List.ofFn fun j => I j / b.norm d gamma := by
  obtain ⟨integrals, hintegrals, h⟩ := bind_eq_ok_iff.mp h
  obtain ⟨I, rfl⟩ := DecayFunctions.exists_basisIntegrals hintegrals
  cases h
  exact ⟨I, hintegrals, List.map_ofFn⟩

theorem exists_design {bins : List (Bin K)} {design : List (List K)}
    (h : bins.mapM (Bin.row d k gamma) = .ok design) :
    ∃ I : Matrix (Fin bins.length) (Fin (k.size + 2)) K,
      (∀ r, d.basisIntegrals k bins[r].low bins[r].high gamma = .ok (List.ofFn (I r))) ∧
        design = rowsOf (Matrix.of fun r j => I r j / bins[r].norm d gamma) := by
  obtain ⟨hlen, hget⟩ := getElem_of_mapM h
  have hrow (r : Fin bins.length) := Bin.row_eq_ok (hget r r.isLt (hlen.symm ▸ r.isLt))
  choose I hI hdesign using hrow
  refine ⟨Matrix.of I, hI, ?_⟩
  apply List.ext_getElem
  · rw [hlen, rowsOf, List.length_ofFn]
  · intro i hi hi'
    rw [hdesign ⟨i, hlen ▸ hi⟩]
    simp [rowsOf]

theorem Knots.fitHistogram_eq_ok {f : Factorisation K} {bins : List (Bin K)} {fit : HistogramFit K}
    (h : k.fitHistogram d bins gamma f = .ok (.ok fit)) :
    ∃ design, bins.mapM (Bin.row d k gamma) = .ok design ∧
      HistogramFit.ofDesign f (k.size + 2) bins design = .ok fit := by
  unfold Knots.fitHistogram at h
  split at h
  · cases h
  · split at h
    · cases h
    · obtain ⟨design, hdesign, h⟩ := bind_eq_ok_iff.mp h
      exact ⟨design, hdesign, Except.ok.inj h⟩

end Design

namespace HistogramFit

/-- The squared distances of the contents from what a design makes of some coefficients, in units of the errors. -/
def misfit (bins : List (Bin K)) (D : Matrix (Fin bins.length) (Fin n) K) (c : Fin n → K) : K :=
  ∑ r, ((bins[r].content - (D *ᵥ c) r) / bins[r].error) ^ 2

def weights (bins : List (Bin K)) (r : Fin bins.length) : K := bins[r].weight

def contents (bins : List (Bin K)) (r : Fin bins.length) : K := bins[r].content

variable {bins : List (Bin K)} {D : Matrix (Fin bins.length) (Fin n) K}

theorem weights_eq (r : Fin bins.length) : weights bins r = 1 / bins[r].error ^ 2 := by
  rw [weights, Bin.weight, Scalar.exact_one, sq]

theorem misfit_eq (c : Fin n → K) :
    misfit bins D c = ∑ r, weights bins r * (contents bins r - (D *ᵥ c) r) ^ 2 := by
  refine Finset.sum_congr rfl fun r _ => ?_
  rw [weights_eq, contents, div_pow]
  ring

/-- A fit solves the normal equations of its design, whose inverse is the covariance. -/
theorem ofDesign_eq_ok {f : Factorisation K} (hf : f.Exact) {fit : HistogramFit K}
    (h : ofDesign f n bins (rowsOf D) = .ok fit) :
    ∃ (c : Fin n → K) (V : Matrix (Fin n) (Fin n) K),
      fit.coefs = List.ofFn c ∧ fit.covariance = rowsOf V ∧ fit.chiSquared = misfit bins D c ∧
        (Dᵀ * diagonal (weights bins) * D) *ᵥ c = Dᵀ *ᵥ (weights bins * contents bins) ∧
        V * (Dᵀ * diagonal (weights bins) * D) = 1 := by
  have hsymm : (Dᵀ * diagonal (weights bins) * D).IsSymm := by
    rw [IsSymm, transpose_mul, transpose_mul, transpose_transpose, diagonal_transpose, Matrix.mul_assoc]
  have hweights : bins.map Bin.weight = List.ofFn (weights bins) := map_eq_ofFn _ _
  have hcontents : bins.map Bin.content = List.ofFn (contents bins) := map_eq_ofFn _ _
  unfold ofDesign at h
  simp only [hweights, hcontents, normalMatrix_rowsOf, normalRhs_rowsOf] at h
  split at h
  · cases h
  · cases hfactor : f.factor (rowsOf (Dᵀ * diagonal (weights bins) * D)) with
    | none =>
      rw [hfactor] at h
      cases h
    | some factors =>
      rw [hfactor] at h
      cases h
      obtain ⟨c, hc, hsolution⟩ := hf.solve hsymm hfactor (Dᵀ *ᵥ (weights bins * contents bins))
      obtain ⟨V, hV, hinverse⟩ := hf.inverse hsymm hfactor
      refine ⟨c, V, hc, hV, ?_, hsolution, mul_eq_one_comm.mp hinverse⟩
      rw [misfit_eq, ← distance_rowsOf, ← hc]

end HistogramFit

/-- The coefficients of a fit are the only ones at the least distance from the contents, which is the one it reports, and its
covariance is the inverse of the normal matrix, whatever factorisation solves its equations exactly. Contents that some
coefficients explain give those back. -/
theorem Knots.fitHistogram_least_squares [IsStrictOrderedRing K] {f : Factorisation K} (hf : f.Exact)
    {d : DecayFunctions K} {k : Knots K} {bins : List (Bin K)} {gamma : K} {fit : HistogramFit K}
    (h : k.fitHistogram d bins gamma f = .ok (.ok fit)) :
    ∃ (I : Matrix (Fin bins.length) (Fin (k.size + 2)) K) (c : Fin (k.size + 2) → K)
        (V : Matrix (Fin (k.size + 2)) (Fin (k.size + 2)) K),
      let D : Matrix (Fin bins.length) (Fin (k.size + 2)) K :=
        Matrix.of fun r j => I r j / bins[r].norm d gamma
      (∀ r, d.basisIntegrals k bins[r].low bins[r].high gamma = .ok (List.ofFn (I r))) ∧
      fit.coefs = List.ofFn c ∧ fit.covariance = rowsOf V ∧
      (∀ x, HistogramFit.misfit bins D c ≤ HistogramFit.misfit bins D x) ∧
      (∀ x, HistogramFit.misfit bins D x = HistogramFit.misfit bins D c → x = c) ∧
      fit.chiSquared = HistogramFit.misfit bins D c ∧
      V * (Dᵀ * diagonal (fun r : Fin bins.length => 1 / bins[r].error ^ 2) * D) = 1 ∧
      ∀ c₀, (∀ r, bins[r].content = (D *ᵥ c₀) r) → c = c₀ ∧ fit.chiSquared = 0 := by
  obtain ⟨design, hdesign, hfit⟩ := fitHistogram_eq_ok h
  obtain ⟨I, hI, rfl⟩ := exists_design hdesign
  obtain ⟨c, V, hc, hV, hchi, hsolution, hinverse⟩ := HistogramFit.ofDesign_eq_ok hf hfit
  refine ⟨I, c, V, ?_⟩
  intro D
  have hnonneg (r : Fin bins.length) : 0 ≤ HistogramFit.weights bins r := by
    rw [HistogramFit.weights_eq]
    positivity
  have hadd (x : Fin (k.size + 2) → K) : HistogramFit.misfit bins D x = HistogramFit.misfit bins D c +
      ∑ r, HistogramFit.weights bins r * (D *ᵥ (x - c)) r ^ 2 := by
    rw [HistogramFit.misfit_eq, HistogramFit.misfit_eq]
    exact HistogramFit.sum_residual_sq hsolution x
  have hleast (x : Fin (k.size + 2) → K) : HistogramFit.misfit bins D c ≤ HistogramFit.misfit bins D x := by
    rw [hadd x]
    exact le_add_of_nonneg_right
      (Finset.sum_nonneg fun r _ => mul_nonneg (hnonneg r) (sq_nonneg _))
  have honly (x : Fin (k.size + 2) → K)
      (hx : HistogramFit.misfit bins D x = HistogramFit.misfit bins D c) : x = c := by
    rw [hadd x, add_eq_left] at hx
    exact sub_eq_zero.mp (HistogramFit.eq_of_sum_sq_eq_zero hnonneg hinverse hx)
  refine ⟨hI, hc, hV, hleast, honly, hchi, ?_, ?_⟩
  · rw [← hinverse]
    congr 4
    funext r
    exact (HistogramFit.weights_eq r).symm
  · intro c₀ hcontents
    have hzero : HistogramFit.misfit bins D c₀ = 0 := by
      refine Finset.sum_eq_zero fun r _ => ?_
      rw [hcontents, sub_self, zero_div, zero_pow two_ne_zero]
    have hmisfit : HistogramFit.misfit bins D c = 0 := by
      refine le_antisymm (hzero ▸ hleast c₀) (Finset.sum_nonneg fun r _ => sq_nonneg _)
    exact ⟨(honly c₀ (hzero.trans hmisfit.symm)).symm, hchi.trans hmisfit⟩

/-- One interval, five bins and four coefficients, with elimination and an exponential that is cut off after its fourth power. -/
theorem Knots.fitHistogram_least_squares_at_five_bins :
    let d : DecayFunctions ℚ :=
      { exp := fun x => ∑ i ∈ Finset.range 5, x ^ i / DecayFunctions.factorial i
        lowerGamma := fun n x => some (1 - (∑ i ∈ Finset.range 5, (-x) ^ i / DecayFunctions.factorial i) *
          ∑ i ∈ Finset.range n, x ^ i / DecayFunctions.factorial i) }
    let bins : List (Bin ℚ) :=
      [⟨0, 1 / 5, 1, 1⟩, ⟨1 / 5, 2 / 5, 2, 1⟩, ⟨2 / 5, 3 / 5, 4, 1⟩, ⟨3 / 5, 4 / 5, 7, 1⟩, ⟨4 / 5, 1, 5, 1 / 2⟩]
    let D : Matrix (Fin 5) (Fin 4) ℚ :=
      !![253606 / 339875, 74592 / 339875, 11073 / 339875, 604 / 339875;
        61736587 / 173828125, 596942567 / 1390625000, 65052457 / 347656250, 60434801 / 2085937500;
        18880978 / 141796875, 17668392 / 47265625, 17462663 / 47265625, 6044494 / 47265625;
        14468449 / 457812500, 180156501 / 915625000, 100630851 / 228906250, 161009911 / 457812500;
        1694 / 719375, 27104 / 719375, 178717 / 719375, 1680448 / 2158125]
    ∃ fit, (⟨[0, 1]⟩ : Knots ℚ).fitHistogram d bins 1 Cholesky.elimination = .ok (.ok fit) ∧
      ∃ (c : Fin 4 → ℚ) (V : Matrix (Fin 4) (Fin 4) ℚ),
        fit.coefs = List.ofFn c ∧ fit.covariance = rowsOf V ∧ fit.chiSquared = HistogramFit.misfit bins D c ∧
          (∀ x, x ≠ c → HistogramFit.misfit bins D c < HistogramFit.misfit bins D x) ∧
          V * (Dᵀ * diagonal (![1, 1, 1, 1, 4] : Fin 5 → ℚ) * D) = 1 := by
  intro d bins D
  have hsucceeds : (match (⟨[0, 1]⟩ : Knots ℚ).fitHistogram d bins 1 Cholesky.elimination with
      | .ok (.ok _) => true
      | _ => false) = true := by decide +kernel
  have hrow : ∀ r : Fin 5, bins[r].row d ⟨[0, 1]⟩ 1 = .ok (List.ofFn (D r)) := by decide +kernel
  have hweights : (fun r : Fin 5 => 1 / bins[r].error ^ 2) = ![1, 1, 1, 1, 4] := by decide +kernel
  split at hsucceeds
  · rename_i fit h
    obtain ⟨I, c, V, hI, hc, hV, hleast, honly, hchi, hinverse, -⟩ :=
      Knots.fitHistogram_least_squares Cholesky.exact_elimination h
    have hD : (Matrix.of fun r j => I r j / bins[r].norm d 1) = D := by
      funext r
      have hintegrals : bins[r].row d ⟨[0, 1]⟩ 1 = .ok ((List.ofFn (I r)).map (· / bins[r].norm d 1)) := by
        rw [Bin.row, hI r]
        rfl
      rw [List.map_ofFn] at hintegrals
      exact List.ofFn_injective (Except.ok.inj (hintegrals.symm.trans (hrow r)))
    rw [hD] at hleast honly hchi hinverse
    refine ⟨fit, h, c, V, hc, hV, hchi, ?_, hweights ▸ hinverse⟩
    exact fun x hx => lt_of_le_of_ne (hleast x) fun heq => hx (honly x heq.symm)
  · cases hsucceeds

end LifetimeEfficiency
