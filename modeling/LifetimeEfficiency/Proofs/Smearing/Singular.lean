import LifetimeEfficiency.Proofs.Smearing.Defined
import Mathlib.Data.List.Basic
/-!
# Convolutions at zero

Every decay moment is divided by its argument, so at zero none of them has a value. One segment that counts there, with
a polynomial other than zero, leaves the whole total without a value.
-/
namespace LifetimeEfficiency

open Undefinable (undefined number)

/-- Neither skipped nor free of weights. -/
def Segment.Counts {K : Type} [Scalar K] (g : Segment K) : Prop := g.lo < g.hi ∧ g.polynomial ≠ Cubic.zero

theorem foldl_skip_iff {ι σ : Type} {skip : ι → Bool} {step : σ → ι → σ} {P : σ → Prop}
    (hstep : ∀ x i, P (step x i)) (l : List ι) (x : σ) :
    P (l.foldl (fun x i => if skip i then x else step x i) x) ↔ P x ∨ ∃ i ∈ l, ¬ skip i = true := by
  induction l generalizing x with
  | nil => simp
  | cons i l ih =>
    rw [List.foldl_cons, ih, List.exists_mem_cons_iff]
    by_cases hskip : skip i = true
    · simp [hskip]
    · simp [hskip, hstep]

variable {K : Type} [Field K] [LinearOrder K]

namespace Complex

variable {a b : Complex (Undefinable K)}

theorem re_add_eq_undefined_iff : (a + b).re = undefined ↔ a.re = undefined ∨ b.re = undefined :=
  Undefinable.add_eq_undefined_iff

theorem re_mul_undefined (hb : b.re = undefined) : (a * b).re = undefined := by
  have hmul : (a * b).re = a.re * b.re - a.im * b.im := rfl
  simp [hmul, hb]

theorem re_scale_undefined {x : Undefinable K} (ha : a.re = undefined) : (a.scale x).re = undefined := by
  simp [scale, ha]

theorem re_addReal_undefined {x : Undefinable K} (ha : a.re = undefined) : (a.addReal x).re = undefined := by
  simp [addReal, ha]

theorem normSq_zero : (zero : Complex (Undefinable K)).normSq = 0 := by
  simp [normSq, zero, Undefinable.zero_eq]

theorem re_inv_zero : (zero : Complex (Undefinable K)).inv.re = undefined := by
  simp [inv, normSq_zero]

end Complex

namespace Moments

theorem re_decay_zero (k : Nat) : ((decay (Complex.zero : Complex (Undefinable K))).get k).re = undefined := by
  have hinv := Complex.re_inv_zero (K := K)
  have hsquare : (Complex.zero.inv * Complex.zero.inv : Complex (Undefinable K)).re = undefined :=
    Complex.re_mul_undefined hinv
  match k with
  | 0 => exact Complex.re_scale_undefined hinv
  | 1 => exact Complex.re_scale_undefined hsquare
  | 2 => exact Complex.re_mul_undefined (Complex.re_addReal_undefined hsquare)
  | _ + 3 => exact Complex.re_mul_undefined (Complex.re_addReal_undefined (Complex.re_scale_undefined hsquare))

end Moments

namespace Cubic

variable {p : Cubic (Undefinable K)} {x : Undefinable K}

theorem eq_zero_iff {K : Type} [Scalar K] {p : Cubic K} : p = zero ↔ ∀ n < 4, p.coef n = 0 := by
  constructor
  · rintro rfl n -
    match n with
    | 0 => rfl
    | 1 => rfl
    | 2 => rfl
    | 3 => rfl
    | _ + 4 => rfl
  · intro h
    obtain ⟨c0, c1, c2, c3⟩ := p
    obtain rfl : c0 = 0 := h 0 (by decide)
    obtain rfl : c1 = 0 := h 1 (by decide)
    obtain rfl : c2 = 0 := h 2 (by decide)
    obtain rfl : c3 = 0 := h 3 (by decide)
    rfl

omit [Field K] [LinearOrder K] in
theorem exists_numbers (hp : p.Defined) : ∃ a b c d, p = ⟨number a, number b, number c, number d⟩ := by
  obtain ⟨a, ha⟩ := Undefinable.exists_number hp.c0
  obtain ⟨b, hb⟩ := Undefinable.exists_number hp.c1
  obtain ⟨c, hc⟩ := Undefinable.exists_number hp.c2
  obtain ⟨d, hd⟩ := Undefinable.exists_number hp.c3
  refine ⟨a, b, c, d, ?_⟩
  rw [← ha, ← hb, ← hc, ← hd]

theorem Defined.shifted_eq_zero_iff (hp : p.Defined) (hx : x ≠ undefined) : p.shifted x = zero ↔ p = zero := by
  -- The leading coefficients are recovered first.
  obtain ⟨a, b, c, d, rfl⟩ := exists_numbers hp
  obtain ⟨u, rfl⟩ := Undefinable.exists_number hx
  unfold Cubic.shifted
  split
  · rfl
  · simp only [zero, constant, Undefinable.numeral_eq, Undefinable.number_mul, Undefinable.number_add, Cubic.mk.injEq,
      Undefinable.number_eq_zero_iff]
    constructor
    · rintro ⟨h0, h1, h2, rfl⟩
      obtain rfl : c = 0 := by simpa using h2
      obtain rfl : b = 0 := by simpa using h1
      simpa using h0
    · rintro ⟨rfl, rfl, rfl, rfl⟩
      simp

variable [IsStrictOrderedRing K]

theorem Defined.moment_eq_zero_iff (hp : p.Defined) {j k : Nat} (hchoose : binomial (j + k) j ≠ 0) :
    p.moment j k = 0 ↔ p.coef (j + k) = 0 := by
  have hpow : (Scalar.ofNat (Nat.pow 2 (j + k)) : Undefinable K) ≠ 0 :=
    Undefinable.natCast_ne_zero (Nat.pow_pos two_pos).ne'
  have hcoef := hp.coef (j + k)
  have hproduct : p.coef (j + k) * Scalar.ofNat (binomial (j + k) j) ≠ undefined := by
    simp [hcoef]
  rw [Cubic.moment, Undefinable.div_eq_zero_iff hproduct (Undefinable.natCast_ne_undefined _) hpow,
    Undefinable.mul_eq_zero_iff hcoef (Undefinable.natCast_ne_undefined _)]
  simp [Undefinable.natCast_ne_zero hchoose]

end Cubic

namespace Convolution

theorem orders_spec : ∀ jk ∈ orders, jk.1 + jk.2 < 4 ∧ Cubic.binomial (jk.1 + jk.2) jk.1 ≠ 0 := by decide

theorem mem_orders_zero : ∀ n < 4, (n, 0) ∈ orders := by decide

variable [IsStrictOrderedRing K] {s : Smearing (Undefinable K)} {c : Convolution (Undefinable K)}

section Zero

variable (hscale : c.scale ≠ undefined ∧ c.scale ≠ 0) (hz : c.z = Complex.zero)

include hscale hz

omit hz in
theorem weight_eq_zero_iff {p : Cubic (Undefinable K)} (hp : p.Defined) {jk : Nat × Nat} (hjk : jk ∈ orders) :
    p.moment jk.1 jk.2 * Scalar.power c.scale (jk.1 + jk.2) = 0 ↔ p.coef (jk.1 + jk.2) = 0 := by
  have hpower := Undefinable.power_ne_undefined hscale.1 (jk.1 + jk.2)
  rw [Undefinable.mul_eq_zero_iff (hp.moment _ _) hpower, hp.moment_eq_zero_iff (orders_spec jk hjk).2]
  simp [Undefinable.power_ne_zero hscale]

theorem re_addMoments_eq_undefined_iff {p : Cubic (Undefinable K)} (hp : p.Defined) (m : Moments (Undefinable K))
    (sum : Complex (Undefinable K)) :
    (c.addMoments p m sum).re = undefined ↔ sum.re = undefined ∨ p ≠ Cubic.zero := by
  have hspoiled (sum : Complex (Undefinable K)) (jk : Nat × Nat) :
      (sum + (m.get jk.1 * (Moments.decay c.z).get jk.2).scale
        (p.moment jk.1 jk.2 * Scalar.power c.scale (jk.1 + jk.2))).re = undefined := by
    rw [hz, Complex.re_add_eq_undefined_iff]
    exact .inr (Complex.re_scale_undefined (Complex.re_mul_undefined (Moments.re_decay_zero _)))
  let P (w : Complex (Undefinable K)) : Prop := w.re = undefined
  refine (foldl_skip_iff (P := P) hspoiled orders sum).trans (or_congr_right ?_)
  rw [← not_iff_not, not_not, Cubic.eq_zero_iff]
  push Not
  have hskip (jk : Nat × Nat) := Undefinable.beq_zero_iff (x := p.moment jk.1 jk.2 * Scalar.power c.scale (jk.1 + jk.2))
    (by simp [hp.moment, Undefinable.power_ne_undefined hscale.1])
  constructor
  · intro h n hn
    have hmem := mem_orders_zero n hn
    exact (weight_eq_zero_iff hscale hp hmem).mp ((hskip _).mp (h _ hmem))
  · intro h jk hjk
    exact (hskip jk).mpr ((weight_eq_zero_iff hscale hp hjk).mpr (h _ (orders_spec jk hjk).1))

theorem re_total_eq_undefined_iff (hoffset : c.offset ≠ undefined) {gs : List (Segment (Undefinable K))}
    (hgs : ∀ g ∈ gs, g.Defined) : (c.total s gs).re = undefined ↔ ∃ g ∈ gs, g.Counts := by
  have hfold (acc : Accumulator (Undefinable K)) : (gs.foldl (c.addSegment s) acc).sum.re = undefined ↔
      acc.sum.re = undefined ∨ ∃ g ∈ gs, g.Counts := by
    -- the moments that are kept play no part: whatever they are, the factor of the decay has no value
    induction gs generalizing acc with
    | nil => simp
    | cons g gs ih =>
      obtain ⟨hg, hrest⟩ := List.forall_mem_cons.mp hgs
      have hstep : (c.addSegment s acc g).sum.re = undefined ↔ acc.sum.re = undefined ∨ g.Counts := by
        unfold addSegment Segment.Counts
        split
        · rename_i hlt
          dsimp only
          rw [re_addMoments_eq_undefined_iff hscale hz (hg.polynomial.shifted hoffset),
            (hg.polynomial.shifted_eq_zero_iff hoffset).ne]
          simp [hlt]
        · rename_i hlt
          simp [hlt]
      rw [List.foldl_cons, ih hrest, hstep, List.exists_mem_cons_iff, or_assoc]
  have hstart : (start : Accumulator (Undefinable K)).sum.re ≠ undefined := Complex.defined_zero.re
  exact (hfold start).trans (or_iff_right hstart)

end Zero

/-- Anywhere else than at zero the total has a value. -/
theorem total_spec (hs : s.Defined) (hscale : c.scale ≠ undefined ∧ c.scale ≠ 0) (hoffset : c.offset ≠ undefined)
    (hz : c.z.Defined) {gs : List (Segment (Undefinable K))} (hgs : ∀ g ∈ gs, g.Defined) :
    ((c.total s gs).re = undefined ↔ c.z = Complex.zero ∧ ∃ g ∈ gs, g.Counts) ∧
      (c.z ≠ Complex.zero → (c.total s gs).Defined) := by
  by_cases hzero : c.z = Complex.zero
  · simp [re_total_eq_undefined_iff hscale hzero hoffset hgs, hzero]
  · have htotal := Regular.total ⟨hscale, hoffset, hz, hzero⟩ hs hgs
    simp [htotal, htotal.re, hzero]

end Convolution
end LifetimeEfficiency
