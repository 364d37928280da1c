import LifetimeEfficiency.Proofs.Spline.Polar
/-!
# The hull of the coefficients

On its interval no product behind the basis is negative, so the four basis functions are weights that add up to one. A curve there stays
among its four active coefficients.
-/
namespace LifetimeEfficiency

variable {K : Type} [Field K] [LinearOrder K] [IsStrictOrderedRing K]

namespace Window

variable {w : Window K} {x : K}

theorem value_terms_nonneg (h : w.Ordered) (hc : w.c ≤ x) (hd : x ≤ w.d)
    {terms : List (BasisTerm K)} (hterms : terms ∈ w.slots) {t : BasisTerm K} (ht : t ∈ terms) :
    0 ≤ t.value x := by
  -- Each factor has its own sign throughout the interval, and the sign of the weight makes up for them.
  obtain ⟨hp, hq, hr, hs⟩ := Knots.spacing_pos h
  obtain ⟨hab, hbc, -, hde, hef⟩ := h
  have ha : 0 ≤ x - w.a := by linarith
  have hb : 0 ≤ x - w.b := by linarith
  have hc : 0 ≤ x - w.c := by linarith
  have hd : 0 ≤ w.d - x := by linarith
  have he : 0 ≤ w.e - x := by linarith
  have hf : 0 ≤ w.f - x := by linarith
  have hprod {g l m n : K} (hg : 0 < g) (hl : 0 ≤ l) (hm : 0 ≤ m) (hn : 0 ≤ n)
      (hvalue : t.value x = 1 / g * l * m * n) : 0 ≤ t.value x := by
    rw [hvalue]
    positivity
  simp only [slots, List.mem_cons, List.not_mem_nil, or_false, Scalar.exact_one] at hterms
  obtain rfl | rfl | rfl | rfl := hterms
  · obtain rfl := List.mem_singleton.mp ht
    exact hprod hp hd hd hd (by simp only [BasisTerm.value]; ring)
  · simp only [List.mem_cons, List.not_mem_nil, or_false] at ht
    obtain rfl | rfl | rfl := ht
    · exact hprod hp ha hd hd (by simp only [BasisTerm.value]; ring)
    · exact hprod hq hb hd he (by simp only [BasisTerm.value]; ring)
    · exact hprod hr hc he he (by simp only [BasisTerm.value]; ring)
  · simp only [List.mem_cons, List.not_mem_nil, or_false] at ht
    obtain rfl | rfl | rfl := ht
    · exact hprod hq hb hb hd (by simp only [BasisTerm.value]; ring)
    · exact hprod hr hb hc he (by simp only [BasisTerm.value]; ring)
    · exact hprod hs hc hc hf (by simp only [BasisTerm.value]; ring)
  · obtain rfl := List.mem_singleton.mp ht
    exact hprod hs hc hc hc rfl

theorem value_basis_nonneg (h : w.Ordered) (hc : w.c ≤ x) (hd : x ≤ w.d) {slot : Nat}
    (hslot : slot < 4) : 0 ≤ (w.basis slot).value x := by
  rw [linear_basis (Cubic.isLinear_value x)]
  apply List.sum_nonneg
  intro v hv
  obtain ⟨t, ht, rfl⟩ := List.mem_map.mp hv
  have hvalue : t.polynomial.value x = t.value x := by
    rw [BasisTerm.polynomial, Cubic.value_ofRoots, BasisTerm.value]
  have hterms : w.slots.getD slot [] ∈ w.slots := by
    rw [List.getD_eq_getElem _ _ (by exact hslot)]
    exact List.getElem_mem _
  rw [hvalue]
  exact value_terms_nonneg h hc hd hterms ht

end Window

namespace Curve

variable {c : Curve K} {i : Nat} {x m : K}

/-- On an interval a curve is an average of its active coefficients. -/
theorem exists_weights (h : c.knots.Increasing) (hi : i < c.knots.intervals) (hle : c.knots.u i ≤ x)
    (hge : x ≤ c.knots.u (i + 1)) :
    ∃ w0 w1 w2 w3 : K, 0 ≤ w0 ∧ 0 ≤ w1 ∧ 0 ≤ w2 ∧ 0 ≤ w3 ∧ w0 + w1 + w2 + w3 = 1 ∧
      c.value x = w0 * c.coef i + w1 * c.coef (i + 1) + w2 * c.coef (i + 2) + w3 * c.coef (i + 3) := by
  have hw := h.window_ordered hi
  have hpos {slot : Nat} (hslot : slot < 4) : 0 ≤ ((c.knots.window i).basis slot).value x :=
    Window.value_basis_nonneg hw hle hge hslot
  refine ⟨_, _, _, _, hpos (by decide), hpos (by decide), hpos (by decide), hpos (by decide),
    Window.sum_basis hw x, ?_⟩
  rw [value_between h hi hle hge, linear_intervalPolynomial (Cubic.isLinear_value x)]

theorem value_le (h : c.knots.Increasing) (hi : i < c.knots.intervals) (hle : c.knots.u i ≤ x)
    (hge : x ≤ c.knots.u (i + 1)) (hm : ∀ b ∈ c.active i, b ≤ m) : c.value x ≤ m := by
  obtain ⟨w0, w1, w2, w3, h0, h1, h2, h3, hsum, hvalue⟩ := exists_weights h hi hle hge
  simp only [active, List.forall_mem_map, List.mem_range] at hm
  calc
    c.value x = w0 * c.coef (i + 0) + w1 * c.coef (i + 1) + w2 * c.coef (i + 2) +
        w3 * c.coef (i + 3) := hvalue
    _ ≤ w0 * m + w1 * m + w2 * m + w3 * m := by
      gcongr <;> exact hm _ (by decide)
    _ = (w0 + w1 + w2 + w3) * m := by ring
    _ = m := by rw [hsum, one_mul]

theorem le_value (h : c.knots.Increasing) (hi : i < c.knots.intervals) (hle : c.knots.u i ≤ x)
    (hge : x ≤ c.knots.u (i + 1)) (hm : ∀ b ∈ c.active i, m ≤ b) : m ≤ c.value x := by
  obtain ⟨w0, w1, w2, w3, h0, h1, h2, h3, hsum, hvalue⟩ := exists_weights h hi hle hge
  simp only [active, List.forall_mem_map, List.mem_range] at hm
  calc
    m = (w0 + w1 + w2 + w3) * m := by rw [hsum, one_mul]
    _ = w0 * m + w1 * m + w2 * m + w3 * m := by ring
    _ ≤ w0 * c.coef (i + 0) + w1 * c.coef (i + 1) + w2 * c.coef (i + 2) + w3 * c.coef (i + 3) := by
      gcongr <;> exact hm _ (by decide)
    _ = c.value x := hvalue.symm

theorem abs_value_le (h : c.knots.Increasing) (hfirst : c.knots.first ≤ x)
    (hlast : x ≤ c.knots.last) : |c.value x| ≤ c.maxAbs := by
  obtain ⟨i, hi, hle, hge, -⟩ := h.exists_interval hfirst hlast
  have hcoef (b : K) (hb : b ∈ c.active i) : |b| ≤ c.maxAbs := by
    obtain ⟨slot, -, rfl⟩ := List.mem_map.mp hb
    rw [coef_eq]
    exact Scalar.abs_getD_le_largest c.coefs (i + slot)
  refine abs_le.mpr ⟨?_, ?_⟩
  · exact le_value h hi hle hge fun b hb => neg_le_of_abs_le (hcoef b hb)
  · exact value_le h hi hle hge fun b hb => le_of_abs_le (hcoef b hb)

end Curve
end LifetimeEfficiency
