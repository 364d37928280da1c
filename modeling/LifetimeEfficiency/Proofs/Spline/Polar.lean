import LifetimeEfficiency.Proofs.Spline.Curve
/-!
# Polar forms

The polar form of a cubic is symmetric, affine in each of its three arguments, and the cubic itself where they coincide. Its values at
three neighbouring knots are the coefficients with which the basis gives the cubic back on every interval.
-/
namespace LifetimeEfficiency

variable {K : Type} [Field K] [LinearOrder K] [IsStrictOrderedRing K]

namespace Cubic

def polar (p : Cubic K) (x y z : K) : K :=
  p.c0 + p.c1 * (x + y + z) / 3 + p.c2 * (x * y + y * z + z * x) / 3 + p.c3 * x * y * z

theorem polar_self (p : Cubic K) (x : K) : p.polar x x x = p.value x := by
  rw [value_eq, polar]
  ring

theorem polar_right_comm (p : Cubic K) (x y z : K) : p.polar x y z = p.polar x z y := by
  unfold polar
  ring

/-- The form is affine between two arguments, and takes any point in their place. -/
theorem polar_between (p : Cubic K) (a b c d x : K) :
    (x - a) * p.polar b c d - (x - d) * p.polar a b c = (d - a) * p.polar b c x := by
  unfold polar
  ring

end Cubic

namespace Window

variable {w : Window K}

/-! Each two products with one spacing put the point in the place of a knot, once for the spacing and once for the pair. -/

private theorem left_terms (h : w.Ordered) (p : Cubic K) (x : K) :
    -1 / (Spacing.ofWindow w).p * (x - w.d) * (x - w.d) * (x - w.d) * p.polar w.a w.b w.c +
        1 / (Spacing.ofWindow w).p * (x - w.a) * (x - w.d) * (x - w.d) * p.polar w.b w.c w.d +
        1 / (Spacing.ofWindow w).q * (x - w.b) * (x - w.d) * (x - w.e) * p.polar w.b w.c w.d +
        -1 / (Spacing.ofWindow w).q * (x - w.b) * (x - w.b) * (x - w.d) * p.polar w.c w.d w.e =
      (w.d - x) * p.polar w.c x x / (w.d - w.c) := by
  obtain ⟨hda, hdb, hdc, heb, -, -⟩ := h.ne
  have hp := p.polar_between w.a w.b w.c w.d x
  have hq := p.polar_between w.b w.c w.d w.e x
  have hpair := p.polar_between w.b w.c x w.d x
  rw [← p.polar_right_comm w.c w.d x] at hpair
  simp only [Spacing.ofWindow]
  calc
    _ = (x - w.d) ^ 2 / ((w.d - w.a) * (w.d - w.b) * (w.d - w.c)) *
            ((x - w.a) * p.polar w.b w.c w.d - (x - w.d) * p.polar w.a w.b w.c) -
          (x - w.b) * (x - w.d) / ((w.d - w.b) * (w.e - w.b) * (w.d - w.c)) *
            ((x - w.b) * p.polar w.c w.d w.e - (x - w.e) * p.polar w.b w.c w.d) := by
      ring
    _ = (w.d - x) / ((w.d - w.b) * (w.d - w.c)) *
          ((x - w.b) * p.polar w.c w.d x - (x - w.d) * p.polar w.b w.c x) := by
      rw [hp, hq]
      field_simp
      ring
    _ = (w.d - x) * p.polar w.c x x / (w.d - w.c) := by
      rw [hpair]
      field_simp

private theorem right_terms (h : w.Ordered) (p : Cubic K) (x : K) :
    1 / (Spacing.ofWindow w).r * (x - w.c) * (x - w.e) * (x - w.e) * p.polar w.b w.c w.d +
        -1 / (Spacing.ofWindow w).r * (x - w.b) * (x - w.c) * (x - w.e) * p.polar w.c w.d w.e +
        -1 / (Spacing.ofWindow w).s * (x - w.c) * (x - w.c) * (x - w.f) * p.polar w.c w.d w.e +
        1 / (Spacing.ofWindow w).s * (x - w.c) * (x - w.c) * (x - w.c) * p.polar w.d w.e w.f =
      (x - w.c) * p.polar x x w.d / (w.d - w.c) := by
  obtain ⟨-, -, hdc, heb, hec, hfc⟩ := h.ne
  have hr := p.polar_between w.b w.c w.d w.e x
  have hs := p.polar_between w.c w.d w.e w.f x
  have hpair := p.polar_between w.c w.d x w.e x
  have hsymm : p.polar w.d x x = p.polar x x w.d := by
    unfold Cubic.polar
    ring
  rw [← p.polar_right_comm w.d w.e x, hsymm] at hpair
  simp only [Spacing.ofWindow]
  calc
    _ = (x - w.c) ^ 2 / ((w.e - w.c) * (w.f - w.c) * (w.d - w.c)) *
            ((x - w.c) * p.polar w.d w.e w.f - (x - w.f) * p.polar w.c w.d w.e) -
          (x - w.c) * (x - w.e) / ((w.e - w.c) * (w.e - w.b) * (w.d - w.c)) *
            ((x - w.b) * p.polar w.c w.d w.e - (x - w.e) * p.polar w.b w.c w.d) := by
      ring
    _ = (x - w.c) / ((w.e - w.c) * (w.d - w.c)) *
          ((x - w.c) * p.polar w.d w.e x - (x - w.e) * p.polar w.c w.d x) := by
      rw [hr, hs]
      field_simp
    _ = (x - w.c) * p.polar x x w.d / (w.d - w.c) := by
      rw [hpair]
      field_simp

/-- With the polar form at three neighbouring knots for its coefficients, the basis sums up to the cubic. -/
theorem sum_basis_polar (h : w.Ordered) (p : Cubic K) (x : K) :
    (w.basis 0).value x * p.polar w.a w.b w.c + (w.basis 1).value x * p.polar w.b w.c w.d +
        (w.basis 2).value x * p.polar w.c w.d w.e + (w.basis 3).value x * p.polar w.d w.e w.f =
      p.value x := by
  obtain ⟨-, -, hdc, -, -, -⟩ := h.ne
  obtain ⟨h0, h1, h2, h3⟩ := linear_slots (Cubic.isLinear_value x) w
  have hleft := left_terms h p x
  have hright := right_terms h p x
  have hlast := p.polar_between w.c x x w.d x
  rw [h0, h1, h2, h3]
  simp only [Cubic.value_ofRoots]
  calc
    _ = (w.d - x) * p.polar w.c x x / (w.d - w.c) + (x - w.c) * p.polar x x w.d / (w.d - w.c) := by
      rw [← hleft, ← hright]
      ring
    _ = ((x - w.c) * p.polar x x w.d - (x - w.d) * p.polar w.c x x) / (w.d - w.c) := by
      ring
    _ = p.value x := by
      rw [hlast, p.polar_self, mul_div_cancel_left₀ _ hdc]

theorem sum_basis (h : w.Ordered) (x : K) :
    (w.basis 0).value x + (w.basis 1).value x + (w.basis 2).value x + (w.basis 3).value x = 1 := by
  have hone := sum_basis_polar h (Cubic.constant 1) x
  rw [Cubic.value_constant] at hone
  simpa [Cubic.polar, Cubic.constant] using hone

end Window

namespace Curve

/-- The curve whose coefficients are the polar form of a cubic at the knots. -/
def ofCubic (k : Knots K) (p : Cubic K) : Curve K :=
  ⟨k, (List.range (k.size + 2)).map fun i : Nat => p.polar (k.u (i - 2)) (k.u (i - 1)) (k.u i)⟩

omit [IsStrictOrderedRing K] in
theorem coef_ofCubic (k : Knots K) (p : Cubic K) {i : Nat} (hi : i < k.size + 2) {x y z : Int}
    (hx : x = i - 2) (hy : y = i - 1) (hz : z = i) :
    (ofCubic k p).coef i = p.polar (k.u x) (k.u y) (k.u z) := by
  subst hx hy hz
  simp [coef, ofCubic, hi]

theorem intervalPolynomial_ofCubic {k : Knots K} (hk : k.Increasing) (p : Cubic K) {i : Nat}
    (hi : i < k.intervals) : (ofCubic k p).intervalPolynomial i = p := by
  have hsize : i + 3 < k.size + 2 := by
    unfold Knots.intervals at hi
    omega
  have h0 : (ofCubic k p).coef i = p.polar (k.window i).a (k.window i).b (k.window i).c :=
    coef_ofCubic k p (by omega) rfl rfl rfl
  have h1 : (ofCubic k p).coef (i + 1) = p.polar (k.window i).b (k.window i).c (k.window i).d :=
    coef_ofCubic k p (by omega) (by omega) (by omega) (by omega)
  have h2 : (ofCubic k p).coef (i + 2) = p.polar (k.window i).c (k.window i).d (k.window i).e :=
    coef_ofCubic k p (by omega) (by omega) (by omega) (by omega)
  have h3 : (ofCubic k p).coef (i + 3) = p.polar (k.window i).d (k.window i).e (k.window i).f :=
    coef_ofCubic k p (by omega) (by omega) (by omega) (by omega)
  apply Cubic.eq_of_value_eq
  intro x
  rw [linear_intervalPolynomial (Cubic.isLinear_value x), h0, h1, h2, h3]
  exact Window.sum_basis_polar (hk.window_ordered hi) p x

end Curve
end LifetimeEfficiency
