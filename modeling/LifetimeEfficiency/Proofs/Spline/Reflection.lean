import LifetimeEfficiency.Proofs.Spline.Reproduction
import LifetimeEfficiency.Proofs.Spline.Rescaling
/-!
# Splines on a reflected axis

With the axis turned around, everything that was counted from the left is counted from the right. A window is read backwards, and its
four basis functions change places.
-/
namespace LifetimeEfficiency

variable {K : Type} [Field K] [LinearOrder K]

namespace Window

def reversed (w : Window K) : Window K := ⟨w.f, w.e, w.d, w.c, w.b, w.a⟩

theorem spacing_reversed (w : Window K) :
    Spacing.ofWindow w.reversed = ⟨-(Spacing.ofWindow w).s, -(Spacing.ofWindow w).r,
      -(Spacing.ofWindow w).q, -(Spacing.ofWindow w).p⟩ := by
  simp only [Spacing.ofWindow, reversed, Spacing.mk.injEq]
  refine ⟨?_, ?_, ?_, ?_⟩ <;> ring

theorem basis_reversed (w : Window K) (x : K) :
    (w.reversed.basis 0).value x = (w.basis 3).value x ∧
      (w.reversed.basis 1).value x = (w.basis 2).value x ∧
      (w.reversed.basis 2).value x = (w.basis 1).value x ∧
      (w.reversed.basis 3).value x = (w.basis 0).value x := by
  obtain ⟨h0, h1, h2, h3⟩ := linear_slots (Cubic.isLinear_value x) w
  obtain ⟨h0', h1', h2', h3'⟩ := linear_slots (Cubic.isLinear_value x) w.reversed
  rw [h0, h1, h2, h3, h0', h1', h2', h3', spacing_reversed]
  simp only [Cubic.value_ofRoots, reversed, div_neg, neg_div, neg_neg, true_and, and_true]
  constructor <;> ring

def reflected (w : Window K) : Window K := (w.map fun u => -u).reversed

theorem basis_reflected (w : Window K) (x : K) :
    (w.reflected.basis 0).value (-x) = (w.basis 3).value x ∧
      (w.reflected.basis 1).value (-x) = (w.basis 2).value x ∧
      (w.reflected.basis 2).value (-x) = (w.basis 1).value x ∧
      (w.reflected.basis 3).value (-x) = (w.basis 0).value x := by
  have hmap {slot : Nat} (hs : slot < 4) :
      ((w.map fun u => -u).basis slot).value (-x) = (w.basis slot).value x := by
    have h := basis_map (neg_ne_zero.mpr one_ne_zero) 0 w hs x
    simpa only [neg_one_mul, add_zero] using h
  obtain ⟨h0, h1, h2, h3⟩ := basis_reversed (w.map fun u => -u) (-x)
  exact ⟨h0.trans (hmap (by decide)), h1.trans (hmap (by decide)), h2.trans (hmap (by decide)),
    h3.trans (hmap (by decide))⟩

end Window

namespace Knots

def reflected (k : Knots K) : Knots K := ⟨(k.points.map fun u => -u).reverse⟩

omit [LinearOrder K] in
@[simp] theorem size_reflected (k : Knots K) : k.reflected.size = k.size := by
  simp [reflected, size]

namespace Increasing

variable {k : Knots K} (h : k.Increasing) {n : Nat} (hn : k.size = n + 2)

include h

theorem reflected [IsStrictOrderedRing K] : k.reflected.Increasing where
  two_le := h.two_le.trans_eq k.size_reflected.symm
  sorted := by
    rw [Knots.reflected, List.pairwise_reverse, List.pairwise_map]
    exact h.sorted.imp neg_lt_neg

include hn

theorem u_reflected {i j : Int} (hij : i + j = n + 1) : k.reflected.u i = -k.u j := by
  have hsize : k.points.length = n + 2 := hn
  have hposition : k.reflected.position i = n + 1 - k.position j := by
    rw [position, position, size_reflected]
    omega
  have hlt : k.position j < (k.points.map fun u => -u).length := by
    rw [List.length_map]
    exact h.position_lt j
  rw [← h.u_map (fun u => -u) j, u_eq_getD, u_eq_getD, hposition, Knots.reflected,
    List.getD_reverse _ (by simp [hsize]; omega), List.length_map, hsize]
  congr 1
  rw [position, position, size_map]
  omega

theorem window_reflected {i j : Nat} (hij : i + j = n) :
    k.reflected.window i = (k.window j).reflected := by
  simp only [window, Window.reflected, Window.map, Window.reversed, Window.mk.injEq]
  refine ⟨?_, ?_, ?_, ?_, ?_, ?_⟩ <;> exact h.u_reflected hn (by omega)

theorem first_reflected : k.reflected.first = -k.last := by
  rw [last_eq hn]
  exact h.u_reflected hn (by simp)

theorem last_reflected : k.reflected.last = -k.first := by
  rw [last_eq (k.size_reflected.trans hn)]
  exact h.u_reflected hn (by simp)

theorem r_reflected {i j : Int} (hij : i + j = n) : k.reflected.r i = k.r j := by
  rw [r, r, width, width, Knots.h, Knots.h, h.u_reflected hn (i := i + 1) (j := j) (by omega),
    h.u_reflected hn (i := i) (j := j + 1) (by omega), neg_sub_neg]

end Increasing

end Knots

namespace Curve

def reflected (c : Curve K) : Curve K := ⟨c.knots.reflected, c.coefs.reverse⟩

omit [LinearOrder K] in
theorem reflected_reflected (c : Curve K) : c.reflected.reflected = c := by
  simp [reflected, Knots.reflected, List.map_reverse]

section Reflected

variable {c : Curve K} (h : c.knots.Increasing) {n : Nat} (hn : c.knots.size = n + 2)
  (hlen : c.coefs.length = n + 4)

include hlen in
theorem coef_reflected {i j : Nat} (hij : i + j = n + 3) : c.reflected.coef i = c.coef j := by
  have hj : c.coefs.length - 1 - i = j := by omega
  rw [coef_eq, coef_eq, reflected, List.getD_reverse _ (by omega), hj]

include h hn hlen

theorem value_intervalPolynomial_reflected {i j : Nat} (hij : i + j = n) (x : K) :
    (c.reflected.intervalPolynomial i).value (-x) = (c.intervalPolynomial j).value x := by
  obtain ⟨h0, h1, h2, h3⟩ := (c.knots.window j).basis_reflected x
  rw [linear_intervalPolynomial (Cubic.isLinear_value _),
    linear_intervalPolynomial (Cubic.isLinear_value _), coef_reflected hlen (j := j + 3) (by omega),
    coef_reflected hlen (j := j + 2) (by omega), coef_reflected hlen (j := j + 1) (by omega),
    coef_reflected hlen (j := j) (by omega)]
  rw [reflected, h.window_reflected hn hij, h0, h1, h2, h3]
  ring

variable [IsStrictOrderedRing K]

theorem value_reflected_of_lt {x : K} (hx : x < c.knots.first) : c.reflected.value (-x) = c.value x := by
  have hleft : c.knots.locate x = .left := h.locate_eq_iff.mpr hx
  have hright : c.reflected.knots.locate (-x) = .right := by
    refine h.reflected.locate_eq_iff.mpr ?_
    rw [Knots.Covers, h.last_reflected hn]
    exact neg_lt_neg hx
  have hr : c.knots.reflected.r ((n + 2 : Nat) - 2 : Int) = c.knots.r 0 :=
    h.r_reflected hn (by omega)
  have hknots : c.reflected.knots = c.knots.reflected := rfl
  rw [value, value, hleft, hright]
  simp only [hknots, Knots.size_reflected, hn, h.last_reflected hn, hr]
  rw [coef_reflected hlen (i := n + 2 + 1) (j := 0) rfl, coef_reflected hlen (i := n + 2) (j := 1) rfl]
  ring

theorem value_reflected (x : K) : c.reflected.value (-x) = c.value x := by
  rcases lt_or_ge x c.knots.first with hfirst | hfirst
  · exact value_reflected_of_lt h hn hlen hfirst
  rcases lt_or_ge c.knots.last x with hlast | hlast
  · -- On the reflected axis this is the other side.
    have hx : -x < c.reflected.knots.first := (neg_lt_neg hlast).trans_eq (h.first_reflected hn).symm
    have hback := value_reflected_of_lt (c := c.reflected) h.reflected ((Knots.size_reflected _).trans hn)
      (List.length_reverse.trans hlen) hx
    rw [reflected_reflected, neg_neg] at hback
    exact hback.symm
  · obtain ⟨j, hj, hle, hge, -⟩ := h.exists_interval hfirst hlast
    rw [Knots.intervals_eq hn] at hj
    obtain ⟨i, hij⟩ := Nat.exists_eq_add_of_le' (Nat.lt_succ_iff.mp hj)
    have hlow : c.knots.reflected.u i = -c.knots.u (j + 1) := h.u_reflected hn (by omega)
    have hhigh : c.knots.reflected.u (i + 1) = -c.knots.u j := h.u_reflected hn (by omega)
    have hi : i < c.knots.reflected.intervals := by
      rw [Knots.intervals, Knots.size_reflected]
      omega
    rw [value_between h (Knots.intervals_eq hn ▸ hj) hle hge,
      value_between (c := c.reflected) h.reflected hi (hlow ▸ neg_le_neg hge) (hhigh ▸ neg_le_neg hle),
      value_intervalPolynomial_reflected h hn hlen hij.symm]

theorem integral_reflected : c.reflected.integral = c.integral := by
  have hpiece {i j : Nat} (hij : i + j = n) :
      (c.reflected.intervalPolynomial i).integral (c.knots.reflected.u i) (c.knots.reflected.u (i + 1)) =
        (c.intervalPolynomial j).integral (c.knots.u j) (c.knots.u (j + 1)) := by
    have hsubst (x : K) : (c.reflected.intervalPolynomial i).value (-1 * x + 0) =
        (c.intervalPolynomial j).value x := by
      rw [neg_one_mul, add_zero]
      exact value_intervalPolynomial_reflected h hn hlen hij x
    have hturned := Cubic.integral_of_substitution hsubst (c.knots.u (j + 1)) (c.knots.u j)
    rw [h.u_reflected hn (i := i) (j := j + 1) (by omega),
      h.u_reflected hn (i := i + 1) (j := j) (by omega)]
    rw [(c.intervalPolynomial j).integral_swap] at hturned
    simpa only [neg_one_mul, add_zero, neg_neg] using hturned
  rw [integral_eq, integral_eq, ← List.sum_reverse]
  congr 1
  apply List.ext_getElem
  · simp [reflected, Knots.intervals]
  · intro i hi hi'
    have hlt : i < n + 1 := by
      simpa [Knots.intervals_eq hn] using hi'
    have hintervals : c.reflected.knots.intervals = n + 1 :=
      Knots.intervals_eq ((Knots.size_reflected _).trans hn)
    simp only [List.getElem_reverse, List.getElem_map, List.getElem_range, List.length_map,
      List.length_range, hintervals]
    exact hpiece (by omega)

end Reflected

end Curve

/-- The condition on a reflected axis, where slopes change their signs. -/
def EndCondition.reflected : EndCondition K → EndCondition K
  | .secondDerivative v => .secondDerivative v
  | .firstDerivative v => .firstDerivative (-v)

def EndConditions.reflected (ends : EndConditions K) : EndConditions K :=
  ⟨ends.right.reflected, ends.left.reflected⟩

variable [IsStrictOrderedRing K]

theorem EndCondition.HoldsAt.reflected {p q : Cubic K} (hpq : ∀ x, q.value (-x) = p.value x) {x : K}
    {e : EndCondition K} (h : e.HoldsAt x p) : e.reflected.HoldsAt (-x) q := by
  have hsubst (y : K) : q.value (-1 * y + 0) = p.value y := by
    rw [neg_one_mul, add_zero]
    exact hpq y
  have hslope := Cubic.slope_of_substitution hsubst x
  have hcurvature := Cubic.curvature_of_substitution hsubst x
  simp only [neg_one_mul, add_zero] at hslope hcurvature
  cases e with
  | secondDerivative v =>
    rw [HoldsAt, Cubic.eval_derivative_derivative] at h
    rw [EndCondition.reflected, HoldsAt, Cubic.eval_derivative_derivative, ← h, hcurvature]
    ring
  | firstDerivative v =>
    rw [HoldsAt, Cubic.eval_derivative] at h
    rw [EndCondition.reflected, HoldsAt, Cubic.eval_derivative, ← h, hslope, neg_neg]

namespace Spline

theorem interpolate_reflected {k : Knots K} (hk : k.Increasing) {values b b' : List K}
    {ends : EndConditions K} (h : interpolate k values ends = .ok b)
    (h' : interpolate k.reflected values.reverse ends.reflected = .ok b') : b' = b.reverse := by
  obtain ⟨n, hn⟩ := Nat.exists_eq_add_of_le' hk.two_le
  obtain ⟨hvalues, hlen⟩ := length_of_interpolate hn h
  have hn' : k.reflected.size = n + 2 := k.size_reflected.trans hn
  have hpolynomial {i j : Nat} (hij : i + j = n) :=
    Curve.value_intervalPolynomial_reflected (c := ⟨k, b⟩) hk hn hlen hij
  refine eq_coefs_of_samples (c := Curve.reflected ⟨k, b⟩) hk.reflected hn' ?_ ?_ ?_ ?_ h'
  · intro i hi
    have hij : n + 1 - i < n + 2 := by omega
    have hu : k.reflected.u i = -k.u (n + 1 - i : Nat) := hk.u_reflected hn (by omega)
    have hsample := value_of_interpolate (c := ⟨k, b⟩) hk hn h hij
    rw [List.getD_reverse _ (by omega), hvalues]
    show _ = (Curve.reflected ⟨k, b⟩).value (k.reflected.u i)
    rw [hu, Curve.value_reflected (c := ⟨k, b⟩) hk hn hlen]
    exact hsample.symm
  · have hleft := (right_holds_of_interpolate (c := ⟨k, b⟩) hk hn h).reflected (hpolynomial (Nat.zero_add n))
    rwa [← hk.first_reflected hn] at hleft
  · have hright := (left_holds_of_interpolate (c := ⟨k, b⟩) hk hn h).reflected (hpolynomial (Nat.add_zero n))
    rwa [← hk.last_reflected hn] at hright
  · rw [Curve.reflected, List.length_reverse, hlen]

/-- Knots, values and end conditions in other units give the same coefficients or the same failure, and the curve of any coefficients
goes through the same values. On a reflected axis coefficients are reversed. -/
theorem rescaled_and_reflected {points : List K} {k : Knots K} (hk : Knots.ofList points = .ok k)
    (values : List K) (ends : EndConditions K) :
    (∀ α β, 0 < α → ∃ k', Knots.ofList (points.map fun u => α * u + β) = .ok k' ∧
      interpolate k' values (ends.rescaled α) = interpolate k values ends ∧
      ∀ coefs c, Curve.ofCoefs k coefs = .ok c → ∃ c', Curve.ofCoefs k' coefs = .ok c' ∧
        (∀ x, c'.value (α * x + β) = c.value x) ∧ c'.integral = α * c.integral) ∧
    ∃ k', Knots.ofList (points.map fun u => -u).reverse = .ok k' ∧
      (∀ b b', interpolate k values ends = .ok b →
        interpolate k' values.reverse ends.reflected = .ok b' → b' = b.reverse) ∧
      ∀ coefs c, Curve.ofCoefs k coefs = .ok c → ∃ c', Curve.ofCoefs k' coefs.reverse = .ok c' ∧
        (∀ x, c'.value (-x) = c.value x) ∧ c'.integral = c.integral := by
  obtain ⟨rfl, hinc⟩ := Knots.ofList_eq_ok_iff.mp hk
  obtain ⟨n, hn⟩ := Nat.exists_eq_add_of_le' hinc.two_le
  constructor
  · intro α β hα
    refine ⟨k.map fun u => α * u + β, ?_, interpolate_rescaled hinc hα β values ends, ?_⟩
    · exact Knots.ofList_eq_ok_iff.mpr ⟨rfl, hinc.map (strictMono_affine hα β)⟩
    · intro coefs c hc
      obtain ⟨rfl, hlen⟩ := Curve.ofCoefs_eq_ok_iff.mp hc
      refine ⟨Curve.map (fun u => α * u + β) ⟨k, coefs⟩, ?_, ?_, ?_⟩
      · exact Curve.ofCoefs_eq_ok_iff.mpr ⟨rfl, by rw [hlen, Knots.size_map]⟩
      · exact Curve.value_map (c := ⟨k, coefs⟩) hinc hα β
      · exact Curve.integral_map (c := ⟨k, coefs⟩) hinc hα β
  · refine ⟨k.reflected, Knots.ofList_eq_ok_iff.mpr ⟨rfl, hinc.reflected⟩, ?_, ?_⟩
    · intro b b' h h'
      exact interpolate_reflected hinc h h'
    · intro coefs c hc
      obtain ⟨rfl, hlen⟩ := Curve.ofCoefs_eq_ok_iff.mp hc
      have hlen' : coefs.length = n + 4 := by rw [hlen, hn]
      refine ⟨Curve.reflected ⟨k, coefs⟩, ?_, ?_, ?_⟩
      · exact Curve.ofCoefs_eq_ok_iff.mpr ⟨rfl, by rw [List.length_reverse, hlen, Knots.size_reflected]⟩
      · exact Curve.value_reflected (c := ⟨k, coefs⟩) hinc hn hlen'
      · exact Curve.integral_reflected (c := ⟨k, coefs⟩) hinc hn hlen'

theorem rescaled_and_reflected_at_mixed_ends :
    let k : Knots ℚ := ⟨[0, 1, 3]⟩
    let ends : EndConditions ℚ := ⟨.firstDerivative 1, .secondDerivative 3⟩
    let b : List ℚ := [2, 7 / 3, -293 / 66, -19 / 33, 4]
    Knots.ofList [0, 1, 3] = .ok k ∧ interpolate k [2, -1, 4] ends = .ok b ∧
      (∃ k', Knots.ofList ([0, 1, 3].map fun u : ℚ => 10 * u + -5) = .ok k' ∧
        interpolate k' [2, -1, 4] (ends.rescaled 10) = .ok b) ∧
      ∃ k', Knots.ofList ([0, 1, 3].map fun u : ℚ => -u).reverse = .ok k' ∧
        interpolate k' [4, -1, 2] ends.reflected = .ok b.reverse := by
  intro k ends b
  have hk : Knots.ofList [0, 1, 3] = .ok k :=
    Knots.ofList_eq_ok_iff.mpr ⟨rfl, ⟨by decide, by decide⟩⟩
  have hb : interpolate k [2, -1, 4] ends = .ok b := by decide +kernel
  obtain ⟨hunits, k', hk', hreversed, -⟩ := rescaled_and_reflected hk [2, -1, 4] ends
  obtain ⟨k'', hk'', hsame, -⟩ := hunits 10 (-5) (by norm_num)
  have hpoints : k' = ⟨[-3, -1, 0]⟩ :=
    congrArg Knots.mk ((Knots.ofList_eq_ok_iff.mp hk').1.trans (by decide))
  have hsuccess : ∃ b', interpolate k' [4, -1, 2] ends.reflected = .ok b' := by
    rw [hpoints]
    exact ⟨[4, -19 / 33, -293 / 66, 7 / 3, 2], by decide +kernel⟩
  obtain ⟨b', hb'⟩ := hsuccess
  exact ⟨hk, hb, ⟨k'', hk'', hsame.trans hb⟩, k', hk', hreversed b b' hb hb' ▸ hb'⟩

end Spline
end LifetimeEfficiency
