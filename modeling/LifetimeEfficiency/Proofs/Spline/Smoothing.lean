import LifetimeEfficiency.Proofs.Banded.Columns
import LifetimeEfficiency.Proofs.Spline.Curvature
import LifetimeEfficiency.Proofs.Spline.Pivots
/-!
# Smoothing minimises

The curvatures that smoothing solves for are those of the natural spline through its own result. The distance and the roughness of any
other values then exceed those of the result by a positive form in the difference.
-/
namespace LifetimeEfficiency

/-! What holds whatever the numbers are: the bands are those of a system, and its outcome is that of smoothing. -/

namespace Spline

variable {K : Type} [Scalar K]

theorem exists_smoothingSystem {k : Knots K} (h3 : 3 ≤ k.size) (errors : List K) (mu : K) :
    ∃ A, smoothingSystem k errors mu = .ok A ∧ A.dimension = k.size - 2 := by
  refine ⟨⟨_, _, _⟩, Pentadiagonal.ofBands_eq_ok_iff.mpr ⟨rfl, ?_, ?_, ?_⟩, ?_⟩
  · apply List.ne_nil_of_length_pos
    rw [List.length_map, List.length_range]
    omega
  · simp only [List.length_map, List.length_range]
  · simp only [List.length_map, List.length_range]
  · rw [Pentadiagonal.dimension, List.length_map, List.length_range]

theorem smooth_eq {k : Knots K} {values errors : List K} {smoothing : K} {A : Pentadiagonal K}
    (h3 : 3 ≤ k.size) (hvalues : values.length = k.size) (herrors : errors.length = k.size)
    (hrange : isSmoothing smoothing = true) (hzero : (smoothing == 0) = false)
    (hA : smoothingSystem k errors (curvatureWeight smoothing) = .ok A) :
    smooth k values errors smoothing =
      ((A.solve (secondDifferences k values)).mapError .linear).map
        (corrected k values errors (curvatureWeight smoothing)) := by
  have hfew : decide (k.size < 3) = false := decide_eq_false (Nat.not_lt.mpr h3)
  simp only [smooth, hrange, hvalues, herrors, hfew, hzero, hA, checkLength, bind, Except.bind,
    SplineError.ofBanded]
  cases A.solve (secondDifferences k values) with
  | error e => rfl
  | ok b => rfl

theorem smooth_eq_map {k : Knots K} {values errors : List K} {smoothing : K} {A : Pentadiagonal K}
    (h3 : 3 ≤ k.size) (hvalues : values.length = k.size) (herrors : errors.length = k.size)
    (hrange : isSmoothing smoothing = true) (hzero : (smoothing == 0) = false)
    (hA : smoothingSystem k errors (curvatureWeight smoothing) = .ok A) (hdim : A.dimension = k.size - 2) :
    smooth k values errors smoothing = (A.factor.map fun steps =>
      corrected k values errors (curvatureWeight smoothing) (Pentadiagonal.backward steps
        (Pentadiagonal.scaleDown steps
          (Pentadiagonal.forward 0 0 0 steps (secondDifferences k values))))).mapError .linear := by
  have hrhs : (secondDifferences k values).length = A.dimension := by
    rw [hdim, secondDifferences, List.length_map, List.length_range]
  rw [smooth_eq h3 hvalues herrors hrange hzero hA, Pentadiagonal.solve_eq_map hrhs]
  cases A.factor with
  | error e => rfl
  | ok steps => rfl

theorem smooth_unchanged {k : Knots K} {values errors : List K} {smoothing : K}
    (hrange : isSmoothing smoothing = true) (hvalues : values.length = k.size)
    (herrors : errors.length = k.size) (hdone : (decide (k.size < 3) || smoothing == 0) = true) :
    smooth k values errors smoothing = .ok values := by
  simp only [smooth, hrange, checkLength, hvalues, herrors, hdone]
  rfl

theorem smooth_refuses {k : Knots K} {errors : List K} {smoothing : K} {m : Nat}
    (h : ¬ (isSmoothing smoothing = true ∧ m = k.size ∧ errors.length = k.size)) :
    ∃ e, ∀ values, values.length = m → smooth k values errors smoothing = .error e := by
  cases hrange : isSmoothing smoothing with
  | false =>
    refine ⟨.smoothingOutOfRange smoothing, fun values _ => ?_⟩
    rw [smooth, hrange]
    rfl
  | true =>
    by_cases hm : m = k.size
    · have herrors : errors.length ≠ k.size := fun herrors => h ⟨hrange, hm, herrors⟩
      refine ⟨.length "sample errors" k.size errors.length, fun values hvalues => ?_⟩
      simp only [smooth, hrange, checkLength, hvalues.trans hm, herrors]
      rfl
    · refine ⟨.length "sampled values" k.size m, fun values hvalues => ?_⟩
      simp only [smooth, hrange, checkLength, hvalues, hm]
      rfl

end Spline
/-! From here on the numbers are exact. -/

variable {K : Type} [Field K] [LinearOrder K]

omit [LinearOrder K] in
/-- Differences move from one factor of a sum of products to the other. -/
theorem sum_by_parts (f g : Nat → K) (n : Nat) :
    ∑ i ∈ Finset.range (n + 1), f i * (g (i + 1) - g i) =
      f n * g (n + 1) - f 0 * g 0 - ∑ i ∈ Finset.range n, g (i + 1) * (f (i + 1) - f i) := by
  induction n with
  | zero =>
    rw [Finset.sum_range_one, Finset.sum_range_zero]
    ring
  | succ n ih =>
    rw [Finset.sum_range_succ, ih, Finset.sum_range_succ _ n]
    ring

namespace Knots

variable {k : Knots K} {n : Nat} {v v' β γ : Nat → K}

/-- Half the curvatures of two splines in the bilinear form of roughness. -/
def bending (k : Knots K) (n : Nat) (β γ : Nat → K) : K :=
  ∑ i ∈ Finset.range (n + 1), k.width i *
    (2 * β i * γ i + β i * γ (i + 1) + β (i + 1) * γ i + 2 * β (i + 1) * γ (i + 1))

theorem bending_comm (k : Knots K) (n : Nat) (β γ : Nat → K) : k.bending n β γ = k.bending n γ β := by
  unfold bending
  refine Finset.sum_congr rfl fun i _ => ?_
  ring

theorem bending_sub_sub (k : Knots K) (n : Nat) (β γ : Nat → K) :
    k.bending n γ γ = k.bending n β β + 2 * k.bending n β (fun i => γ i - β i) +
      k.bending n (fun i => γ i - β i) (fun i => γ i - β i) := by
  unfold bending
  rw [Finset.mul_sum, ← Finset.sum_add_distrib, ← Finset.sum_add_distrib]
  refine Finset.sum_congr rfl fun i _ => ?_
  ring

theorem bending_term_nonneg [IsStrictOrderedRing K] (hk : k.Increasing) (hn : k.size = n + 2) (β : Nat → K) {i : Nat}
    (hi : i ∈ Finset.range (n + 1)) : 0 ≤ k.width i *
      (2 * β i * β i + β i * β (i + 1) + β (i + 1) * β i + 2 * β (i + 1) * β (i + 1)) := by
  have hwidth : 0 ≤ k.width i := (hk.width_pos (intervals_eq hn ▸ Finset.mem_range.mp hi)).le
  have hform : 2 * β i * β i + β i * β (i + 1) + β (i + 1) * β i + 2 * β (i + 1) * β (i + 1) =
      β i ^ 2 + β (i + 1) ^ 2 + (β i + β (i + 1)) ^ 2 := by
    ring
  rw [hform]
  positivity

theorem bending_nonneg [IsStrictOrderedRing K] (hk : k.Increasing) (hn : k.size = n + 2) (β : Nat → K) :
    0 ≤ k.bending n β β :=
  Finset.sum_nonneg fun _ hi => bending_term_nonneg hk hn β hi

theorem bending_eq (k : Knots K) (n : Nat) (β : Nat → K) (h0 : γ 0 = 0) (hlast : γ (n + 1) = 0) :
    k.bending n β γ = ∑ i ∈ Finset.range n, γ (i + 1) *
      (k.width i * β i + k.p (i + 1) * β (i + 1) + k.width (i + 1) * β (i + 2)) := by
  have hsplit : k.bending n β γ =
      ∑ i ∈ Finset.range (n + 1), γ i * (k.width i * (2 * β i + β (i + 1))) +
        ∑ i ∈ Finset.range (n + 1), γ (i + 1) * (k.width i * (β i + 2 * β (i + 1))) := by
    rw [bending, ← Finset.sum_add_distrib]
    refine Finset.sum_congr rfl fun i _ => ?_
    ring
  rw [hsplit, Finset.sum_range_succ', h0, Finset.sum_range_succ _ n, hlast, zero_mul, zero_mul,
    add_zero, add_zero, ← Finset.sum_add_distrib]
  refine Finset.sum_congr rfl fun i _ => ?_
  rw [p, add_sub_cancel_right, Nat.cast_succ, Scalar.exact_ofNat]
  ring

theorem HalfCurvatures.bending_eq (hn : k.size = n + 2) (hβ : k.HalfCurvatures v β)
    (hγ : k.HalfCurvatures v' γ) :
    k.bending n β γ = ∑ i ∈ Finset.range n, γ (i + 1) * k.secondDifference v i := by
  have hlast : γ (n + 1) = 0 := by
    have h := hγ.last
    rwa [hn] at h
  rw [Knots.bending_eq k n β hγ.first hlast]
  refine Finset.sum_congr rfl fun i hi => ?_
  have hlt := Finset.mem_range.mp hi
  rw [hβ.inner (by omega)]

theorem secondDifference_sub (k : Knots K) (v v' : Nat → K) (i : Nat) :
    k.secondDifference (fun j => v j - v' j) i =
      k.secondDifference v i - k.secondDifference v' i := by
  unfold secondDifference
  ring

theorem HalfCurvatures.sub (hβ : k.HalfCurvatures v β) (hγ : k.HalfCurvatures v' γ) :
    k.HalfCurvatures (fun i => v i - v' i) (fun i => β i - γ i) where
  first := by rw [hβ.first, hγ.first, sub_zero]
  last := by rw [hβ.last, hγ.last, sub_zero]
  inner hi := by
    rw [secondDifference_sub, ← hβ.inner hi, ← hγ.inner hi]
    ring

/-- How much curvatures pull the value at a knot; the ends are pulled from one side alone. -/
def tension (k : Knots K) (β : Nat → K) (i : Nat) : K :=
  k.r i * (β (i + 1) - β i) - if i = 0 then 0 else k.r (i - 1 : Int) * (β i - β (i - 1))

/-- Second differences and tensions are adjoint. -/
theorem sum_tension (k : Knots K) (n : Nat) (v : Nat → K) (h0 : β 0 = 0) (hlast : β (n + 1) = 0)
    (hlast' : β (n + 2) = 0) :
    ∑ i ∈ Finset.range (n + 2), v i * k.tension β i =
      ∑ i ∈ Finset.range n, β (i + 1) * k.secondDifference v i := by
  have hpull := sum_by_parts (fun i => k.r i * (β (i + 1) - β i)) v (n + 1)
  have hdiff := sum_by_parts (fun i => k.r i * (v i - v (i + 1))) β n
  have htension : ∑ i ∈ Finset.range (n + 1), v (i + 1) * k.tension β (i + 1) =
      ∑ i ∈ Finset.range (n + 1), v (i + 1) *
        (k.r (i + 1 : Nat) * (β (i + 2) - β (i + 1)) - k.r i * (β (i + 1) - β i)) := by
    refine Finset.sum_congr rfl fun i _ => ?_
    rw [tension, if_neg (Nat.succ_ne_zero i), Nat.cast_succ, add_sub_cancel_right,
      Nat.add_sub_cancel]
  have hsecond : ∑ i ∈ Finset.range n, β (i + 1) * k.secondDifference v i =
      -∑ i ∈ Finset.range n, β (i + 1) *
        (k.r (i + 1 : Nat) * (v (i + 1) - v (i + 2)) - k.r i * (v i - v (i + 1))) := by
    rw [← Finset.sum_neg_distrib]
    refine Finset.sum_congr rfl fun i _ => ?_
    rw [secondDifference, Nat.cast_succ]
    ring
  have hsame : ∑ i ∈ Finset.range (n + 1), k.r i * (v i - v (i + 1)) * (β (i + 1) - β i) =
      -∑ i ∈ Finset.range (n + 1), k.r i * (β (i + 1) - β i) * (v (i + 1) - v i) := by
    rw [← Finset.sum_neg_distrib]
    refine Finset.sum_congr rfl fun i _ => ?_
    ring
  have hstart : k.tension β 0 = k.r (0 : Nat) * (β 1 - β 0) := by
    rw [tension, if_pos rfl, sub_zero]
  rw [Finset.sum_range_succ, hlast, hlast', sub_self, mul_zero, zero_mul, zero_mul, add_zero] at hpull
  rw [h0, hlast, mul_zero, mul_zero, sub_self, zero_sub] at hdiff
  rw [Finset.sum_range_succ', htension, hsecond, hstart]
  linear_combination hpull - hsame + hdiff

end Knots

omit [LinearOrder K] in
theorem getD_map_range (f : Nat → K) (m i : Nat) :
    ((List.range m).map f).getD i 0 = if i < m then f i else 0 := by
  by_cases h : i < m <;> simp [h]

namespace Spline

variable {k : Knots K} {values errors b : List K} {mu : K} {n : Nat}

/-- Half the curvatures at all knots, from those at the inner ones. -/
def padded (b : List K) (i : Nat) : K := (0 :: b).getD i 0

omit [LinearOrder K] in
theorem padded_eq_zero {i : Nat} (hi : b.length < i) : padded b i = 0 :=
  List.getD_eq_default _ _ (by simpa using hi)

omit [LinearOrder K] in
theorem padded_succ (b : List K) (i : Nat) : padded (0 :: b) (i + 1) = padded b i := rfl

theorem tension_padded (k : Knots K) (b : List K) (i : Nat) :
    k.tension (padded b) i =
      k.r i * (padded (0 :: b) (i + 2) - padded (0 :: b) (i + 1)) -
        k.r (i - 1 : Int) * (padded (0 :: b) (i + 1) - padded (0 :: b) i) := by
  cases i with
  | zero => simp [Knots.tension, padded]
  | succ i =>
    rw [Knots.tension, if_neg (Nat.succ_ne_zero i)]
    rfl

theorem correction_eq (hn : k.size = n + 2) (hb : b.length = n) (i : Nat) :
    correction k b i = k.tension (padded b) i := by
  have hget (a : K) (j : Nat) : (if j < n then a * b.getD j 0 else 0) = a * b.getD j 0 := by
    by_cases hj : j < n
    · exact if_pos hj
    · rw [if_neg hj, List.getD_eq_default _ _ (by omega), mul_zero]
  have hshift (a : K) (j : Nat) : (if j ≤ i ∧ i - j < n then a * b.getD (i - j) 0 else 0) =
      if j ≤ i then a * b.getD (i - j) 0 else 0 := by
    by_cases hj : j ≤ i
    · simp only [hj, true_and, if_true, hget]
    · simp only [hj, false_and, if_false]
  have hm : k.size - 2 = n := by omega
  simp only [correction, tension_padded, hm, Scalar.exact_zero, hget, hshift, Knots.f]
  match i with
  | 0 =>
    simp [padded]
  | 1 =>
    simp [padded]
    ring
  | i + 2 =>
    simp [padded]
    ring

theorem smoothingSystem_eq (hn : k.size = n + 2) {A : Pentadiagonal K}
    (hA : smoothingSystem k errors mu = .ok A) :
    A.dimension = n ∧
      (∀ i, A.diag.getD i 0 = if i < n then smoothingDiagonal k (variance errors) mu i else 0) ∧
      (∀ i, A.first.getD i 0 = if i + 1 < n then smoothingFirst k (variance errors) mu i else 0) ∧
      ∀ i, A.second.getD i 0 = if i + 2 < n then smoothingSecond k (variance errors) mu i else 0 := by
  have hm : k.size - 2 = n := by omega
  obtain ⟨rfl, -⟩ := Pentadiagonal.ofBands_eq_ok_iff.mp hA
  simp only [hm, getD_map_range, Pentadiagonal.dimension, List.length_map, List.length_range,
    Nat.lt_sub_iff_add_lt, implies_true, and_self]

theorem getD_secondDifferences (hn : k.size = n + 2) {i : Nat} (hi : i < n) :
    (secondDifferences k values).getD i 0 = k.secondDifference (fun j => values.getD j 0) i := by
  have hm : k.size - 2 = n := by omega
  rw [secondDifferences, hm, getD_map_range, if_pos hi, Scalar.exact_zero]
  rfl

/-- The bands are those of the tridiagonal system and, weighted, of second differences of the variances times the tensions. Entries
that a band lacks would meet unknowns that are zero. -/
theorem times_smoothingSystem (hn : k.size = n + 2) {A : Pentadiagonal K}
    (hA : smoothingSystem k errors mu = .ok A) (hb : b.length ≤ n) {i : Nat} (hi : i < n) :
    A.times b i =
      k.width i * padded b i + k.p (i + 1) * padded b (i + 1) + k.width (i + 1) * padded b (i + 2) +
        mu * k.secondDifference (fun j => variance errors j * k.tension (padded b) j) i := by
  obtain ⟨-, hdiag, hfirst, hsecond⟩ := smoothingSystem_eq hn hA
  let x := padded (0 :: b)
  have htimes : A.times b i = (0 :: 0 :: A.second).getD i 0 * x i + (0 :: A.first).getD i 0 * x (i + 1) +
      A.diag.getD i 0 * x (i + 2) + A.first.getD i 0 * x (i + 3) + A.second.getD i 0 * x (i + 4) := rfl
  have hzero {j : Nat} (hj : n + 2 ≤ j) : x j = 0 := padded_eq_zero (by rw [List.length_cons]; omega)
  have h0 : (0 :: 0 :: A.second).getD i 0 * x i =
      mu * k.r (i - 1 : Int) * k.r i * variance errors i * x i := by
    match i, hi with
    | 0, _ => simp [x, padded]
    | 1, _ => simp [x, padded]
    | i + 2, hi =>
      have hcast : ((i + 2 : Nat) : Int) - 1 = i + 1 := by
        push_cast
        ring
      show A.second.getD i 0 * x (i + 2) = _
      rw [hsecond, if_pos hi, smoothingSecond, hcast, Nat.cast_add, Nat.cast_two]
  have h1 : (0 :: A.first).getD i 0 * x (i + 1) = (k.width i + mu * (k.f i * k.r i * variance errors i +
      k.r i * k.f (i + 1) * variance errors (i + 1))) * x (i + 1) := by
    cases i with
    | zero => simp [x, padded]
    | succ i =>
      show A.first.getD i 0 * x (i + 2) = _
      rw [hfirst, if_pos hi, smoothingFirst, Nat.cast_succ, add_assoc (i : Int) 1 1, one_add_one_eq_two]
  have h3 : A.first.getD i 0 * x (i + 3) = smoothingFirst k (variance errors) mu i * x (i + 3) := by
    by_cases hlt : i + 1 < n
    · rw [hfirst, if_pos hlt]
    · rw [hzero (by omega), mul_zero, mul_zero]
  have h4 : A.second.getD i 0 * x (i + 4) = smoothingSecond k (variance errors) mu i * x (i + 4) := by
    by_cases hlt : i + 2 < n
    · rw [hsecond, if_pos hlt]
    · rw [hzero (by omega), mul_zero, mul_zero]
  have hcast (m : Int) : m + 2 - 1 = m + 1 := by ring
  rw [htimes, h0, h1, hdiag, if_pos hi, h3, h4, Knots.secondDifference, tension_padded, tension_padded,
    tension_padded]
  simp only [smoothingDiagonal, smoothingFirst, smoothingSecond, Knots.f, ← padded_succ b, Nat.cast_add,
    Nat.cast_one, Nat.cast_two, add_sub_cancel_right, hcast, x]
  ring

theorem smoothing_row (hn : k.size = n + 2) {A : Pentadiagonal K}
    (hA : smoothingSystem k errors mu = .ok A)
    (hb : A.solve (secondDifferences k values) = .ok b) {i : Nat} (hi : i < n) :
    k.width i * padded b i + k.p (i + 1) * padded b (i + 1) + k.width (i + 1) * padded b (i + 2) +
        mu * k.secondDifference (fun j => variance errors j * k.tension (padded b) j) i =
      k.secondDifference (fun j => values.getD j 0) i := by
  have hdim := (smoothingSystem_eq hn hA).1
  have hlen : b.length = n := (Pentadiagonal.length_of_solve hb).trans hdim
  rw [← times_smoothingSystem hn hA hlen.le hi, Pentadiagonal.row_of_solve hb (hdim ▸ hi),
    getD_secondDifferences hn hi]

variable [IsStrictOrderedRing K]

section Smooth

variable {smoothing : K} {z : List K}

theorem curvatureWeight_nonneg (hpos : 0 ≤ smoothing) (hlt : smoothing < 1) :
    0 ≤ curvatureWeight smoothing := by
  have hweight : 0 < 1 - smoothing := sub_pos.mpr hlt
  simp only [curvatureWeight, Scalar.exact_ofNat, Scalar.exact_one]
  positivity

omit [IsStrictOrderedRing K] in
/-- The values do not decide what becomes of them: all lists of one length are refused for one reason, left alone, or corrected with
the factors of one system. -/
theorem smooth_outcome (k : Knots K) (errors : List K) (smoothing : K) (m : Nat) :
    (∃ e, ∀ values, values.length = m → smooth k values errors smoothing = .error e) ∨
      (k.size < 3 ∨ smoothing = 0) ∧
        (∀ values, values.length = m → smooth k values errors smoothing = .ok values) ∨
      (3 ≤ k.size ∧ 0 < smoothing ∧ smoothing < 1) ∧ m = k.size ∧ ∃ steps, ∀ values, values.length = m →
        smooth k values errors smoothing = .ok (corrected k values errors (curvatureWeight smoothing)
          (Pentadiagonal.backward steps (Pentadiagonal.scaleDown steps
            (Pentadiagonal.forward 0 0 0 steps (secondDifferences k values))))) := by
  by_cases hinvalid : ¬ (isSmoothing smoothing = true ∧ m = k.size ∧ errors.length = k.size)
  · exact .inl (smooth_refuses hinvalid)
  obtain ⟨hrange, rfl, herrors⟩ := not_not.mp hinvalid
  by_cases hmore : k.size < 3 ∨ smoothing = 0
  · right; left
    refine ⟨hmore, fun values hvalues => smooth_unchanged hrange hvalues herrors ?_⟩
    simpa using hmore
  obtain ⟨h3, hne⟩ := not_or.mp hmore
  have h3 := not_lt.mp h3
  have hzero : (smoothing == 0) = false := by
    simpa using hne
  rw [← Scalar.exact_zero] at hzero
  obtain ⟨A, hA, hdim⟩ := exists_smoothingSystem h3 errors (curvatureWeight smoothing)
  have hsmooth (values : List K) (hvalues : values.length = k.size) :=
    smooth_eq_map h3 hvalues herrors hrange hzero hA hdim
  cases hsteps : A.factor with
  | error e =>
    left
    refine ⟨.linear e, fun values hvalues => ?_⟩
    rw [hsmooth values hvalues, hsteps]
    rfl
  | ok steps =>
    right; right
    simp only [isSmoothing, Scalar.exact_zero, Scalar.exact_one, Bool.and_eq_true,
      decide_eq_true_eq] at hrange
    refine ⟨⟨h3, hrange.1.lt_of_ne' hne, hrange.2⟩, rfl, steps, fun values hvalues => ?_⟩
    rw [hsmooth values hvalues, hsteps, Scalar.exact_zero]
    rfl

omit [IsStrictOrderedRing K] in
theorem smooth_eq_ok_iff (h3 : 3 ≤ k.size) (hpos : 0 < smoothing) (hlt : smoothing < 1) :
    smooth k values errors smoothing = .ok z ↔
      values.length = k.size ∧ errors.length = k.size ∧
        ∃ A b, smoothingSystem k errors (curvatureWeight smoothing) = .ok A ∧
          A.solve (secondDifferences k values) = .ok b ∧
          z = corrected k values errors (curvatureWeight smoothing) b := by
  have hrange : (!isSmoothing smoothing) = false := by
    simp [isSmoothing, hpos.le, hlt]
  have hmore : (decide (k.size < 3) || smoothing == 0) = false := by
    simp [Nat.not_lt.mpr h3, hpos.ne']
  unfold smooth
  simp only [hrange, Scalar.exact_zero, hmore, Bool.false_eq_true, if_false, bind_eq_ok_iff,
    checkLength_eq_ok_iff, SplineError.ofBanded, mapError_eq_ok_iff]
  constructor
  · rintro ⟨-, hvalues, -, herrors, b, ⟨A, hA, hb⟩, hz⟩
    cases hz
    exact ⟨hvalues, herrors, A, b, hA, hb, rfl⟩
  · rintro ⟨hvalues, herrors, A, b, hA, hb, rfl⟩
    exact ⟨(), hvalues, (), herrors, b, ⟨A, hA, hb⟩, rfl⟩

theorem tension_of_smooth (hn : k.size = n + 2) (h1 : 1 ≤ n) (hpos : 0 < smoothing)
    (hlt : smoothing < 1) (h : smooth k values errors smoothing = .ok z) :
    z.length = n + 2 ∧ ∃ b : List K,
      k.HalfCurvatures (fun i => z.getD i 0) (padded b) ∧ padded b (n + 2) = 0 ∧
      ∀ i < n + 2, z.getD i 0 = values.getD i 0 -
        curvatureWeight smoothing * (variance errors i * k.tension (padded b) i) := by
  obtain ⟨hvalues, -, A, b, hA, hb, rfl⟩ := (smooth_eq_ok_iff (by omega) hpos hlt).mp h
  have hlen : b.length = n := (Pentadiagonal.length_of_solve hb).trans (smoothingSystem_eq hn hA).1
  have hz {i : Nat} (hi : i < n + 2) :
      (corrected k values errors (curvatureWeight smoothing) b).getD i 0 = values.getD i 0 -
        curvatureWeight smoothing * (variance errors i * k.tension (padded b) i) := by
    rw [corrected, getD_map_range, if_pos (by omega), correction_eq hn hlen, Scalar.exact_zero, mul_assoc]
  refine ⟨?_, b, ⟨rfl, ?_, ?_⟩, padded_eq_zero (by omega), fun i hi => hz hi⟩
  · rw [corrected, List.length_map, List.length_range, hvalues, hn]
  · exact padded_eq_zero (by omega)
  · intro i hi
    have hrow := smoothing_row hn hA hb (i := i) (by omega)
    simp only [Knots.secondDifference] at hrow ⊢
    rw [hz (by omega), hz (by omega), hz (by omega)]
    linear_combination hrow

end Smooth

section Minimiser

variable {z v : Nat → K} {y σ : Nat → K}

def misfit (y σ v : Nat → K) (n : Nat) : K := ∑ i ∈ Finset.range n, ((y i - v i) / σ i) ^ 2

omit [LinearOrder K] [IsStrictOrderedRing K] in
theorem misfit_eq (hσ : ∀ i < n, σ i ≠ 0) {t : Nat → K}
    (hz : ∀ i < n, z i = y i - mu * (σ i * σ i * t i)) :
    misfit y σ v n = misfit y σ z n + misfit v σ z n -
      2 * mu * ∑ i ∈ Finset.range n, (v i - z i) * t i := by
  rw [misfit, misfit, misfit, Finset.mul_sum, ← Finset.sum_add_distrib, ← Finset.sum_sub_distrib]
  refine Finset.sum_congr rfl fun i hi => ?_
  have hlt := Finset.mem_range.mp hi
  have hne := hσ i hlt
  have hy : y i = z i + mu * (σ i * σ i * t i) := by
    rw [hz i hlt]
    ring
  rw [hy]
  field_simp
  ring

omit [IsStrictOrderedRing K] in
/-- Any other values exceed the smoothed ones by a form in the difference. -/
theorem energy_eq (hn : k.size = n + 2) (hσ : ∀ i < n + 2, σ i ≠ 0) {β γ τ : Nat → K}
    (hβ : k.HalfCurvatures z β) (hγ : k.HalfCurvatures v γ) (hτ : k.HalfCurvatures z τ)
    (hend : τ (n + 2) = 0) (hz : ∀ i < n + 2, z i = y i - mu * (σ i * σ i * k.tension τ i)) :
    misfit y σ v (n + 2) + mu * k.bending n γ γ =
      misfit y σ z (n + 2) + mu * k.bending n β β + misfit v σ z (n + 2) +
        mu * k.bending n (fun i => γ i - β i) (fun i => γ i - β i) := by
  have hδ := hγ.sub hβ
  have hlast : τ (n + 1) = 0 := by
    have hlast := hτ.last
    rwa [hn] at hlast
  have hpull : ∑ i ∈ Finset.range (n + 2), (v i - z i) * k.tension τ i =
      k.bending n β (fun i => γ i - β i) := by
    calc
      ∑ i ∈ Finset.range (n + 2), (v i - z i) * k.tension τ i =
          ∑ i ∈ Finset.range n, τ (i + 1) * k.secondDifference (fun i => v i - z i) i :=
        k.sum_tension n _ hτ.first hlast hend
      _ = k.bending n (fun i => γ i - β i) τ := (hδ.bending_eq hn hτ).symm
      _ = k.bending n τ (fun i => γ i - β i) := k.bending_comm n _ _
      _ = k.bending n β (fun i => γ i - β i) :=
        (hτ.bending_eq hn hδ).trans (hβ.bending_eq hn hδ).symm
  rw [misfit_eq hσ hz, hpull, k.bending_sub_sub n β γ]
  ring

theorem misfit_nonneg (y σ v : Nat → K) (n : Nat) : 0 ≤ misfit y σ v n :=
  Finset.sum_nonneg fun _ _ => sq_nonneg _

theorem eq_of_misfit_eq_zero (hσ : ∀ i < n, σ i ≠ 0) (h : misfit v σ z n = 0) {i : Nat} (hi : i < n) :
    v i = z i := by
  have hterm := (Finset.sum_eq_zero_iff_of_nonneg fun _ _ => sq_nonneg _).mp h i (Finset.mem_range.mpr hi)
  have hquotient := pow_eq_zero_iff two_ne_zero |>.mp hterm
  exact sub_eq_zero.mp ((div_eq_zero_iff.mp hquotient).resolve_right (hσ i hi))

end Minimiser

theorem interpolate_of_interpolate {ends : EndConditions K} (hn : k.size = n + 2) {b : List K}
    (h : interpolate k values ends = .ok b) {v : List K} (hv : v.length = n + 2) :
    ∃ b', interpolate k v ends = .ok b' := by
  have hk : 2 ≤ k.size := by omega
  obtain ⟨-, steps, hsteps, -⟩ := (interpolate_eq_ok_iff hk).mp h
  rw [rows_equations_congr k values v] at hsteps
  exact ⟨_, (interpolate_eq_ok_iff hk).mpr ⟨hv.trans hn.symm, steps, hsteps, rfl⟩⟩

section Objective

/-- The natural spline through values, where there is one. -/
noncomputable def naturalSpline (k : Knots ℝ) (v : List ℝ) : Curve ℝ :=
  ⟨k, (interpolate k v EndConditions.natural).toOption.getD []⟩

/-- The distance from the data, traded against the roughness of the natural spline. -/
noncomputable def objective (k : Knots ℝ) (values errors : List ℝ) (smoothing : ℝ) (v : List ℝ) : ℝ :=
  (1 - smoothing) *
      misfit (fun i => values.getD i 0) (fun i => errors.getD i 0) (fun i => v.getD i 0) k.size +
    smoothing * (naturalSpline k v).roughness

variable {k : Knots ℝ} {values errors : List ℝ} {smoothing : ℝ} {n : Nat}

theorem objective_eq (values errors : List ℝ) (hk : k.Increasing) (hn : k.size = n + 2)
    (hlt : smoothing < 1) {v b : List ℝ}
    (h : interpolate k v EndConditions.natural = .ok b) :
    ∃ γ, k.HalfCurvatures (fun i => v.getD i 0) γ ∧
      objective k values errors smoothing v = (1 - smoothing) *
        (misfit (fun i => values.getD i 0) (fun i => errors.getD i 0) (fun i => v.getD i 0) (n + 2) +
          curvatureWeight smoothing * k.bending n γ γ) := by
  have hspline : naturalSpline k v = ⟨k, b⟩ := by
    rw [naturalSpline, h]
    rfl
  refine ⟨Curve.halfCurvature ⟨k, b⟩,
    Curve.halfCurvatures_of_interpolate (c := ⟨k, b⟩) hk hn h, ?_⟩
  have hrough := Curve.roughness_eq (c := ⟨k, b⟩) hk hn h
  have hbending : k.bending n (Curve.halfCurvature ⟨k, b⟩) (Curve.halfCurvature ⟨k, b⟩) =
      2 * ∑ i ∈ Finset.range (n + 1), k.width i *
        (Curve.halfCurvature ⟨k, b⟩ i ^ 2 +
          Curve.halfCurvature ⟨k, b⟩ i * Curve.halfCurvature ⟨k, b⟩ (i + 1) +
          Curve.halfCurvature ⟨k, b⟩ (i + 1) ^ 2) := by
    rw [Knots.bending, Finset.mul_sum]
    refine Finset.sum_congr rfl fun i _ => ?_
    ring
  have hne : 1 - smoothing ≠ 0 := (sub_pos.mpr hlt).ne'
  rw [objective, hspline, hrough, hbending, hn, curvatureWeight]
  simp only [Scalar.exact_ofNat, Scalar.exact_one]
  field_simp
  ring

/-- What any other values exceed the smoothed ones by: their distance from them, and the roughness of the difference. -/
theorem objective_eq_add (hk : k.Increasing) (hn : k.size = n + 2) (h1 : 1 ≤ n)
    (hpos : 0 < smoothing) (hlt : smoothing < 1) (hσ : ∀ i < n + 2, errors.getD i 0 ≠ 0)
    {z v bz bv : List ℝ} (h : smooth k values errors smoothing = .ok z)
    (hz : interpolate k z EndConditions.natural = .ok bz)
    (hv : interpolate k v EndConditions.natural = .ok bv) :
    ∃ δ : Nat → ℝ, objective k values errors smoothing v =
      objective k values errors smoothing z + (1 - smoothing) *
        (misfit (fun i => v.getD i 0) (fun i => errors.getD i 0) (fun i => z.getD i 0) (n + 2) +
          curvatureWeight smoothing * k.bending n δ δ) := by
  obtain ⟨-, half, hhalf, hend, hvalue⟩ := tension_of_smooth hn h1 hpos hlt h
  simp only [variance, Scalar.exact_zero] at hvalue
  obtain ⟨β, hβ, hobjective⟩ := objective_eq values errors hk hn hlt hz
  obtain ⟨γ, hγ, hobjective'⟩ := objective_eq values errors hk hn hlt hv
  refine ⟨fun i => γ i - β i, ?_⟩
  rw [hobjective, hobjective', energy_eq hn hσ hβ hγ hhalf hend hvalue]
  ring

/-- Smoothing returns the one list of values for which the distance from the data and the roughness are least together. -/
theorem smooth_minimises {points z : List ℝ} (hk : Knots.ofList points = .ok k)
    (h3 : 3 ≤ points.length) (hnatural : ∃ w b, interpolate k w EndConditions.natural = .ok b)
    (herrors : ∀ σ ∈ errors, 0 < σ) (hpos : 0 < smoothing) (hlt : smoothing < 1)
    (h : smooth k values errors smoothing = .ok z) :
    z.length = points.length ∧
      (∀ v : List ℝ, v.length = points.length →
        ∃ b, interpolate k v EndConditions.natural = .ok b) ∧
      ∀ v : List ℝ, v.length = points.length →
        objective k values errors smoothing z ≤ objective k values errors smoothing v ∧
        (objective k values errors smoothing v = objective k values errors smoothing z → v = z) := by
  obtain ⟨rfl, hinc⟩ := Knots.ofList_eq_ok_iff.mp hk
  obtain ⟨n, hn⟩ := Nat.exists_eq_add_of_le' hinc.two_le
  have hpoints : k.points.length = n + 2 := hn
  obtain ⟨w, b, hw⟩ := hnatural
  obtain ⟨-, hlength, -⟩ := (smooth_eq_ok_iff h3 hpos hlt).mp h
  have hσ (i : Nat) (hi : i < n + 2) : errors.getD i 0 ≠ 0 := by
    rw [List.getD_eq_getElem _ _ (by omega)]
    exact (herrors _ (List.getElem_mem _)).ne'
  have hz : z.length = n + 2 := (tension_of_smooth hn (by omega) hpos hlt h).1
  have hsucceeds {v : List ℝ} (hv : v.length = n + 2) := interpolate_of_interpolate hn hw hv
  refine ⟨hz.trans hn.symm, fun v hv => hsucceeds (hv.trans hn), fun v hv => ?_⟩
  have hv' : v.length = n + 2 := hv.trans hn
  obtain ⟨bz, hbz⟩ := hsucceeds hz
  obtain ⟨bv, hbv⟩ := hsucceeds hv'
  obtain ⟨δ, hexcess⟩ := objective_eq_add hinc hn (by omega) hpos hlt hσ h hbz hbv
  have hweight : 0 < 1 - smoothing := sub_pos.mpr hlt
  have hbend := mul_nonneg (curvatureWeight_nonneg hpos.le hlt) (Knots.bending_nonneg hinc hn δ)
  have hdist := misfit_nonneg (fun i => v.getD i 0) (fun i => errors.getD i 0)
    (fun i => z.getD i 0) (n + 2)
  rw [hexcess]
  constructor
  · exact le_add_of_nonneg_right (mul_nonneg hweight.le (add_nonneg hdist hbend))
  · intro heq
    have hsum := (mul_eq_zero.mp (add_eq_left.mp heq)).resolve_left hweight.ne'
    have hzero := ((add_eq_zero_iff_of_nonneg hdist hbend).mp hsum).1
    apply List.ext_getElem (hv'.trans hz.symm)
    intro i hi hi'
    have hi2 : i < n + 2 := hv' ▸ hi
    have hsame := eq_of_misfit_eq_zero hσ hzero hi2
    rwa [List.getD_eq_getElem _ _ hi, List.getD_eq_getElem _ _ hi'] at hsame

private theorem width_at_five_knots (i : Nat) (hi : i < 4) :
    (⟨[0, 1, 2, 3, 4]⟩ : Knots ℝ).width i = 1 := by
  interval_cases i
  · change (1 : ℝ) - 0 = 1
    norm_num
  · change (2 : ℝ) - 1 = 1
    norm_num
  · change (3 : ℝ) - 2 = 1
    norm_num
  · change (4 : ℝ) - 3 = 1
    norm_num

private theorem eliminate_at_five_knots :
    Pentadiagonal.eliminate 0 .zero .zero (⟨[40, 40, 40], [-23, -23], [6]⟩ : Pentadiagonal ℝ).rows =
      .ok [⟨40, -23 / 40, 3 / 20⟩, ⟨1071 / 40, -46 / 63, 0⟩, ⟨1564 / 63, 0, 0⟩] := by
  have hrows : (⟨[40, 40, 40], [-23, -23], [6]⟩ : Pentadiagonal ℝ).rows =
      [⟨40, -23, 6, 40⟩, ⟨40, -23, 0, 40⟩, ⟨40, 0, 0, 40⟩] := by
    simp [Pentadiagonal.rows, Pentadiagonal.row, Pentadiagonal.entry, Pentadiagonal.dimension,
      List.range_succ]
    norm_num
  have haccept {d : ℝ} (row : Nat) (hd : 20 < d) : Banded.checkPivot d 40 row = .ok d := by
    have htol := Banded.pivotTolerance_lt_half (K := ℝ)
    have hpos : 0 < d := by linarith
    rw [Banded.checkPivot_eq (by norm_num), abs_of_pos hpos, if_pos (by linarith)]
  rw [hrows]
  simp only [Pentadiagonal.eliminate, Pentadiagonal.Step.zero, Scalar.exact_zero]
  rw [haccept 0 (by norm_num)]
  simp only [bind, Except.bind, pure, Except.pure]
  rw [haccept 1 (by norm_num)]
  simp only
  rw [haccept 2 (by norm_num)]
  norm_num

private theorem smooth_at_five_knots :
    let k : Knots ℝ := ⟨[0, 1, 2, 3, 4]⟩
    smooth k [1, 0, 1, 0, 1] [1, 1, 1, 1, 1] (1 / 2) =
      .ok [17 / 23, 12 / 23, 11 / 23, 12 / 23, 17 / 23] := by
  intro k
  have hsize : k.size = 5 := rfl
  have hw0 : k.width 0 = 1 := width_at_five_knots 0 (by decide)
  have hw1 : k.width 1 = 1 := width_at_five_knots 1 (by decide)
  have hw2 : k.width 2 = 1 := width_at_five_knots 2 (by decide)
  have hw3 : k.width 3 = 1 := width_at_five_knots 3 (by decide)
  have hmu : curvatureWeight (1 / 2 : ℝ) = 2 / 3 := by
    simp only [curvatureWeight, Scalar.exact_ofNat, Scalar.exact_one]
    norm_num
  have hsystem : smoothingSystem k [1, 1, 1, 1, 1] (curvatureWeight (1 / 2)) =
      .ok ⟨[40, 40, 40], [-23, -23], [6]⟩ := by
    rw [hmu, smoothingSystem]
    refine Pentadiagonal.ofBands_eq_ok_iff.mpr ⟨?_, ?_, ?_, ?_⟩
    · simp [hsize, List.range_succ, smoothingDiagonal, smoothingFirst, smoothingSecond, variance,
        Knots.p, Knots.r, Knots.f, hw0, hw1, hw2, hw3]
      norm_num
    all_goals simp [hsize]
  have hsolve : (⟨[40, 40, 40], [-23, -23], [6]⟩ : Pentadiagonal ℝ).solve
      (secondDifferences k [1, 0, 1, 0, 1]) = .ok [3 / 23, 0, 3 / 23] := by
    refine Pentadiagonal.solve_eq_ok_iff.mpr ⟨rfl, _, eliminate_at_five_knots, ?_⟩
    simp [secondDifferences, hsize, List.range_succ, Knots.r, hw0, hw1, hw2, hw3,
      Pentadiagonal.forward, Pentadiagonal.scaleDown, Pentadiagonal.backward]
    norm_num
  refine (smooth_eq_ok_iff (by decide) (by norm_num) (by norm_num)).mpr
    ⟨rfl, rfl, _, _, hsystem, hsolve, ?_⟩
  rw [hmu]
  simp [corrected, correction, List.range_succ, variance, hsize, Knots.r, Knots.f, hw0, hw1, hw2, hw3]
  norm_num

theorem smooth_minimises_at_five_knots :
    let k : Knots ℝ := ⟨[0, 1, 2, 3, 4]⟩
    let z : List ℝ := [17 / 23, 12 / 23, 11 / 23, 12 / 23, 17 / 23]
    let J := objective k [1, 0, 1, 0, 1] [1, 1, 1, 1, 1] (1 / 2)
    Knots.ofList [0, 1, 2, 3, 4] = .ok k ∧
      smooth k [1, 0, 1, 0, 1] [1, 1, 1, 1, 1] (1 / 2) = .ok z ∧ z.length = 5 ∧
      (∀ v : List ℝ, v.length = 5 → ∃ b, interpolate k v EndConditions.natural = .ok b) ∧
      ∀ v : List ℝ, v.length = 5 → J z ≤ J v ∧ (J v = J z → v = z) := by
  intro k z J
  have hk : Knots.ofList (K := ℝ) [0, 1, 2, 3, 4] = .ok ⟨[0, 1, 2, 3, 4]⟩ :=
    Knots.ofList_eq_ok_iff.mpr ⟨rfl, by decide, by norm_num⟩
  have hgrade : k.Graded := by
    intro i hi j hj
    rw [width_at_five_knots i hi, width_at_five_knots j hj]
    norm_num
  have hlen : ([0, 0, 0, 0, 0] : List ℝ).length = k.size := rfl
  obtain ⟨b, hb⟩ := interpolate_of_graded (Knots.ofList_eq_ok_iff.mp hk).2 hgrade hlen
    EndConditions.natural
  have herrors : ∀ σ ∈ ([1, 1, 1, 1, 1] : List ℝ), 0 < σ := by
    simp
  exact ⟨hk, smooth_at_five_knots, smooth_minimises hk (by decide) ⟨_, b, hb⟩ herrors (by norm_num)
    (by norm_num) smooth_at_five_knots⟩

end Objective

end Spline
end LifetimeEfficiency
