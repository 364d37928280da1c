import LifetimeEfficiency.Proofs.Spline.Curve
import Mathlib
/-!
# B-splines

B-splines are defined by a recursion over their degree. On the knots with the outer two repeated fourfold those of degree three are the
basis, whose four functions on an interval are what the recursion leaves there.
-/
namespace LifetimeEfficiency

open Filter Topology

section Recursion

variable {K : Type} [Field K] [LinearOrder K]

def bsplinePart (numerator denominator value : K) : K :=
  if denominator = 0 then 0 else numerator / denominator * value

/-- The B-spline of some degree that begins at knot `j`. -/
def bspline (t : Nat → K) : Nat → Nat → K → K
  | 0, j, x => if t j ≤ x ∧ x < t (j + 1) then 1 else 0
  | d + 1, j, x =>
    bsplinePart (x - t j) (t (j + d + 1) - t j) (bspline t d j x) +
      bsplinePart (t (j + d + 2) - x) (t (j + d + 2) - t (j + 1)) (bspline t d (j + 1) x)

theorem bspline_succ (t : Nat → K) (d j : Nat) (x : K) :
    bspline t (d + 1) j x = (x - t j) / (t (j + d + 1) - t j) * bspline t d j x +
      (t (j + d + 2) - x) / (t (j + d + 2) - t (j + 1)) * bspline t d (j + 1) x := by
  have hpart (n m v : K) : bsplinePart n m v = n / m * v := by
    unfold bsplinePart
    split_ifs with hm
    · rw [hm, div_zero, zero_mul]
    · rfl
  rw [bspline, hpart, hpart]

theorem bspline_congr {t t' : Nat → K} {d j : Nat} (h : ∀ i ≤ d + 1, t (j + i) = t' (j + i)) (x : K) :
    bspline t d j x = bspline t' d j x := by
  induction d generalizing j with
  | zero => rw [bspline, bspline, h 1 le_rfl, ← Nat.add_zero j, h 0 (Nat.zero_le _)]
  | succ d ih =>
    have hnext (i : Nat) (hi : i ≤ d + 1) : t (j + 1 + i) = t' (j + 1 + i) := by
      have hi := h (1 + i) (by omega)
      rwa [← add_assoc] at hi
    have hfirst : t j = t' j := h 0 (Nat.zero_le _)
    have hleft : t (j + d + 1) = t' (j + d + 1) := h (d + 1) (Nat.le_succ _)
    have hright : t (j + d + 2) = t' (j + d + 2) := h (d + 2) le_rfl
    rw [bspline_succ, bspline_succ, ih fun i hi => h i (by omega), ih hnext, hfirst, hleft, hright,
      h 1 (by omega)]

variable {t : Nat → K} (ht : Monotone t)

include ht

theorem bspline_eq_zero {d j : Nat} {x : K} (h : x < t j ∨ t (j + d + 1) ≤ x) : bspline t d j x = 0 := by
  induction d generalizing j with
  | zero =>
    rw [bspline, if_neg]
    rintro ⟨hle, hlt⟩
    rcases h with h | h
    · exact absurd h hle.not_gt
    · exact absurd h hlt.not_ge
  | succ d ih =>
    have hleft : bspline t d j x = 0 := ih (h.imp_right fun h => (ht (by omega)).trans h)
    have hright : bspline t d (j + 1) x = 0 :=
      ih (h.imp (fun h => h.trans_le (ht (by omega))) fun h => (ht (by omega)).trans h)
    rw [bspline_succ, hleft, hright, mul_zero, mul_zero, add_zero]

variable [IsStrictOrderedRing K]

theorem bspline_nonneg (d j : Nat) (x : K) : 0 ≤ bspline t d j x := by
  induction d generalizing j with
  | zero =>
    rw [bspline]
    split_ifs
    · exact zero_le_one
    · exact le_rfl
  | succ d ih =>
    by_cases hx : t j ≤ x ∧ x < t (j + d + 2)
    · have hbegun : 0 ≤ (x - t j) / (t (j + d + 1) - t j) :=
        div_nonneg (sub_nonneg.mpr hx.1) (sub_nonneg.mpr (ht (by omega)))
      have hended : 0 ≤ (t (j + d + 2) - x) / (t (j + d + 2) - t (j + 1)) :=
        div_nonneg (sub_nonneg.mpr hx.2.le) (sub_nonneg.mpr (ht (by omega)))
      rw [bspline_succ]
      exact add_nonneg (mul_nonneg hbegun (ih j)) (mul_nonneg hended (ih (j + 1)))
    · rw [not_and_or, not_le, not_lt] at hx
      exact (bspline_eq_zero ht hx).ge

theorem bspline_pos_of_le {d j : Nat} {x : K} (hle : t (j + d) ≤ x) (hlt : x < t (j + d + 1)) :
    0 < bspline t d j x := by
  induction d generalizing j with
  | zero =>
    rw [bspline, if_pos ⟨hle, hlt⟩]
    exact zero_lt_one
  | succ d ih =>
    have hnumber : j + 1 + d = j + (d + 1) := by omega
    have hnext : 0 < bspline t d (j + 1) x := ih (by rwa [hnumber]) (by rwa [hnumber])
    have hbegun : 0 ≤ (x - t j) / (t (j + d + 1) - t j) :=
      div_nonneg (sub_nonneg.mpr ((ht (by omega)).trans hle)) (sub_nonneg.mpr (ht (by omega)))
    have hwidth : t (j + 1) < t (j + d + 2) := (ht (by omega)).trans_lt (hle.trans_lt hlt)
    rw [bspline_succ]
    exact add_pos_of_nonneg_of_pos (mul_nonneg hbegun (bspline_nonneg ht d j x))
      (mul_pos (div_pos (sub_pos.mpr hlt) (sub_pos.mpr hwidth)) hnext)

theorem bspline_pos {d j : Nat} {x : K} (hbegun : t j < x) (hlt : x < t (j + d + 1)) :
    0 < bspline t d j x := by
  induction d generalizing j with
  | zero => exact bspline_pos_of_le ht hbegun.le hlt
  | succ d ih =>
    rcases lt_or_ge x (t (j + d + 1)) with hx | hx
    · have hended : 0 ≤ (t (j + d + 2) - x) / (t (j + d + 2) - t (j + 1)) :=
        div_nonneg (sub_nonneg.mpr hlt.le) (sub_nonneg.mpr (ht (by omega)))
      rw [bspline_succ]
      exact add_pos_of_pos_of_nonneg
        (mul_pos (div_pos (sub_pos.mpr hbegun) (sub_pos.mpr (hbegun.trans hx))) (ih hbegun hx))
        (mul_nonneg hended (bspline_nonneg ht d (j + 1) x))
    · exact bspline_pos_of_le ht hx hlt

end Recursion

variable {K : Type} [Field K] [LinearOrder K]

section Triangle

/-! On one interval each degree has one function more than the degree before, and the outermost two of them keep a single part. -/

/-- Six neighbouring knots of a sequence. -/
def Window.ofSequence (t : Nat → K) (i : Nat) : Window K :=
  ⟨t (i + 1), t (i + 2), t (i + 3), t (i + 4), t (i + 5), t (i + 6)⟩

variable {t : Nat → K} (ht : Monotone t) {i : Nat} {x : K} (hle : t (i + 3) ≤ x) (hlt : x < t (i + 4))

include ht hle hlt

theorem bspline_one :
    bspline t 1 (i + 2) x = (t (i + 4) - x) / (t (i + 4) - t (i + 3)) ∧
      bspline t 1 (i + 3) x = (x - t (i + 3)) / (t (i + 4) - t (i + 3)) := by
  have hself : bspline t 0 (i + 3) x = 1 := if_pos ⟨hle, hlt⟩
  have hbefore : bspline t 0 (i + 2) x = 0 := bspline_eq_zero ht (.inr hle)
  have hafter : bspline t 0 (i + 4) x = 0 := bspline_eq_zero ht (.inl hlt)
  constructor
  · rw [bspline_succ, hbefore, hself, mul_zero, zero_add, mul_one]
  · rw [bspline_succ, hself, hafter, mul_zero, add_zero, mul_one]

theorem bspline_two :
    bspline t 2 (i + 1) x =
        (t (i + 4) - x) / (t (i + 4) - t (i + 2)) * ((t (i + 4) - x) / (t (i + 4) - t (i + 3))) ∧
      bspline t 2 (i + 2) x =
        (x - t (i + 2)) / (t (i + 4) - t (i + 2)) * ((t (i + 4) - x) / (t (i + 4) - t (i + 3))) +
          (t (i + 5) - x) / (t (i + 5) - t (i + 3)) * ((x - t (i + 3)) / (t (i + 4) - t (i + 3))) ∧
      bspline t 2 (i + 3) x =
        (x - t (i + 3)) / (t (i + 5) - t (i + 3)) * ((x - t (i + 3)) / (t (i + 4) - t (i + 3))) := by
  obtain ⟨h2, h3⟩ := bspline_one ht hle hlt
  have hbefore : bspline t 1 (i + 1) x = 0 := bspline_eq_zero ht (.inr hle)
  have hafter : bspline t 1 (i + 4) x = 0 := bspline_eq_zero ht (.inl hlt)
  refine ⟨?_, ?_, ?_⟩
  · rw [bspline_succ, hbefore, h2, mul_zero, zero_add]
  · rw [bspline_succ, h2, h3]
  · rw [bspline_succ, h3, hafter, mul_zero, add_zero]

variable [IsStrictOrderedRing K]

theorem bspline_three :
    bspline t 3 i x = ((Window.ofSequence t i).basis 0).value x ∧
      bspline t 3 (i + 1) x = ((Window.ofSequence t i).basis 1).value x ∧
      bspline t 3 (i + 2) x = ((Window.ofSequence t i).basis 2).value x ∧
      bspline t 3 (i + 3) x = ((Window.ofSequence t i).basis 3).value x := by
  have hw : (Window.ofSequence t i).Ordered :=
    ⟨ht (by omega), ht (by omega), hle.trans_lt hlt, ht (by omega), ht (by omega)⟩
  obtain ⟨hda, hdb, hdc, heb, hec, hfc⟩ := hw.ne
  obtain ⟨b0, b1, b2, b3⟩ := Window.linear_slots (Cubic.isLinear_value x) (Window.ofSequence t i)
  obtain ⟨h1, h2, h3⟩ := bspline_two ht hle hlt
  have hbefore : bspline t 2 i x = 0 := bspline_eq_zero ht (.inr hle)
  have hafter : bspline t 2 (i + 4) x = 0 := bspline_eq_zero ht (.inl hlt)
  rw [b0, b1, b2, b3]
  simp only [Cubic.value_ofRoots, Spacing.ofWindow, Window.ofSequence] at *
  refine ⟨?_, ?_, ?_, ?_⟩
  · rw [bspline_succ, hbefore, h1]
    field_simp
    ring
  · rw [bspline_succ, h1, h2]
    field_simp
    ring
  · rw [bspline_succ, h2, h3]
    field_simp
    ring
  · rw [bspline_succ, h3, hafter]
    field_simp
    ring

theorem bspline_eq_basis {slot : Nat} (hslot : slot < 4) :
    bspline t 3 (i + slot) x = ((Window.ofSequence t i).basis slot).value x := by
  obtain ⟨h0, h1, h2, h3⟩ := bspline_three ht hle hlt
  match slot, hslot with
  | 0, _ => exact h0
  | 1, _ => exact h1
  | 2, _ => exact h2
  | 3, _ => exact h3

end Triangle

namespace Knots

def repeated (k : Knots K) : List K := List.replicate 3 k.first ++ k.points ++ List.replicate 3 k.last

def bspline (k : Knots K) (j : Nat) : K → K :=
  LifetimeEfficiency.bspline (fun i => k.repeated.getD i 0) 3 j

section Repeated

variable {k : Knots K} (hk : k.Increasing)

include hk

theorem getD_repeated {j : Nat} (hj : j < k.size + 6) : k.repeated.getD j 0 = k.u (j - 3) := by
  have htwo := hk.two_le
  have hsize : k.size = k.points.length := rfl
  rcases Nat.lt_or_ge j 3 with hlt | hge
  · have hposition : k.position 0 = k.position (j - 3) := by
      unfold position
      omega
    rw [repeated, List.append_assoc, List.getD_append _ _ _ _ (by simpa using hlt), List.getD_replicate _ hlt]
    exact u_congr hposition
  obtain ⟨m, rfl⟩ := Nat.exists_eq_add_of_le' hge
  have hcast : ((m + 3 : Nat) : Int) - 3 = m := by omega
  rw [hcast]
  rcases Nat.lt_or_ge m k.points.length with hin | hout
  · rw [repeated, List.getD_append _ _ _ _ (by simp; omega), List.getD_append_right _ _ _ _ (by simp),
      List.length_replicate, Nat.add_sub_cancel, k.u_natCast hin, List.getD_eq_getElem _ _ hin]
  · have hposition : k.position (k.size - 1 : Nat) = k.position m := by
      unfold position
      omega
    rw [repeated, List.getD_append_right _ _ _ _ (by simp; omega), List.getD_replicate _ (by simp; omega)]
    exact u_congr hposition

theorem monotone_repeated : Monotone fun j : Nat => k.u (j - 3) := by
  intro i j hij
  exact hk.u_le (by omega)

theorem bspline_eq {j : Nat} (hj : j < k.size + 2) (x : K) :
    k.bspline j x = LifetimeEfficiency.bspline (fun i : Nat => k.u (i - 3)) 3 j x :=
  bspline_congr (fun i hi => getD_repeated hk (by omega)) x

end Repeated

theorem ofSequence_repeated (k : Knots K) (i : Nat) :
    Window.ofSequence (fun j : Nat => k.u (j - 3)) i = k.window i := by
  simp only [Window.ofSequence, window, Nat.cast_add, Nat.cast_ofNat]
  congr 2 <;> ring

theorem basisValue_eq (k : Knots K) (i : Int) {slot : Nat} (hslot : slot < 4) (x : K) :
    k.basisValue i slot x = ((k.window i).basis slot).value x := by
  rw [basisValue, basisValues_eq, Scalar.exact_zero, List.getD_eq_getElem _ _ (by simpa using hslot)]
  simp

variable [IsStrictOrderedRing K]

theorem basisValue_eq_bspline {k : Knots K} (hk : k.Increasing) {i slot : Nat} (hi : i < k.intervals)
    (hslot : slot < 4) {x : K} (hle : k.u i ≤ x) (hlt : x < k.u (i + 1)) :
    k.basisValue i slot x = k.bspline (i + slot) x := by
  have hsize : i + slot < k.size + 2 := by
    unfold intervals at hi
    omega
  have hbegin : ((i + 3 : Nat) : Int) - 3 = i := by omega
  have hend : ((i + 4 : Nat) : Int) - 3 = i + 1 := by omega
  rw [bspline_eq hk hsize, bspline_eq_basis (monotone_repeated hk) (hbegin ▸ hle) (hend ▸ hlt) hslot,
    ofSequence_repeated, basisValue_eq k i hslot]

/-- The basis is that of the cubic B-splines on the knots with the outer two repeated fourfold. -/
theorem basis_is_bspline [TopologicalSpace K] [OrderTopology K] {points : List K} {k : Knots K}
    (hk : ofList points = .ok k) {i slot : Nat} (hi : i + 1 < points.length) (hslot : slot < 4) :
    (k.repeated.getD (i + slot) 0 = k.u (i + slot - 3) ∧
      k.repeated.getD (i + slot + 4) 0 = k.u (i + slot + 1)) ∧
    (∀ x, (x < k.u (i + slot - 3) ∨ k.u (i + slot + 1) ≤ x → k.bspline (i + slot) x = 0) ∧
      (k.u (i + slot - 3) < x → x < k.u (i + slot + 1) → 0 < k.bspline (i + slot) x)) ∧
    (∀ x, k.u i ≤ x → x < k.u (i + 1) → k.basisValue i slot x = k.bspline (i + slot) x) ∧
    (i + 2 = points.length →
      Tendsto (k.bspline (i + slot)) (𝓝[<] k.last) (𝓝 (k.basisValue i slot k.last))) := by
  obtain ⟨rfl, hinc⟩ := ofList_eq_ok_iff.mp hk
  have hsize : i + slot < k.size + 2 := by
    unfold size
    omega
  have hintervals : i < k.intervals := Nat.lt_sub_of_add_lt hi
  have hfirst : ((i + slot : Nat) : Int) - 3 = i + slot - 3 := by omega
  have hlast : ((i + slot + 4 : Nat) : Int) - 3 = i + slot + 1 := by omega
  have hvalue {x : K} (hle : k.u i ≤ x) (hlt : x < k.u (i + 1)) :=
    basisValue_eq_bspline hinc hintervals hslot hle hlt
  refine ⟨⟨?_, ?_⟩, fun x => ⟨fun hx => ?_, fun hbegun hended => ?_⟩, fun x => hvalue, fun hi => ?_⟩
  · rw [getD_repeated hinc (by omega), hfirst]
  · rw [getD_repeated hinc (by omega), hlast]
  · rw [bspline_eq hinc hsize]
    exact bspline_eq_zero (monotone_repeated hinc) (by rwa [← hfirst, ← hlast] at hx)
  · rw [bspline_eq hinc hsize]
    exact bspline_pos (monotone_repeated hinc) (by rwa [← hfirst] at hbegun) (by rwa [← hlast] at hended)
  · obtain ⟨-, hend, hlt⟩ := hinc.last_interval (n := i) hi.symm
    -- The B-spline drops to zero at the last knot; the polynomial goes on and has its own value as the limit.
    have hcont : Continuous (k.basisValue i slot) := by
      have hpoly : k.basisValue i slot = fun x => ((k.window i).basis slot).value x := by
        funext x
        exact basisValue_eq k i hslot x
      rw [hpoly]
      simp only [Cubic.value_eq]
      fun_prop
    refine (hcont.tendsto k.last).mono_left nhdsWithin_le_nhds |>.congr' ?_
    filter_upwards [Ico_mem_nhdsLT hlt] with x hx
    exact hvalue hx.1 (hend ▸ hx.2)

theorem basis_is_bspline_at_three_knots :
    ∃ k : Knots ℚ, ofList [0, 1, 3] = .ok k ∧
      (∀ x, k.u 1 ≤ x → x < k.u 2 → k.basisValue 1 2 x = k.bspline 3 x) ∧
      Tendsto (k.bspline 3) (𝓝[<] k.last) (𝓝 (k.basisValue 1 2 k.last)) := by
  have hk : ofList [0, 1, 3] = .ok (⟨[0, 1, 3]⟩ : Knots ℚ) :=
    ofList_eq_ok_iff.mpr ⟨rfl, ⟨by decide, by decide⟩⟩
  obtain ⟨-, -, hvalue, hlimit⟩ := basis_is_bspline hk (by decide : 1 + 1 < 3) (by decide : 2 < 4)
  exact ⟨_, hk, hvalue, hlimit rfl⟩

end Knots
end LifetimeEfficiency
