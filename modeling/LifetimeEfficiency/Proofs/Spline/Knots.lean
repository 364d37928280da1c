import LifetimeEfficiency.Proofs.Bracket
import LifetimeEfficiency.Spline.Knots
import Mathlib.Data.List.GetD
/-!
# Accepted knots

In exact arithmetic the accepted lists are the strictly increasing ones with two knots at least. Every interval then has a positive
width, and the six knots around it are in order.
-/
namespace LifetimeEfficiency

namespace Knots

section

variable {K : Type} [Scalar K] (k : Knots K)

theorem u_natCast {i : Nat} (hi : i < k.points.length) : k.u i = k.points[i] := by
  have hmin : min i (k.size - 1) = i := by
    unfold size
    omega
  rw [u, Int.toNat_natCast, hmin, List.getD_eq_getElem _ _ hi]

theorem first_eq_getElem (h : 0 < k.points.length) : k.first = k.points[0] := k.u_natCast h

theorem last_eq_getElem (h : 0 < k.points.length) : k.last = k.points[k.points.length - 1] :=
  k.u_natCast (Nat.sub_one_lt_of_lt h)

theorem u_eq_last {i : Nat} (hi : i + 1 = k.intervals) : k.u (i + 1) = k.last := by
  rw [last, ← intervals, ← hi]
  rfl

end

end Knots

variable {K : Type} [Field K] [LinearOrder K]

/-- The inner interval has a width; the knots around it may coincide with its ends. -/
structure Window.Ordered (w : Window K) : Prop where
  ab : w.a ≤ w.b
  bc : w.b ≤ w.c
  cd : w.c < w.d
  de : w.d ≤ w.e
  ef : w.e ≤ w.f

namespace Knots

structure Increasing (k : Knots K) : Prop where
  two_le : 2 ≤ k.size
  sorted : k.points.Pairwise (· < ·)

theorem firstDescent_eq_none_iff (points : List K) :
    firstDescent points = none ↔ points.Pairwise (· < ·) := by
  induction points with
  | nil => simp [firstDescent]
  | cons a points ih =>
    cases points with
    | nil => simp [firstDescent]
    | cons b points =>
      rw [← List.isChain_iff_pairwise, List.isChain_cons_cons, List.isChain_iff_pairwise, ← ih]
      by_cases hab : b ≤ a
      · simp [firstDescent, List.findIdx?_cons, hab, not_lt.mpr hab]
      · simp [firstDescent, List.findIdx?_cons, hab, not_le.mp hab]

omit [Field K] [LinearOrder K] in
theorem intervals_eq {k : Knots K} {n : Nat} (hn : k.size = n + 2) : k.intervals = n + 1 := by
  rw [intervals, hn]
  rfl

theorem last_eq {k : Knots K} {n : Nat} (hn : k.size = n + 2) : k.last = k.u (n + 1 : Nat) := by
  rw [last, hn]
  rfl

/-- The numbers on one side of the knots or between two of them: an interval has its lower end, and the last one its upper end too. -/
def Covers (k : Knots K) : Location → K → Prop
  | .left, x => x < k.first
  | .interval i, x =>
    i < k.intervals ∧ k.u i ≤ x ∧ x ≤ k.u (i + 1) ∧ (i + 1 < k.intervals → x < k.u (i + 1))
  | .right, x => k.last < x

def position (k : Knots K) (i : Int) : Nat := min i.toNat (k.size - 1)

theorem u_eq_getD (k : Knots K) (i : Int) : k.u i = k.points.getD (k.position i) 0 := by
  rw [u, Scalar.exact_zero]
  rfl

theorem u_congr {k : Knots K} {i j : Int} (h : k.position i = k.position j) : k.u i = k.u j := by
  rw [u_eq_getD, u_eq_getD, h]

namespace Increasing

variable {k : Knots K}

omit [Field K] in
theorem intervals_pos (h : k.Increasing) : 0 < k.intervals := Nat.sub_pos_of_lt h.two_le

omit [Field K] in
theorem position_lt (h : k.Increasing) (i : Int) : k.position i < k.points.length := by
  have htwo : 2 ≤ k.points.length := h.two_le
  unfold position size
  omega

theorem u_mem (h : k.Increasing) (i : Int) : k.u i ∈ k.points := by
  rw [u_eq_getD, List.getD_eq_getElem _ _ (h.position_lt i)]
  exact List.getElem_mem _

theorem u_lt (h : k.Increasing) {i j : Int} (hij : k.position i < k.position j) : k.u i < k.u j := by
  rw [u_eq_getD, u_eq_getD, List.getD_eq_getElem _ _ (h.position_lt i),
    List.getD_eq_getElem _ _ (h.position_lt j)]
  exact List.pairwise_iff_getElem.mp h.sorted _ _ _ _ hij

theorem u_le (h : k.Increasing) {i j : Int} (hij : i ≤ j) : k.u i ≤ k.u j := by
  have hle : k.position i ≤ k.position j := by
    unfold position
    omega
  rcases hle.eq_or_lt with he | hlt
  · exact (u_congr he).le
  · exact (h.u_lt hlt).le

theorem u_lt_succ (h : k.Increasing) {i : Nat} (hi : i < k.intervals) : k.u i < k.u (i + 1) := by
  apply h.u_lt
  unfold position
  unfold intervals at hi
  omega

theorem width_pos [IsStrictOrderedRing K] (h : k.Increasing) {i : Nat} (hi : i < k.intervals) :
    0 < k.width i :=
  sub_pos.mpr (h.u_lt_succ hi)

theorem last_interval (h : k.Increasing) {n : Nat} (hn : k.size = n + 2) :
    n < k.intervals ∧ k.u (n + 1) = k.last ∧ k.u n < k.last := by
  have hi : n < k.intervals := intervals_eq hn ▸ Nat.lt_succ_self n
  have hlast : k.u (n + 1) = k.last := (last_eq hn).symm
  exact ⟨hi, hlast, hlast ▸ h.u_lt_succ hi⟩

theorem window_ordered (h : k.Increasing) {i : Nat} (hi : i < k.intervals) :
    (k.window i).Ordered where
  ab := h.u_le (by omega)
  bc := h.u_le (by omega)
  cd := h.u_lt_succ hi
  de := h.u_le (by omega)
  ef := h.u_le (by omega)

theorem first_le (h : k.Increasing) {i : Nat} : k.first ≤ k.u i := h.u_le (by omega)

theorem le_last (h : k.Increasing) (i : Int) : k.u i ≤ k.last := by
  have hle : k.position i ≤ k.position (k.size - 1 : Nat) := by
    unfold position
    omega
  rcases hle.eq_or_lt with he | hlt
  · exact (u_congr he).le
  · exact (h.u_lt hlt).le

/-- A number belongs to the interval that it begins or lies inside of, and the last knot to the last interval. -/
theorem locate_eq (h : k.Increasing) {i : Nat} (hi : i < k.intervals) {x : K} (hle : k.u i ≤ x)
    (hge : x ≤ k.u (i + 1)) (hlt : i + 1 < k.intervals → x < k.u (i + 1)) :
    k.locate x = .interval i := by
  have hn : i + 1 < k.points.length := by
    unfold intervals size at hi
    omega
  have hfirst : ¬ x < k.first := not_lt.mpr (h.first_le.trans hle)
  have hlast : ¬ k.last < x := not_lt.mpr (hge.trans (h.le_last _))
  rw [locate, if_neg hfirst, if_neg hlast]
  congr 1
  apply bracket_eq h.sorted hn
  · rwa [← k.u_natCast]
  · intro hi'
    rw [← k.u_natCast]
    exact hlt (by unfold intervals size; omega)

theorem exists_interval (h : k.Increasing) {x : K} (hfirst : k.first ≤ x) (hlast : x ≤ k.last) :
    ∃ i < k.intervals, k.u i ≤ x ∧ x ≤ k.u (i + 1) ∧ (i + 1 < k.intervals → x < k.u (i + 1)) := by
  have htwo : 2 ≤ k.points.length := h.two_le
  rw [k.first_eq_getElem (Nat.zero_lt_of_lt htwo)] at hfirst
  obtain ⟨i, hi, -, hle, hlt⟩ := bracket_spec h.sorted htwo hfirst
  rw [← k.u_natCast hi] at hlt
  rw [← k.u_natCast] at hle
  have hintervals : k.intervals = k.points.length - 1 := rfl
  refine ⟨i, by omega, hle, ?_, fun hnext => hlt (by omega)⟩
  rcases Nat.lt_or_ge (i + 2) k.points.length with hnext | hend
  · exact (hlt hnext).le
  · exact hlast.trans (k.u_eq_last (by omega)).ge

theorem locate_eq_iff (h : k.Increasing) {x : K} {side : Location} :
    k.locate x = side ↔ k.Covers side x := by
  constructor
  · rintro rfl
    rcases lt_or_ge x k.first with hfirst | hfirst
    · rw [locate, if_pos hfirst]
      exact hfirst
    rcases lt_or_ge k.last x with hlast | hlast
    · rw [locate, if_neg hfirst.not_gt, if_pos hlast]
      exact hlast
    · obtain ⟨i, hi, hle, hge, hlt⟩ := h.exists_interval hfirst hlast
      rw [h.locate_eq hi hle hge hlt]
      exact ⟨hi, hle, hge, hlt⟩
  · intro hx
    cases side with
    | left => exact if_pos hx
    | interval i =>
      obtain ⟨hi, hle, hge, hlt⟩ := hx
      exact h.locate_eq hi hle hge hlt
    | right =>
      have hle : k.first ≤ k.last := h.le_last 0
      have hfirst : ¬ x < k.first := (hle.trans hx.le).not_gt
      rw [locate, if_neg hfirst]
      exact if_pos hx

theorem locate_congr (h : k.Increasing) {a b x y : K} (hgap : ∀ p ∈ k.points, p ≤ a ∨ b ≤ p)
    (hx : a < x ∧ x < b) (hy : a < y ∧ y < b) : k.locate x = k.locate y := by
  have hbelow {p : K} (hp : p ∈ k.points) (hpx : p ≤ x) : p < y := by
    rcases hgap p hp with hpa | hbp
    · exact hpa.trans_lt hy.1
    · exact absurd (hbp.trans hpx) hx.2.not_ge
  have habove {p : K} (hp : p ∈ k.points) (hxp : x ≤ p) : y < p := by
    rcases hgap p hp with hpa | hbp
    · exact absurd (hxp.trans hpa) hx.1.not_ge
    · exact hy.2.trans_le hbp
  have hcovers : k.Covers (k.locate x) x := h.locate_eq_iff.mp rfl
  refine (h.locate_eq_iff.mpr ?_).symm
  cases hside : k.locate x with
  | left =>
    rw [hside] at hcovers
    exact habove (h.u_mem _) hcovers.le
  | interval i =>
    rw [hside] at hcovers
    obtain ⟨hi, hle, hge, -⟩ := hcovers
    have hlt := habove (h.u_mem _) hge
    exact ⟨hi, (hbelow (h.u_mem _) hle).le, hlt.le, fun _ => hlt⟩
  | right =>
    rw [hside] at hcovers
    exact hbelow (h.u_mem _) hcovers.le

theorem exists_interval_lt (h : k.Increasing) {x : K} (hfirst : k.first ≤ x) (hlast : x < k.last) :
    ∃ i < k.intervals, k.u i ≤ x ∧ x < k.u (i + 1) := by
  obtain ⟨i, hi, hle, -, hlt⟩ := h.exists_interval hfirst hlast.le
  refine ⟨i, hi, hle, ?_⟩
  rcases Nat.lt_or_ge (i + 1) k.intervals with hi' | hi'
  · exact hlt hi'
  · obtain ⟨n, hn⟩ := Nat.exists_eq_add_of_le' h.two_le
    obtain ⟨-, hend, -⟩ := h.last_interval hn
    have hintervals := intervals_eq hn
    obtain rfl : i = n := by omega
    rwa [hend]

end Increasing

theorem spacing_pos [IsStrictOrderedRing K] {w : Window K} (h : w.Ordered) :
    0 < (Spacing.ofWindow w).p ∧ 0 < (Spacing.ofWindow w).q ∧ 0 < (Spacing.ofWindow w).r ∧
      0 < (Spacing.ofWindow w).s := by
  obtain ⟨hab, hbc, hcd, hde, hef⟩ := h
  have hda : 0 < w.d - w.a := by linarith
  have hdb : 0 < w.d - w.b := by linarith
  have hdc : 0 < w.d - w.c := by linarith
  have heb : 0 < w.e - w.b := by linarith
  have hec : 0 < w.e - w.c := by linarith
  have hfc : 0 < w.f - w.c := by linarith
  refine ⟨?_, ?_, ?_, ?_⟩
  · exact mul_pos (mul_pos hda hdb) hdc
  · exact mul_pos (mul_pos hdb heb) hdc
  · exact mul_pos (mul_pos hec heb) hdc
  · exact mul_pos (mul_pos hec hfc) hdc

theorem spacing_isUsable [IsStrictOrderedRing K] {k : Knots K} (h : k.Increasing) {i : Nat}
    (hi : i < k.intervals) : (k.spacing i).isUsable = true := by
  obtain ⟨hp, hq, hr, hs⟩ := spacing_pos (h.window_ordered hi)
  simp [Spacing.isUsable, spacing, hp.ne', hq.ne', hr.ne', hs.ne']

theorem ofList_eq_ok_iff [IsStrictOrderedRing K] {points : List K} {k : Knots K} :
    ofList points = .ok k ↔ k.points = points ∧ k.Increasing := by
  constructor
  · intro hok
    obtain ⟨htwo, hsorted⟩ := increasing_of_ofList hok
    exact ⟨(checked_of_ofList hok).1, htwo, hsorted⟩
  · rintro ⟨rfl, hk⟩
    have hdescent : firstDescent k.points = none := (firstDescent_eq_none_iff _).mpr hk.sorted
    exact ofList_of_checked hk.two_le (fun _ _ => rfl) hdescent fun i hi => spacing_isUsable hk hi

end Knots
end LifetimeEfficiency
