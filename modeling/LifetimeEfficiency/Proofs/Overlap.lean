import Mathlib.Algebra.BigOperators.Group.Finset.Basic
import Mathlib.Order.MinMax
/-!
# Overlaps

What a range has in common with an interval lies between the points of the interval that are nearest to the ends of the range. The
differences of a function between these points add up over adjacent ranges and over adjacent intervals.
-/
namespace LifetimeEfficiency

open Finset

variable {α G : Type} [LinearOrder α] {a b c x lo hi : α}

/-- The point from `a` to `b` that is nearest to `x`. -/
def nearest (a b x : α) : α := max a (min x b)

theorem nearest_of_le (h : x ≤ a) : nearest a b x = a := max_eq_left ((min_le_left x b).trans h)

theorem nearest_of_ge (hab : a ≤ b) (h : b ≤ x) : nearest a b x = b := by
  rw [nearest, min_eq_right h, max_eq_right hab]

theorem nearest_of_mem (hle : a ≤ x) (hge : x ≤ b) : nearest a b x = x := by
  rw [nearest, min_eq_left hge, max_eq_right hle]

theorem nearest_of_empty (h : b ≤ a) : nearest a b x = a := max_eq_left ((min_le_right x b).trans h)

/-- A range that runs forwards and has nothing in common with the interval has both ends nearest to one point. -/
theorem overlap_eq [AddGroup G] (f : α → G) (hab : a ≤ b) (hle : lo ≤ hi) :
    (if min hi b ≤ max lo a then 0 else f (min hi b) - f (max lo a)) =
      f (nearest a b hi) - f (nearest a b lo) := by
  split_ifs with h
  · have hsame : nearest a b hi = nearest a b lo := by
      rcases le_max_iff.mp h with hlo | ha
      · rcases min_le_iff.mp hlo with heq | hb
        · rw [le_antisymm heq hle]
        · rw [nearest_of_ge hab hb, nearest_of_ge hab (hb.trans hle)]
      · rcases min_le_iff.mp ha with hhi | hba
        · rw [nearest_of_le hhi, nearest_of_le (hle.trans hhi)]
        · rw [nearest_of_empty hba, nearest_of_empty hba]
    rw [hsame, sub_self]
  · have hlt := not_le.mp h
    have ha : a ≤ min hi b := (le_max_right lo a).trans hlt.le
    have hb : lo ≤ b := (le_max_left lo a).trans (hlt.le.trans (min_le_right hi b))
    rw [nearest, nearest, max_eq_right ha, min_eq_left hb, max_comm a lo]

section Adjacent

variable [AddCommGroup G] (f : α → G)

theorem nearest_add_nearest (hab : a ≤ b) (hbc : b ≤ c) (x : α) :
    f (nearest a b x) + f (nearest b c x) = f (nearest a c x) + f b := by
  rcases le_total x b with hxb | hbx
  · rw [nearest_of_le hxb, nearest, nearest, min_eq_left hxb, min_eq_left (hxb.trans hbc)]
  · have hax : a ≤ min x c := hab.trans (le_min hbx hbc)
    rw [nearest_of_ge hab hbx, nearest, nearest, max_eq_right (le_min hbx hbc), max_eq_right hax, add_comm]

theorem overlap_add (hab : a ≤ b) (hbc : b ≤ c) (lo hi : α) :
    (if min hi b ≤ max lo a then 0 else f (min hi b) - f (max lo a)) +
        (if min hi c ≤ max lo b then 0 else f (min hi c) - f (max lo b)) =
      if min hi c ≤ max lo a then 0 else f (min hi c) - f (max lo a) := by
  rcases le_or_gt lo hi with hle | hlt
  · have hlo := nearest_add_nearest f hab hbc lo
    have hhi := nearest_add_nearest f hab hbc hi
    rw [overlap_eq f hab hle, overlap_eq f hbc hle, overlap_eq f (hab.trans hbc) hle,
      ← add_sub_add_comm, hhi, hlo, add_sub_add_right_eq_sub]
  · have hempty (p q : α) : min hi q ≤ max lo p := (min_le_left hi q).trans (hlt.le.trans (le_max_left lo p))
    rw [if_pos (hempty a b), if_pos (hempty b c), if_pos (hempty a c), add_zero]

theorem sum_nearest {u : Nat → α} (hu : Monotone u) (n : Nat) (x y : α) :
    ∑ i ∈ range n, (f (nearest (u i) (u (i + 1)) y) - f (nearest (u i) (u (i + 1)) x)) =
      f (nearest (u 0) (u n) y) - f (nearest (u 0) (u n) x) := by
  induction n with
  | zero =>
    rw [nearest_of_empty le_rfl, nearest_of_empty le_rfl, sub_self, sum_range_zero]
  | succ n ih =>
    have hx := nearest_add_nearest f (hu n.zero_le) (hu n.le_succ) x
    have hy := nearest_add_nearest f (hu n.zero_le) (hu n.le_succ) y
    rw [sum_range_succ, ih, ← add_sub_add_comm, hy, hx, add_sub_add_right_eq_sub]

end Adjacent

end LifetimeEfficiency
