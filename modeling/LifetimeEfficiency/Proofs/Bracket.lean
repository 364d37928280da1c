import LifetimeEfficiency.Bracket
import LifetimeEfficiency.Proofs.Ordered
/-!
# Brackets of increasing points

The gap of an increasing list that a number falls into is the one whose lower end does not exceed it
and whose upper end does, except that the last gap has no upper end.
-/
namespace LifetimeEfficiency

theorem takeWhile_spec {α : Type} (p : α → Bool) (l : List α) :
    (∀ j (h : j < l.length), j < (l.takeWhile p).length → p l[j]) ∧
      ∀ h : (l.takeWhile p).length < l.length, ¬ p l[(l.takeWhile p).length] := by
  induction l with
  | nil => exact ⟨nofun, nofun⟩
  | cons a l ih =>
    by_cases ha : p a
    · simp only [List.takeWhile_cons_of_pos ha]
      refine ⟨fun j hj hlt => ?_, fun hlt => ih.2 (Nat.lt_of_succ_lt_succ hlt)⟩
      cases j with
      | zero => exact ha
      | succ j => exact ih.1 j (Nat.lt_of_succ_lt_succ hj) (Nat.lt_of_succ_lt_succ hlt)
    · simp only [List.takeWhile_cons_of_neg ha]
      exact ⟨fun j _ hlt => absurd hlt (Nat.not_lt_zero j), fun _ => ha⟩

theorem length_takeWhile_eq {α : Type} {p : α → Bool} {l : List α} {n : Nat} (hn : n ≤ l.length)
    (hpos : ∀ j (h : j < l.length), j < n → p l[j]) (hneg : ∀ h : n < l.length, ¬ p l[n]) :
    (l.takeWhile p).length = n := by
  obtain ⟨htaken, hnext⟩ := takeWhile_spec p l
  have hle := (List.takeWhile_sublist (l := l) p).length_le
  rcases lt_trichotomy (l.takeWhile p).length n with hlt | heq | hgt
  · exact absurd (hpos _ (hlt.trans_le hn) hlt) (hnext (hlt.trans_le hn))
  · exact heq
  · exact absurd (htaken n (hgt.trans_le hle) hgt) (hneg (hgt.trans_le hle))

theorem bracket_lt {K : Type} [Scalar K] {points : List K} (h : 2 ≤ points.length) (x : K) :
    bracket points x + 1 < points.length := by
  have hle := (List.takeWhile_sublist (l := points.dropLast) fun p => decide (p ≤ x)).length_le
  rw [List.length_dropLast] at hle
  rw [bracket]
  omega

section

variable {K : Type} [Scalar K] [Scalar.Total K] {points : List K} {x : K}

open Scalar.Total

theorem bracket_eq (hs : points.Pairwise (· < ·)) {i : Nat}
    (hi : i + 1 < points.length) (hle : points[i] ≤ x)
    (hlt : i + 2 < points.length → x < points[i + 1]) : bracket points x = i := by
  have hlen : (points.dropLast.takeWhile fun p => p ≤ x).length = i + 1 := by
    apply length_takeWhile_eq
    · simp; omega
    · intro j hj hji
      rw [List.getElem_dropLast]
      rcases Nat.lt_or_eq_of_le (Nat.lt_succ_iff.mp hji) with h | rfl
      · exact decide_eq_true (le_trans (le_of_lt (List.pairwise_iff_getElem.mp hs j i _ _ h)) hle)
      · exact decide_eq_true hle
    · intro h
      have hx := hlt (by simp at h; omega)
      rw [List.getElem_dropLast]
      exact fun hp => absurd (of_decide_eq_true hp) (not_ge_of_lt hx)
  rw [bracket, hlen, Nat.add_sub_cancel]

/-- From the first point on every number lies in its gap, or beyond the lower end of the last one. -/
theorem bracket_spec (hs : points.Pairwise (· < ·)) (htwo : 2 ≤ points.length) (hfirst : points[0] ≤ x) :
    ∃ i, ∃ hi : i + 1 < points.length, bracket points x = i ∧ points[i] ≤ x ∧
      (i + 2 < points.length → x < points[i + 1]) := by
  obtain ⟨htaken, hnext⟩ := takeWhile_spec (fun p => decide (p ≤ x)) points.dropLast
  have hbound := bracket_lt htwo x
  unfold bracket at hbound ⊢
  cases hn : (points.dropLast.takeWhile fun p => p ≤ x).length with
  | zero =>
    -- The first point does not exceed `x`, so something is taken.
    simp only [hn] at hnext
    exact absurd (decide_eq_true (List.getElem_dropLast _ ▸ hfirst)) (hnext (by simp; omega))
  | succ i =>
    rw [hn] at htaken hbound
    refine ⟨i, hbound, rfl, ?_, fun hi => ?_⟩
    · have hle := htaken i (by simp; omega) i.lt_succ_self
      rw [List.getElem_dropLast] at hle
      exact of_decide_eq_true hle
    · simp only [hn] at hnext
      have hnot := hnext (by simp; omega)
      rw [List.getElem_dropLast, decide_eq_true_iff] at hnot
      have hpoint := List.pairwise_iff_getElem.mp hs i (i + 1) (by omega) (by omega) i.lt_succ_self
      exact lt_of_not_ge (defined_of_le hfirst).2 (defined_of_le (le_of_lt hpoint)).2 hnot

end

section

variable {K : Type} [Field K] [LinearOrder K]

theorem mem_pointsWithin_iff {points : List K} {lo hi x : K} :
    x ∈ pointsWithin points lo hi ↔ x ∈ points ∧ lo ≤ x ∧ x ≤ hi := by
  simp [pointsWithin]

theorem samePoint_self [IsStrictOrderedRing K] (a : K) : samePoint a a = true := by
  have hsize : 0 ≤ max (max |a| |a|) 1 := zero_le_one.trans (le_max_right _ _)
  simp only [samePoint, sub_self, Scalar.exact_abs, abs_zero, Scalar.exact_one, Scalar.exact_natCast]
  exact decide_eq_true (by positivity)

omit [Field K] in
theorem le_or_le_of_mem_zip_tail {xs : List K} (hs : xs.Pairwise (· ≤ ·)) {a b x : K}
    (hab : (a, b) ∈ xs.zip xs.tail) (hx : x ∈ xs) : x ≤ a ∨ b ≤ x := by
  induction xs with
  | nil => cases hx
  | cons c xs ih =>
    cases xs with
    | nil => cases hab
    | cons d xs =>
      obtain ⟨hc, hrest⟩ := List.pairwise_cons.mp hs
      rw [List.tail_cons, List.zip_cons_cons, List.mem_cons] at hab
      rcases hab with hhead | htail
      · obtain ⟨rfl, rfl⟩ := Prod.mk.inj hhead
        rcases List.mem_cons.mp hx with rfl | hx
        · exact .inl le_rfl
        rcases List.mem_cons.mp hx with rfl | hx
        · exact .inr le_rfl
        · exact .inr (List.rel_of_pairwise_cons hrest hx)
      · rcases List.mem_cons.mp hx with rfl | hx
        · exact .inl (hc a (List.of_mem_zip htail).1)
        · exact ih hrest htail hx

/-- Between neighbours among the ends of a range and the points within it there is no point. -/
theorem le_or_le_of_consecutive {points : List K} (hs : points.Pairwise (· < ·)) {lo hi : K}
    (hle : lo ≤ hi) {a b : K}
    (hab : (a, b) ∈ (lo :: pointsWithin points lo hi ++ [hi]).zip
      (lo :: pointsWithin points lo hi ++ [hi]).tail)
    {x : K} (hx : x ∈ points) : x ≤ a ∨ b ≤ x := by
  set ends := lo :: pointsWithin points lo hi ++ [hi] with hends
  have hrange (y : K) (hy : y ∈ ends) : lo ≤ y ∧ y ≤ hi := by
    simp only [hends, List.cons_append, List.mem_cons, List.mem_append, List.not_mem_nil, or_false,
      mem_pointsWithin_iff] at hy
    rcases hy with rfl | ⟨-, hy⟩ | rfl
    · exact ⟨le_rfl, hle⟩
    · exact hy
    · exact ⟨hle, le_rfl⟩
  have hsorted : ends.Pairwise (· ≤ ·) := by
    have hwithin : (pointsWithin points lo hi).Pairwise (· ≤ ·) :=
      (hs.filter _).imp le_of_lt
    rw [hends, List.cons_append, List.pairwise_cons, List.pairwise_append]
    refine ⟨?_, hwithin, List.pairwise_singleton _ _, ?_⟩
    · intro y hy
      exact (hrange y (List.mem_cons_of_mem _ hy)).1
    · intro y hy z hz
      obtain rfl := List.mem_singleton.mp hz
      exact (mem_pointsWithin_iff.mp hy).2.2
  obtain ⟨ha, hb⟩ := List.of_mem_zip hab
  rcases lt_or_ge x lo with hxlo | hxlo
  · exact .inl (hxlo.le.trans (hrange a ha).1)
  rcases lt_or_ge hi x with hxhi | hxhi
  · exact .inr ((hrange b (List.mem_of_mem_tail hb)).2.trans hxhi.le)
  · have hmem : x ∈ pointsWithin points lo hi := mem_pointsWithin_iff.mpr ⟨hx, hxlo, hxhi⟩
    exact le_or_le_of_mem_zip_tail hsorted hab
      (List.mem_append_left _ (List.mem_cons_of_mem _ hmem))

end
end LifetimeEfficiency
