import LifetimeEfficiency.Efficiency.Basic
import LifetimeEfficiency.Proofs.Exact
import Mathlib.Data.List.Chain
/-!
# Ordered scalars

What comparisons promise where numbers are rounded or undefined too. Two laws are enough for points that a check lets pass to be
strictly increasing, not only each below the next. With the others all numbers that compare with themselves are in a total order.
-/
namespace LifetimeEfficiency

namespace Scalar

/-- Two finite numbers can be compared; an undefined one compares with nothing. -/
class Ordered (K : Type) [Scalar K] : Prop where
  lt_trans {a b c : K} : a < b → b < c → a < c
  lt_of_not_le {a b : K} : isFinite a → isFinite b → ¬ b ≤ a → a < b

instance exact_ordered {K : Type} [Field K] [LinearOrder K] : Ordered K where
  lt_trans h h' := h.trans h'
  lt_of_not_le _ _ := not_le.mp

/-- Comparisons are those of a total order, except that an undefined number compares with nothing, not with itself either. -/
class Total (K : Type) [Scalar K] : Prop extends Ordered K where
  le_self_of_isFinite {a : K} : isFinite a → a ≤ a
  defined_of_le {a b : K} : a ≤ b → a ≤ a ∧ b ≤ b
  le_trans {a b c : K} : a ≤ b → b ≤ c → a ≤ c
  le_total {a b : K} : a ≤ a → b ≤ b → a ≤ b ∨ b ≤ a
  lt_iff {a b : K} : a < b ↔ a ≤ b ∧ ¬ b ≤ a

instance exact_total {K : Type} [Field K] [LinearOrder K] : Total K where
  le_self_of_isFinite _ := le_rfl
  defined_of_le _ := ⟨le_rfl, le_rfl⟩
  le_trans := le_trans
  le_total _ _ := le_total _ _
  lt_iff := lt_iff_le_not_ge

namespace Total

variable {K : Type} [Scalar K] [Total K] {a b : K}

theorem le_of_lt (h : a < b) : a ≤ b := (lt_iff.mp h).1

theorem not_ge_of_lt (h : a < b) : ¬ b ≤ a := (lt_iff.mp h).2

theorem lt_of_not_ge (ha : a ≤ a) (hb : b ≤ b) (h : ¬ b ≤ a) : a < b :=
  lt_iff.mpr ⟨(le_total ha hb).resolve_right h, h⟩

theorem lt_or_ge (ha : a ≤ a) (hb : b ≤ b) : a < b ∨ b ≤ a := by
  by_cases h : b ≤ a
  · exact .inr h
  · exact .inl (lt_of_not_ge ha hb h)

theorem not_lt_iff (ha : isFinite a) (hb : isFinite b) : ¬ a < b ↔ b ≤ a := by
  refine ⟨fun h => ?_, fun h hlt => not_ge_of_lt hlt h⟩
  exact (lt_or_ge (le_self_of_isFinite ha) (le_self_of_isFinite hb)).resolve_left h

end Total

structure Increasing {K : Type} [Scalar K] (points : List K) : Prop where
  two_le : 2 ≤ points.length
  sorted : points.Pairwise (· < ·)

structure Usable {K : Type} [Scalar K] (points : List K) : Prop extends Increasing points where
  finite : ∀ x ∈ points, isFinite x = true

end Scalar

theorem rel_of_mem_zip_tail {α : Type} {R : α → α → Prop} {xs : List α} (h : xs.Pairwise R) {a b : α}
    (hab : (a, b) ∈ xs.zip xs.tail) : R a b := by
  obtain ⟨i, hi, heq⟩ := List.getElem_of_mem hab
  rw [List.getElem_zip, List.getElem_tail] at heq
  obtain ⟨rfl, rfl⟩ := Prod.mk.inj heq
  exact List.pairwise_iff_getElem.mp h i (i + 1) _ _ i.lt_succ_self

theorem isChain_of_findIdx? {α : Type} {R : α → α → Prop} {p : α × α → Bool} {xs : List α}
    (hR : ∀ a ∈ xs, ∀ b ∈ xs, p (a, b) = false → R a b)
    (h : (xs.zip xs.tail).findIdx? p = none) : xs.IsChain R := by
  induction xs with
  | nil => exact List.isChain_nil
  | cons a xs ih =>
    cases xs with
    | nil => exact List.isChain_singleton a
    | cons b xs =>
      rw [List.findIdx?_eq_none_iff] at h
      refine List.isChain_cons_cons.mpr ⟨?_, ih ?_ ?_⟩
      · exact hR a List.mem_cons_self b (List.mem_cons_of_mem _ List.mem_cons_self)
          (h (a, b) List.mem_cons_self)
      · exact fun x hx y hy => hR x (List.mem_cons_of_mem _ hx) y (List.mem_cons_of_mem _ hy)
      · exact List.findIdx?_eq_none_iff.mpr fun xy hxy => h xy (List.mem_cons_of_mem _ hxy)

variable {K : Type} [Scalar K]

theorem findIdx?_not_isFinite_eq_none_iff {points : List K} :
    points.findIdx? (fun x => !Scalar.isFinite x) = none ↔ ∀ x ∈ points, Scalar.isFinite x = true := by
  simp [List.findIdx?_eq_none_iff]

theorem Knots.checked_of_ofList {points : List K} {k : Knots K} (h : Knots.ofList points = .ok k) :
    k.points = points ∧ 2 ≤ points.length ∧ (∀ x ∈ points, Scalar.isFinite x = true) ∧
      firstDescent points = none ∧ ∀ i : Nat, i < k.intervals → (k.spacing i).isUsable = true := by
  unfold Knots.ofList at h
  dsimp only at h
  split at h
  · cases h
  · rename_i htwo
    split at h
    · cases h
    · rename_i hfinite
      split at h
      · cases h
      · rename_i hdescent
        split at h
        · cases h
        · rename_i hspacing
          cases h
          have hall := findIdx?_not_isFinite_eq_none_iff.mp hfinite
          have husable : ∀ i : Nat, i < (⟨points⟩ : Knots K).intervals →
              ((⟨points⟩ : Knots K).spacing i).isUsable = true := by
            simpa using hspacing
          exact ⟨rfl, not_lt.mp htwo, hall, hdescent, husable⟩

theorem Knots.ofList_of_checked {points : List K} (htwo : 2 ≤ points.length)
    (hfinite : ∀ x ∈ points, Scalar.isFinite x = true) (hdescent : firstDescent points = none)
    (hspacing : ∀ i : Nat, i < (⟨points⟩ : Knots K).intervals →
      ((⟨points⟩ : Knots K).spacing i).isUsable = true) :
    ofList points = .ok ⟨points⟩ := by
  have hfound := findIdx?_not_isFinite_eq_none_iff.mpr hfinite
  have hnone : (List.range (⟨points⟩ : Knots K).intervals).find?
      (fun i : Nat => !((⟨points⟩ : Knots K).spacing i).isUsable) = none := by
    simpa using hspacing
  simp only [ofList, if_neg (not_lt.mpr htwo), hfound, hdescent, hnone]

theorem Efficiency.checkBoundaries_of_usable {boundaries : List K} (h : Scalar.Usable boundaries) :
    checkBoundaries boundaries = .ok () := by
  have hfinite := findIdx?_not_isFinite_eq_none_iff.mpr h.finite
  have hstall : firstStall boundaries = none := by
    rw [firstStall, List.findIdx?_eq_none_iff]
    intro ab hab
    simpa using rel_of_mem_zip_tail h.sorted hab
  simp only [checkBoundaries, if_neg (not_lt.mpr h.two_le), hfinite, hstall]

variable [Scalar.Ordered K]

instance ordered_trans : Trans (α := K) (· < ·) (· < ·) (· < ·) := ⟨Scalar.Ordered.lt_trans⟩

theorem Knots.increasing_of_ofList {points : List K} {k : Knots K} (h : Knots.ofList points = .ok k) :
    Scalar.Increasing k.points := by
  obtain ⟨rfl, htwo, hfinite, hdescent, -⟩ := checked_of_ofList h
  refine ⟨htwo, List.isChain_iff_pairwise.mp (isChain_of_findIdx? ?_ hdescent)⟩
  intro a ha b hb hle
  exact Scalar.Ordered.lt_of_not_le (hfinite a ha) (hfinite b hb) (of_decide_eq_false hle)

theorem Efficiency.increasing_of_checkBoundaries {boundaries : List K} {u : Unit}
    (h : checkBoundaries boundaries = .ok u) : Scalar.Increasing boundaries := by
  unfold checkBoundaries at h
  split at h
  · cases h
  · rename_i htwo
    split at h
    · cases h
    · split at h
      · cases h
      · rename_i hstall
        refine ⟨not_lt.mp htwo, List.isChain_iff_pairwise.mp ?_⟩
        exact isChain_of_findIdx? (fun a _ b _ hlt => by simpa using hlt) hstall

end LifetimeEfficiency
