import LifetimeEfficiency.Proofs.Spline.ExtendedKnots
import LifetimeEfficiency.Spline.Basis
import Mathlib.Order.Bounds.Defs
/-!
# Flawed lists of points

What can be wrong with a list of points, and what the knots and the boundaries of bins both refuse. The two scan for points that do not
rise with different comparisons, which are the same for finite numbers.
-/
namespace LifetimeEfficiency

section Searches

variable {α : Type} {p q : α → Bool} {xs : List α} {i : Nat}

theorem findIdx?_congr (h : ∀ x ∈ xs, p x = q x) : xs.findIdx? p = xs.findIdx? q := by
  induction xs with
  | nil => rfl
  | cons x xs ih =>
    obtain ⟨hx, hxs⟩ := List.forall_mem_cons.mp h
    rw [List.findIdx?_cons, List.findIdx?_cons, hx, ih hxs]

/-- A search finds the least of the positions that it looks for. -/
theorem findIdx?_eq_some_iff_isLeast :
    xs.findIdx? p = some i ↔ IsLeast {j | ∃ x, xs[j]? = some x ∧ p x = true} i := by
  rw [List.findIdx?_eq_some_iff_getElem]
  constructor
  · rintro ⟨hi, hp, hbefore⟩
    refine ⟨⟨xs[i], List.getElem?_eq_getElem hi, hp⟩, ?_⟩
    rintro j ⟨x, hx, hpx⟩
    by_contra hlt
    obtain ⟨hj, rfl⟩ := List.getElem?_eq_some_iff.mp hx
    exact hbefore j (not_le.mp hlt) hpx
  · rintro ⟨⟨x, hx, hpx⟩, hleast⟩
    obtain ⟨hi, rfl⟩ := List.getElem?_eq_some_iff.mp hx
    refine ⟨hi, hpx, fun j hj hpj => ?_⟩
    exact absurd (hleast ⟨xs[j], List.getElem?_eq_getElem (hj.trans hi), hpj⟩) (not_le.mpr hj)

end Searches

/-- Why a list of points cannot be used; positions are those of the offending entries. -/
inductive Flaw
  | tooFew (found : Nat)
  | nonFinite (index : Nat)
  | nonIncreasing (index : Nat)

namespace Flaw

variable {K : Type} [Scalar K]

def Strays (points : List K) (i : Nat) : Prop := ∃ x, points[i]? = some x ∧ Scalar.isFinite x = false

def Stalls (points : List K) (i : Nat) : Prop :=
  ∃ j a b, i = j + 1 ∧ points[j]? = some a ∧ points[j + 1]? = some b ∧ ¬ a < b

/-- The flaw that is reported: that of the first offending entry, and non-finite entries come before all others. -/
def Of (points : List K) : Flaw → Prop
  | tooFew n => n = points.length ∧ n < 2
  | nonFinite i => 2 ≤ points.length ∧ IsLeast {j | Strays points j} i
  | nonIncreasing i =>
    2 ≤ points.length ∧ (∀ x ∈ points, Scalar.isFinite x = true) ∧ IsLeast {j | Stalls points j} i

def knotError (points : List K) : Flaw → SplineError K
  | tooFew n => .tooFewKnots n
  | nonFinite i => .nonFiniteKnot i
  | nonIncreasing i => .nonIncreasingKnots i (points.getD (i - 1) 0) (points.getD i 0)

def boundaryError : Flaw → EfficiencyError K
  | tooFew n => .tooFewBoundaries n
  | nonFinite i => .nonIncreasingBoundaries i
  | nonIncreasing i => .nonIncreasingBoundaries i

variable {points : List K} {i : Nat}

theorem findIdx?_not_isFinite_eq_some_iff :
    points.findIdx? (fun x => !Scalar.isFinite x) = some i ↔ IsLeast {j | Strays points j} i := by
  rw [findIdx?_eq_some_iff_isLeast]
  simp only [Strays, Bool.not_eq_true']

theorem firstStall_eq_some_iff :
    Efficiency.firstStall points = some i ↔ IsLeast {j | Stalls points j} (i + 1) := by
  rw [Efficiency.firstStall, findIdx?_eq_some_iff_isLeast]
  simp only [List.getElem?_zip_eq_some, List.getElem?_tail, Prod.exists, Bool.not_eq_true', decide_eq_false_iff_not]
  constructor
  · rintro ⟨⟨a, b, ⟨ha, hb⟩, hab⟩, hleast⟩
    refine ⟨⟨i, a, b, rfl, ha, hb, hab⟩, ?_⟩
    rintro _ ⟨j, a, b, rfl, ha, hb, hab⟩
    exact Nat.succ_le_succ (hleast ⟨a, b, ⟨ha, hb⟩, hab⟩)
  · rintro ⟨⟨j, a, b, hj, ha, hb, hab⟩, hleast⟩
    obtain rfl := Nat.succ.inj hj
    refine ⟨⟨a, b, ⟨ha, hb⟩, hab⟩, ?_⟩
    rintro j ⟨a, b, ⟨ha, hb⟩, hab⟩
    exact Nat.le_of_succ_le_succ (hleast ⟨j, a, b, rfl, ha, hb, hab⟩)

theorem isLeast_stalls_iff :
    IsLeast {j | Stalls points j} i ↔ ∃ j, i = j + 1 ∧ Efficiency.firstStall points = some j := by
  constructor
  · rintro ⟨⟨j, a, b, rfl, hab⟩, hleast⟩
    exact ⟨j, rfl, firstStall_eq_some_iff.mpr ⟨⟨j, a, b, rfl, hab⟩, hleast⟩⟩
  · rintro ⟨j, rfl, hj⟩
    exact firstStall_eq_some_iff.mp hj

theorem firstDescent_eq [Scalar.Total K] (h : ∀ x ∈ points, Scalar.isFinite x = true) :
    Knots.firstDescent points = Efficiency.firstStall points := by
  refine findIdx?_congr fun ab hab => ?_
  obtain ⟨ha, hb⟩ := List.of_mem_zip hab
  have hiff := Scalar.Total.not_lt_iff (h _ ha) (h _ (List.mem_of_mem_tail hb))
  rw [← decide_not]
  exact decide_eq_decide.mpr hiff.symm

section Checks

variable [Scalar.Total K]

theorem usable_or_flaw (points : List K) : Scalar.Usable points ∨ ∃ f : Flaw, f.Of points := by
  rcases Nat.lt_or_ge points.length 2 with hfew | htwo
  · exact .inr ⟨.tooFew points.length, rfl, hfew⟩
  cases hstray : points.findIdx? fun x => !Scalar.isFinite x with
  | some i => exact .inr ⟨.nonFinite i, htwo, findIdx?_not_isFinite_eq_some_iff.mp hstray⟩
  | none =>
    have hfinite := findIdx?_not_isFinite_eq_none_iff.mp hstray
    cases hstall : Efficiency.firstStall points with
    | some i => exact .inr ⟨.nonIncreasing (i + 1), htwo, hfinite, firstStall_eq_some_iff.mp hstall⟩
    | none =>
      have hchain : points.IsChain (· < ·) :=
        isChain_of_findIdx? (fun a _ b _ hlt => by simpa using hlt) hstall
      exact .inl ⟨⟨htwo, List.isChain_iff_pairwise.mp hchain⟩, hfinite⟩

theorem decides {ε α : Type} {check : Except ε α} {error : Flaw → ε} (hok : Scalar.Usable points → ∃ a, check = .ok a)
    (herror : ∀ f : Flaw, f.Of points → check = .error (error f)) :
    ((∃ a, check = .ok a) ↔ Scalar.Usable points) ∧
      ∀ e, check = .error e ↔ ∃ f : Flaw, f.Of points ∧ e = error f := by
  refine ⟨⟨?_, hok⟩, fun e => ⟨fun he => ?_, ?_⟩⟩
  · rintro ⟨a, ha⟩
    refine (usable_or_flaw points).resolve_right ?_
    rintro ⟨f, hf⟩
    cases ha.symm.trans (herror f hf)
  · rcases usable_or_flaw points with husable | ⟨f, hf⟩
    · obtain ⟨a, ha⟩ := hok husable
      cases ha.symm.trans he
    · exact ⟨f, hf, Except.error.inj (he.symm.trans (herror f hf))⟩
  · rintro ⟨f, hf, rfl⟩
    exact herror f hf

/-! Both checks do, each with errors of its own. -/

omit [Scalar.Total K] in
theorem checkBoundaries_of_flaw {f : Flaw} (h : f.Of points) :
    Efficiency.checkBoundaries points = .error f.boundaryError := by
  cases f with
  | tooFew n =>
    obtain ⟨rfl, hfew⟩ := h
    rw [Efficiency.checkBoundaries, if_pos hfew]
    rfl
  | nonFinite i =>
    obtain ⟨htwo, hstray⟩ := h
    have hfound := findIdx?_not_isFinite_eq_some_iff.mpr hstray
    simp only [Efficiency.checkBoundaries, if_neg (not_lt.mpr htwo), hfound, boundaryError]
  | nonIncreasing i =>
    obtain ⟨htwo, hfinite, hstall⟩ := h
    obtain ⟨j, rfl, hj⟩ := isLeast_stalls_iff.mp hstall
    have hstray := findIdx?_not_isFinite_eq_none_iff.mpr hfinite
    simp only [Efficiency.checkBoundaries, if_neg (not_lt.mpr htwo), hstray, hj, boundaryError]

theorem ofList_of_flaw {f : Flaw} (h : f.Of points) : Knots.ofList points = .error (f.knotError points) := by
  cases f with
  | tooFew n =>
    obtain ⟨rfl, hfew⟩ := h
    rw [Knots.ofList, if_pos hfew]
    rfl
  | nonFinite i =>
    obtain ⟨htwo, hstray⟩ := h
    have hfound := findIdx?_not_isFinite_eq_some_iff.mpr hstray
    simp only [Knots.ofList, if_neg (not_lt.mpr htwo), hfound, knotError]
  | nonIncreasing i =>
    obtain ⟨htwo, hfinite, hstall⟩ := h
    obtain ⟨j, rfl, hj⟩ := isLeast_stalls_iff.mp hstall
    have hstray := findIdx?_not_isFinite_eq_none_iff.mpr hfinite
    have hdescent : Knots.firstDescent points = some j := firstDescent_eq hfinite ▸ hj
    obtain ⟨⟨n, a, b, hn, ha, hb, -⟩, -⟩ := hstall
    obtain rfl := Nat.succ.inj hn
    obtain ⟨hj', rfl⟩ := List.getElem?_eq_some_iff.mp ha
    obtain ⟨hnext, rfl⟩ := List.getElem?_eq_some_iff.mp hb
    have hu : (⟨points⟩ : Knots K).u j = points[j] := Knots.u_natCast _ hj'
    have hu' : (⟨points⟩ : Knots K).u (j + 1) = points[j + 1] := Knots.u_natCast _ hnext
    simp only [Knots.ofList, if_neg (not_lt.mpr htwo), hstray, hdescent, knotError, hu, hu', Nat.add_sub_cancel,
      List.getD_eq_getElem _ _ hj', List.getD_eq_getElem _ _ hnext]

end Checks

end Flaw

open Extended (number)

namespace Knots

variable {K : Type} [Field K] [LinearOrder K] [IsStrictOrderedRing K]

theorem Increasing.isFinite_weight {k : Knots K} (h : k.Increasing) {i : Nat} (hi : i < k.intervals) :
    ∀ t ∈ k.numbers.terms i, Scalar.isFinite t.weight = true := by
  obtain ⟨hp, hq, hr, hs⟩ := spacing_pos (h.window_ordered hi)
  have hweight {n g : K} (hg : 0 < g) : Scalar.isFinite (number n / number g) = true := by
    rw [Extended.number_div hg.ne']
    rfl
  have hspacing := k.spacing_numbers i
  rw [spacing] at hspacing
  simp only [terms, slots, Window.slots, hspacing, Extended.one_eq, List.flatten_cons, List.flatten_nil,
    List.append_nil, List.cons_append, List.nil_append, List.forall_mem_cons]
  exact ⟨hweight hp, hweight hp, hweight hq, hweight hr, hweight hq, hweight hr, hweight hs, hweight hs,
    List.forall_mem_nil _⟩

theorem ofList_of_usable {points : List (Extended K)} (h : Scalar.Usable points) : ofList points = .ok ⟨points⟩ := by
  obtain ⟨j, hj, rfl⟩ := exists_numbers h
  exact ofList_eq_ok_iff_numbers.mpr ⟨rfl, j, hj, rfl⟩

/-- Knots and boundaries are accepted if there are two of them at least, all finite, and each above the one before. Otherwise both
are refused for the same flaw, that of the first offending entry. Accepted knots have spacings that can be divided by. -/
theorem accepts_usable (points : List (Extended K)) :
    ((∃ k, ofList points = .ok k) ↔ Scalar.Usable points) ∧
      (Efficiency.checkBoundaries points = .ok () ↔ Scalar.Usable points) ∧
      (∀ e, ofList points = .error e ↔ ∃ f : Flaw, f.Of points ∧ e = f.knotError points) ∧
      (∀ e, Efficiency.checkBoundaries points = .error e ↔ ∃ f : Flaw, f.Of points ∧ e = f.boundaryError) ∧
      (∀ i, ofList points ≠ .error (.degenerateGeometry i)) ∧
      ∀ k, ofList points = .ok k → k.points = points ∧ ∀ i : Nat, i < k.intervals →
        (k.spacing i).Positive ∧ ∀ t ∈ k.terms i, Scalar.isFinite t.weight = true := by
  obtain ⟨hknots, hrefused⟩ := Flaw.decides (fun h : Scalar.Usable points => ⟨_, ofList_of_usable h⟩)
    fun f hf => Flaw.ofList_of_flaw hf
  obtain ⟨hboundaries, hrefused'⟩ :=
    Flaw.decides (fun h : Scalar.Usable points => ⟨_, Efficiency.checkBoundaries_of_usable h⟩)
      fun f hf => Flaw.checkBoundaries_of_flaw hf
  have hchecked : Efficiency.checkBoundaries points = .ok () ↔ Scalar.Usable points :=
    ⟨fun h => hboundaries.mp ⟨(), h⟩, Efficiency.checkBoundaries_of_usable⟩
  refine ⟨hknots, hchecked, hrefused, hrefused', ?_, ?_⟩
  · intro i h
    obtain ⟨f, -, hf⟩ := (hrefused _).mp h
    cases f <;> cases hf
  · intro k hk
    obtain ⟨hpoints, j, hj, rfl⟩ := ofList_eq_ok_iff_numbers.mp hk
    refine ⟨hpoints, fun i hi => ?_⟩
    rw [intervals_numbers] at hi
    exact ⟨hj.positive_spacing hi, hj.isFinite_weight hi⟩

theorem accepts_usable_beside_flawed_lists :
    let usable : List (Extended ℚ) := [number 0, number 2]
    let strays : List (Extended ℚ) := [number 0, number 2, number 2, .undefined, .above]
    let stalls : List (Extended ℚ) := [number 0, number 2, number 2, number 1]
    ((∃ k, ofList usable = .ok k) ∧ Efficiency.checkBoundaries usable = .ok ()) ∧
      (ofList strays = .error (.nonFiniteKnot 3) ∧
        Efficiency.checkBoundaries strays = .error (.nonIncreasingBoundaries 3)) ∧
      ofList stalls = .error (.nonIncreasingKnots 2 (number 2) (number 2)) ∧
        Efficiency.checkBoundaries stalls = .error (.nonIncreasingBoundaries 2) := by
  intro usable strays stalls
  have husable : Scalar.Usable usable := ⟨⟨by decide, by decide⟩, by decide⟩
  have hstrays : (Flaw.nonFinite 3).Of strays :=
    ⟨by decide, Flaw.findIdx?_not_isFinite_eq_some_iff.mp rfl⟩
  have hstalls : (Flaw.nonIncreasing 2).Of stalls :=
    ⟨by decide, by decide, Flaw.firstStall_eq_some_iff.mp (by decide)⟩
  obtain ⟨hknots, hboundaries, -⟩ := accepts_usable usable
  obtain ⟨-, -, hrefused, hrefused', -⟩ := accepts_usable strays
  obtain ⟨-, -, hrefused₂, hrefused₂', -⟩ := accepts_usable stalls
  exact ⟨⟨hknots.mpr husable, hboundaries.mpr husable⟩,
    ⟨(hrefused _).mpr ⟨_, hstrays, rfl⟩, (hrefused' _).mpr ⟨_, hstrays, rfl⟩⟩,
    (hrefused₂ _).mpr ⟨_, hstalls, rfl⟩, (hrefused₂' _).mpr ⟨_, hstalls, rfl⟩⟩

end Knots
end LifetimeEfficiency
