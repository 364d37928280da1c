import LifetimeEfficiency.Proofs.Efficiency.Layout
import LifetimeEfficiency.Proofs.Efficiency.Profile
import LifetimeEfficiency.Proofs.Ordered
import LifetimeEfficiency.Proofs.Outcome
/-!
# Constructed efficiencies

Whatever a constructor returns has increasing boundaries and as many coefficients as they ask for, at any values of the
coefficients.
-/
namespace LifetimeEfficiency

def Shape.WellFormed {K α : Type} [Scalar K] : Shape K α → Prop
  | .spline knots coefs => Scalar.Increasing knots.points ∧ coefs.length = knots.size + 2
  | .binned boundaries heights =>
    Scalar.Increasing boundaries ∧ heights.length + 1 = boundaries.length
  | .threshold t =>
    t.boundaries.Pairwise (· < ·) ∧ t.boundaries.head? = some t.low ∧
      t.boundaries.getLast? = some t.high ∧ t.boundaries.length = t.fractions.length + 2

/-- The shapes that constructors let pass. -/
def Shape.Accepted {K α : Type} [Field K] [LinearOrder K] : Shape K α → Prop
  | .spline knots coefs => knots.Increasing ∧ coefs.length = knots.size + 2
  | .binned boundaries heights =>
    (⟨boundaries⟩ : Knots K).Increasing ∧ heights.length + 1 = boundaries.length
  | .threshold t => t.Laid

theorem Thresholds.accepted_steps {K : Type} [Field K] [LinearOrder K] [IsStrictOrderedRing K]
    {t : Thresholds K K} (ht : t.Laid) : t.steps.Accepted where
  increasing := ⟨(Nat.le_add_left 2 t.fractions.length).trans_eq ht.length.symm, ht.sorted⟩
  heights := by
    have hlen := ht.length
    simp only [steps, List.length_map, List.length_range]
    omega

namespace Efficiency

/-- The efficiencies that the constructors give. -/
inductive Constructed {K α : Type} [Scalar K] : Efficiency K α → Prop
  | ofKnots {name : String} {points : List K} {k : Knots K} {coefs : List α} {e : Efficiency K α}
      (hk : Knots.ofList points = .ok k) (h : Efficiency.ofKnots name k coefs = .ok e) : Constructed e
  | ofCoefs {name : String} {points : List K} {coefs : List α} {e : Efficiency K α}
      (h : Efficiency.ofCoefs name points coefs = .ok e) : Constructed e
  | ofBins {name : String} {boundaries : List K} {heights : List α} {e : Efficiency K α}
      (h : Efficiency.ofBins name boundaries heights = .ok e) : Constructed e
  | ofRange {name : String} {low high : K} {e : Efficiency K α}
      (h : Efficiency.ofRange name low high = .ok e) : Constructed e
  | addThreshold {e e' : Efficiency K α} {limit : K} {fraction : α} (he : Constructed e)
      (h : e.addThreshold? limit fraction = some (.ok e')) : Constructed e'

section Closing

variable {K α : Type} [Scalar K] {e e' : Efficiency K α} {limit : K} {fraction : α}

omit [Scalar K] in
theorem ofKnots_eq_ok_iff {name : String} {k : Knots K} {coefs : List α} : ofKnots name k coefs = .ok e ↔
    coefs.length = k.size + 2 ∧ e = ⟨name, .spline k coefs⟩ := by
  unfold ofKnots
  split
  · rename_i hlen
    simp [hlen, eq_comm]
  · rename_i hlen
    exact ⟨nofun, fun h => absurd h.1 hlen⟩

theorem ofRange_eq_ok_iff {name : String} {low high : K} : ofRange name low high = .ok e ↔
    (Scalar.isFinite low = true ∧ Scalar.isFinite high = true ∧ low < high) ∧
      e = ⟨name, .threshold ⟨[low, high], []⟩⟩ := by
  constructor
  · intro h
    obtain ⟨t, ht, h⟩ := bind_eq_ok_iff.mp h
    cases h
    obtain ⟨hrange, rfl⟩ := Thresholds.ofRange_eq_ok_iff.mp ht
    exact ⟨hrange, rfl⟩
  · rintro ⟨hrange, rfl⟩
    exact bind_eq_ok_iff.mpr ⟨_, Thresholds.ofRange_eq_ok_iff.mpr ⟨hrange, rfl⟩, rfl⟩

theorem addThreshold?_eq_ok_iff : e.addThreshold? limit fraction = some (.ok e') ↔
    ∃ t t', e.shape = .threshold t ∧ t.close limit fraction = .ok t' ∧ e' = ⟨e.name, .threshold t'⟩ := by
  obtain ⟨name, shape⟩ := e
  constructor
  · intro h
    cases shape with
    | threshold t =>
      obtain ⟨t', ht', h'⟩ := bind_eq_ok_iff.mp (Option.some.inj h)
      cases h'
      exact ⟨t, t', rfl, ht', rfl⟩
    | spline _ _ => cases h
    | binned _ _ => cases h
  · rintro ⟨t, t', hshape, ht', rfl⟩
    cases hshape
    exact congrArg some (bind_eq_ok_iff.mpr ⟨t', ht', rfl⟩)

def close (e : Efficiency K α) (limit : K) (fraction : α) : Efficiency K α :=
  match e.addThreshold? limit fraction with
  | some (.ok e') => e'
  | some (.error _) => e
  | none => e

theorem close_cases (e : Efficiency K α) (limit : K) (fraction : α) :
    e.close limit fraction = e ∨ e.addThreshold? limit fraction = some (.ok (e.close limit fraction)) := by
  unfold close
  split
  · rename_i e' h
    exact .inr h
  · exact .inl rfl
  · exact .inl rfl

theorem parameters_close {q : α} (hq : q ∈ (e.close limit fraction).parameters) :
    q ∈ e.parameters ∨ q = fraction := by
  rcases e.close_cases limit fraction with h | h
  · exact .inl (h ▸ hq)
  · obtain ⟨t, t', hshape, ht', heq⟩ := addThreshold?_eq_ok_iff.mp h
    rw [heq] at hq
    simpa [parameters, hshape, Thresholds.fractions_of_close ht'] using hq

theorem Constructed.close (he : e.Constructed) (limit : K) (fraction : α) :
    (e.close limit fraction).Constructed := by
  rcases e.close_cases limit fraction with h | h
  · exact h.symm ▸ he
  · exact .addThreshold he h

end Closing

theorem wellFormed_threshold {K α : Type} [Scalar K] {t : Thresholds K α} (ht : t.Laid) :
    (Shape.threshold t).WellFormed := by
  obtain ⟨low, high, closed, rfl⟩ := Thresholds.exists_ofClosed ht.length
  refine ⟨ht.sorted, rfl, ?_, ht.length⟩
  rw [Thresholds.high_ofClosed, Thresholds.ofClosed, List.getLast?_concat]

theorem wellFormed_of_ofKnots {K α : Type} [Scalar K] {name : String} {k : Knots K} {coefs : List α}
    {e : Efficiency K α} (hk : Scalar.Increasing k.points) (h : ofKnots name k coefs = .ok e) :
    e.shape.WellFormed := by
  unfold ofKnots at h
  split at h
  · rename_i hlen
    cases h
    exact ⟨hk, hlen⟩
  · cases h

theorem Constructed.wellFormed {K α : Type} [Scalar K] [Scalar.Ordered K] {e : Efficiency K α}
    (he : e.Constructed) : e.shape.WellFormed := by
  induction he with
  | ofKnots hk h => exact wellFormed_of_ofKnots (Knots.increasing_of_ofList hk) h
  | ofCoefs h =>
    obtain ⟨k, hk, h⟩ := bind_eq_ok_iff.mp h
    exact wellFormed_of_ofKnots (Knots.increasing_of_ofList (mapError_eq_ok_iff.mp hk)) h
  | ofBins h =>
    obtain ⟨u, hu, h⟩ := bind_eq_ok_iff.mp h
    have hinc := increasing_of_checkBoundaries hu
    split at h
    · rename_i hlen
      cases h
      have htwo := hinc.two_le
      exact ⟨hinc, by omega⟩
    · cases h
  | ofRange h =>
    obtain ⟨⟨-, -, hlt⟩, rfl⟩ := ofRange_eq_ok_iff.mp h
    exact wellFormed_threshold (Thresholds.laid_ofRange hlt)
  | addThreshold he h ih =>
    obtain ⟨t, t', hshape, ht', rfl⟩ := addThreshold?_eq_ok_iff.mp h
    rw [hshape] at ih
    exact wellFormed_threshold (Thresholds.Laid.close ⟨ih.2.2.2, ih.1⟩ ht')

section Exact

variable {K α : Type} [Field K] [LinearOrder K] {e : Efficiency K α}

theorem Constructed.accepted (he : e.Constructed) :
    e.shape.Accepted := by
  have hshape := he.wellFormed
  obtain ⟨name, shape⟩ := e
  cases shape with
  | spline k coefs => exact ⟨⟨hshape.1.two_le, hshape.1.sorted⟩, hshape.2⟩
  | binned boundaries heights => exact ⟨⟨hshape.1.two_le, hshape.1.sorted⟩, hshape.2⟩
  | threshold t => exact ⟨hshape.2.2.2, hshape.1⟩

theorem ofBins_of_increasing {name : String} {boundaries : List K} {heights : List α}
    (h : (⟨boundaries⟩ : Knots K).Increasing) (hlen : heights.length = boundaries.length - 1) :
    ofBins name boundaries heights = .ok ⟨name, .binned boundaries heights⟩ := by
  have hcheck : checkBoundaries boundaries = .ok () :=
    checkBoundaries_of_usable ⟨⟨h.two_le, h.sorted⟩, fun _ _ => rfl⟩
  rw [ofBins, hcheck, if_pos hlen]
  rfl

theorem Constructed.profile [IsStrictOrderedRing K] (he : e.Constructed) (value : α → K) :
    (e.profile value).Accepted := by
  have hshape := he.accepted
  obtain ⟨name, shape⟩ := e
  cases shape with
  | spline k coefs => exact hshape.1
  | binned boundaries heights =>
    refine ⟨hshape.1, ?_⟩
    rw [List.length_map]
    exact hshape.2
  | threshold t => exact Thresholds.accepted_steps (hshape.map value)

end Exact

end Efficiency
end LifetimeEfficiency
