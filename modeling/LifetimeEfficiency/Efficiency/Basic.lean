import LifetimeEfficiency.Efficiency.Profile
import LifetimeEfficiency.Parameter.Store
/-!
# Efficiencies

A named efficiency is a spline, a binned function or a list of thresholds, with coefficients of any kind: numbers, or parameters
whose numbers are read when the efficiency is used. Constructors refuse points that do not increase and coefficients
that do not match them.
-/
namespace LifetimeEfficiency

inductive EfficiencyError (K : Type)
  | spline (error : SplineError K)
  | parameter (error : ParameterError K)
  | tooFewBoundaries (found : Nat)
  | nonIncreasingBoundaries (index : Nat)
  | coefficientCount (expected found : Nat)
  | invalidRange (low high : K)
  | thresholdOutOfOrder (limit previous : K)
  | thresholdOutsideRange (limit low high : K)
  deriving DecidableEq

def EfficiencyError.message {K : Type} (text : K → String) : EfficiencyError K → String
  | .spline error => error.message text
  | .parameter error => error.message text
  | .tooFewBoundaries found => s!"a binned efficiency needs at least two boundaries, got {found}"
  | .nonIncreasingBoundaries index =>
    s!"bin boundary {index} is not finite or does not exceed the previous one"
  | .coefficientCount expected found => s!"expected {expected} coefficients, found {found}"
  | .invalidRange low high => s!"observable range [{text low}, {text high}] is empty"
  | .thresholdOutOfOrder limit previous =>
    s!"threshold {text limit} does not lie above the previous threshold {text previous}"
  | .thresholdOutsideRange limit low high =>
    s!"threshold {text limit} lies outside the observable range [{text low}, {text high}]"

def EfficiencyError.ofSpline {K α : Type} :
    Except (SplineError K) α → Except (EfficiencyError K) α :=
  Except.mapError .spline

def EfficiencyError.ofParameter {K α : Type} :
    Except (ParameterError K) α → Except (EfficiencyError K) α :=
  Except.mapError .parameter

/-- A range cut into bins from the left. All boundaries but the outer ones close a bin that has a fraction of the area, and the
bin above the last of them has the rest. -/
structure Thresholds (K α : Type) where
  boundaries : List K
  fractions : List α

inductive Shape (K α : Type)
  | spline (knots : Knots K) (coefs : List α)
  | binned (boundaries : List K) (heights : List α)
  | threshold (t : Thresholds K α)

structure Efficiency (K α : Type) where
  name : String
  shape : Shape K α

namespace Thresholds

variable {K α β : Type}

def map (f : α → β) (t : Thresholds K α) : Thresholds K β := ⟨t.boundaries, t.fractions.map f⟩

@[simp] theorem boundaries_map (f : α → β) (t : Thresholds K α) : (t.map f).boundaries = t.boundaries := rfl

@[simp] theorem fractions_map (f : α → β) (t : Thresholds K α) : (t.map f).fractions = t.fractions.map f := rfl

/-- The upper limits of the closed bins with their fractions. -/
def closed (t : Thresholds K α) : List (K × α) := t.boundaries.tail.zip t.fractions

variable [Scalar K]

def ofRange (low high : K) : Except (EfficiencyError K) (Thresholds K α) :=
  if Scalar.isFinite low && Scalar.isFinite high && low < high then .ok ⟨[low, high], []⟩
  else .error (.invalidRange low high)

theorem ofRange_eq_ok_iff {low high : K} {t : Thresholds K α} : ofRange low high = .ok t ↔
    (Scalar.isFinite low = true ∧ Scalar.isFinite high = true ∧ low < high) ∧ t = ⟨[low, high], []⟩ := by
  unfold ofRange
  split
  · rename_i hrange
    simp only [Bool.and_eq_true, decide_eq_true_eq] at hrange
    simp [hrange, eq_comm]
  · rename_i hrange
    simp only [Bool.and_eq_true, decide_eq_true_eq, and_assoc] at hrange
    exact ⟨nofun, fun h => absurd h.1 hrange⟩

def low (t : Thresholds K α) : K := t.boundaries.getD 0 0

def high (t : Thresholds K α) : K := t.boundaries.getD (t.boundaries.length - 1) 0

def previous (t : Thresholds K α) : K := t.boundaries.getD (t.boundaries.length - 2) 0

/-- Closes the open bin at `limit`, which goes in before the last boundary. -/
def close (t : Thresholds K α) (limit : K) (fraction : α) :
    Except (EfficiencyError K) (Thresholds K α) :=
  if !(t.low < limit && limit < t.high) then .error (.thresholdOutsideRange limit t.low t.high)
  else if !(t.previous < limit : Bool) then .error (.thresholdOutOfOrder limit t.previous)
  else .ok ⟨t.boundaries.insertIdx (t.boundaries.length - 1) limit, t.fractions ++ [fraction]⟩

theorem close_eq_ok_iff {t t' : Thresholds K α} {limit : K} {fraction : α} :
    t.close limit fraction = .ok t' ↔ (t.low < limit ∧ limit < t.high) ∧ t.previous < limit ∧
      t' = ⟨t.boundaries.insertIdx (t.boundaries.length - 1) limit, t.fractions ++ [fraction]⟩ := by
  unfold close
  by_cases hlow : t.low < limit
  · by_cases hhigh : limit < t.high
    · by_cases hprevious : t.previous < limit
      · simp [hlow, hhigh, hprevious, eq_comm]
      · simp [hlow, hhigh, hprevious]
    · simp [hhigh]
  · simp [hlow]

theorem fractions_of_close {t t' : Thresholds K α} {limit : K} {fraction : α}
    (h : t.close limit fraction = .ok t') : t'.fractions = t.fractions ++ [fraction] := by
  rw [(close_eq_ok_iff.mp h).2.2]

/-- What the closed bins leave of the whole area. -/
def lastFraction (t : Thresholds K K) : K := 1 - Scalar.sum t.fractions

def fraction (t : Thresholds K K) (bin : Nat) : K :=
  match t.fractions[bin]? with
  | some fraction => fraction
  | none => t.lastFraction

def height (t : Thresholds K K) (bin : Nat) : K :=
  t.fraction bin / (t.boundaries.getD (bin + 1) 0 - t.boundaries.getD bin 0)

/-- The step function whose areas are the fractions. -/
def steps (t : Thresholds K K) : Steps K where
  boundaries := t.boundaries
  heights := (List.range (t.boundaries.length - 1)).map t.height
  extended := false

/-- The area over a range, with the last fraction added up once and for all bins. -/
def area (t : Thresholds K K) (lo hi : K) : K :=
  let last := t.lastFraction
  Scalar.sum ((t.boundaries.zip t.boundaries.tail).zipIdx.map fun edges =>
    let overlap := min hi edges.1.2 - max lo edges.1.1
    if 0 < overlap then
      overlap * (t.fractions.getD edges.2 last /
        (t.boundaries.getD (edges.2 + 1) 0 - t.boundaries.getD edges.2 0))
    else 0)

end Thresholds

namespace Efficiency

variable {K α β : Type}

def parameters (e : Efficiency K α) : List α :=
  match e.shape with
  | .spline _ coefs => coefs
  | .binned _ heights => heights
  | .threshold t => t.fractions

def map (f : α → β) (e : Efficiency K α) : Efficiency K β :=
  ⟨e.name, match e.shape with
    | .spline knots coefs => .spline knots (coefs.map f)
    | .binned boundaries heights => .binned boundaries (heights.map f)
    | .threshold t => .threshold (t.map f)⟩

@[simp] theorem parameters_map (f : α → β) (e : Efficiency K α) :
    (e.map f).parameters = e.parameters.map f := by
  obtain ⟨name, shape⟩ := e
  cases shape <;> simp [parameters, map]

variable [Scalar K]

/-- The function of time that belongs to given values of the coefficients. -/
def profile (value : α → K) (e : Efficiency K α) : Profile K :=
  match (e.map value).shape with
  | .spline knots coefs => .curve ⟨knots, coefs⟩
  | .binned boundaries heights => .steps ⟨boundaries, heights, true⟩
  | .threshold t => .steps t.steps

def firstStall (boundaries : List K) : Option Nat :=
  (boundaries.zip boundaries.tail).findIdx? fun ab => !(ab.1 < ab.2 : Bool)

def checkBoundaries (boundaries : List K) : Except (EfficiencyError K) Unit :=
  if boundaries.length < 2 then .error (.tooFewBoundaries boundaries.length)
  else
    match boundaries.findIdx? fun b => !Scalar.isFinite b with
    | some i => .error (.nonIncreasingBoundaries i)
    | none =>
      match firstStall boundaries with
      | some i => .error (.nonIncreasingBoundaries (i + 1))
      | none => .ok ()

def ofBins (name : String) (boundaries : List K) (heights : List α) :
    Except (EfficiencyError K) (Efficiency K α) := do
  checkBoundaries boundaries
  if heights.length = boundaries.length - 1 then return ⟨name, .binned boundaries heights⟩
  else throw (.coefficientCount (boundaries.length - 1) heights.length)

def ofKnots (name : String) (knots : Knots K) (coefs : List α) :
    Except (EfficiencyError K) (Efficiency K α) :=
  if coefs.length = knots.size + 2 then .ok ⟨name, .spline knots coefs⟩
  else .error (.spline (.coefficientCount (knots.size + 2) coefs.length))

def ofCoefs (name : String) (points : List K) (coefs : List α) :
    Except (EfficiencyError K) (Efficiency K α) := do
  let knots ← EfficiencyError.ofSpline (Knots.ofList points)
  ofKnots name knots coefs

def ofRange (name : String) (low high : K) : Except (EfficiencyError K) (Efficiency K α) := do
  return ⟨name, .threshold (← Thresholds.ofRange low high)⟩

def addThreshold? (e : Efficiency K α) (limit : K) (fraction : α) :
    Option (Except (EfficiencyError K) (Efficiency K α)) :=
  match e.shape with
  | .threshold t => some do return ⟨e.name, .threshold (← t.close limit fraction)⟩
  | _ => none

end Efficiency
end LifetimeEfficiency
