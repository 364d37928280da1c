import LifetimeEfficiency.Efficiency.Basic
import LifetimeEfficiency.Spline.HistogramFit
import LifetimeEfficiency.Spline.Smoothing
/-!
# Building efficiencies

Efficiencies whose coefficients are new parameters: from samples at the knots, from a histogram, from bin contents, and
from a list of thresholds.
-/
namespace LifetimeEfficiency.Efficiency

variable {K : Type} [Scalar K]

abbrev Builder (K : Type) := Building K (EfficiencyError K)

def parametersOf (stem : String) (values : List K) (constant : Bool) : Builder K (List Parameter) :=
  fun s => EfficiencyError.ofParameter (Parameter.ofValues stem values constant s)

/-- The outer coefficients of a curve are fixed by the outer values and stay constant. -/
def holdOuter (ps : List Parameter) : Builder K Unit :=
  modify fun s => (ps.head?.toList ++ ps.getLast?.toList).foldl
    (fun s p => s.setConstant p true) s

def splineParameters (name : String) (coefs : List K) (constant : Bool) :
    Builder K (List Parameter) := do
  if constant then parametersOf s!"{name}_coef" coefs true
  else
    let ps ← parametersOf s!"{name}_smoothed_bin" coefs false
    holdOuter ps
    return ps

/-- The coefficients of the curve through samples, smoothed first if there is any smoothing to do. -/
def sampleCoefs (knots : Knots K) (values errors : List K) (smoothing : K)
    (ends : EndConditions K) : Except (SplineError K) (List K) :=
  if 0 < smoothing then Spline.interpolateSmoothed knots values errors smoothing ends
  else Spline.interpolate knots values ends

/-- The smoothing is looked at before anything else. -/
def ofSamples (name : String) (points values errors : List K) (smoothing : K)
    (ends : EndConditions K) (constant : Bool) : Builder K (Efficiency K Parameter) := do
  if !Spline.isSmoothing smoothing then throw (.spline (.smoothingOutOfRange smoothing))
  let knots ← EfficiencyError.ofSpline (Knots.ofList points)
  let coefs ← EfficiencyError.ofSpline (sampleCoefs knots values errors smoothing ends)
  return ⟨name, .spline knots (← splineParameters name coefs constant)⟩

/-- Knots at the centres of the bins, and no curvature at the ends. -/
def ofHistogram (name : String) (bins : List (Bin K)) (smoothing : K) (constant : Bool) :
    Builder K (Efficiency K Parameter) :=
  ofSamples name (bins.map Bin.centre) (bins.map Bin.content) (bins.map Bin.error) smoothing
    EndConditions.natural constant

def ofBinValues (name : String) (boundaries values : List K) (constant : Bool) :
    Builder K (Efficiency K Parameter) := do
  let heights ← parametersOf s!"{name}_bin" values constant
  (ofBins name boundaries heights : Except _ _)

def ofConstantCoefs (name : String) (points coefs : List K) : Builder K (Efficiency K Parameter) := do
  let ps ← parametersOf s!"{name}_coef" coefs true
  (ofCoefs name points ps : Except _ _)

def fraction (name : String) (value : K) (constant : Bool) : Builder K Parameter := fun s =>
  EfficiencyError.ofParameter <|
    if constant then Parameter.constantly name value s else Parameter.floating name value 0 1 s

def closeAll (name : String) (constant : Bool) :
    Thresholds K Parameter → List ((K × K) × Nat) → Builder K (Thresholds K Parameter)
  | t, [] => return t
  | t, ((limit, value), i) :: rest => do
    let p ← fraction s!"{name}_threshold_{i}" value constant
    let t ← (t.close limit p : Except _ _)
    closeAll name constant t rest

def ofThresholds (name : String) (low high : K) (thresholds : List (K × K)) (constant : Bool) :
    Builder K (Efficiency K Parameter) := do
  let t ← (Thresholds.ofRange low high : Except _ _)
  return ⟨name, .threshold (← closeAll name constant t thresholds.zipIdx)⟩

end LifetimeEfficiency.Efficiency
