import LifetimeEfficiency.Document.Efficiency
import LifetimeEfficiency.Document.Resolution
import LifetimeEfficiency.Resolution.Model
/-!
# Configurations

Efficiencies and resolution models by name, over one store of parameters. A document is inserted object by object, efficiencies
first, and the first failure ends it: what was inserted before stays. A name that is inserted again replaces the
older object, which models that were built on it keep.
-/
namespace LifetimeEfficiency

inductive ConfigurationError (K : Type)
  | unreadable
  | document (error : DocumentError K)
  | nameNotFound (name : String)
  | efficiency (error : EfficiencyError K)
  | parameter (error : ParameterError K)
  deriving DecidableEq

def ConfigurationError.message? {K : Type} (text documentary : K → String) :
    ConfigurationError K → Option String
  | .unreadable => none
  | .document error => error.message? documentary
  | .nameNotFound name => some s!"key '{name}' not found"
  | .efficiency error => some (error.message text)
  | .parameter error => some (error.message text)

structure Configuration (K : Type) where
  store : Store K
  efficiencies : List (String × Efficiency K Parameter)
  resolutions : List (String × ResolutionModel K Parameter)

namespace Configuration

variable {K : Type} [Scalar K]

def empty : Configuration K := ⟨Store.empty, [], []⟩

def named (doc : Json K) : Reading K (List (String × Json K) × String) := do
  let members ← doc.members
  let name ← Field.read members "name" Json.text
  return (members, ← Field.require "name" name)

/-- The name that an object is kept under, which is read before the object is built. -/
def nameOf (doc : Json K) : Reading K String := do
  let (_, name) ← named doc
  return name

def kindOf (members : List (String × Json K)) : Reading K EfficiencyKind := do
  let kind ← Field.read members "efficiency_type" (Field.variant EfficiencyKind.variants)
  Field.require "efficiency_type" kind

abbrev Inserting (K : Type) := Building K (ConfigurationError K)

def reading {α : Type} (r : Reading K α) : Inserting K α := fun s =>
  (r.map fun a => (a, s)).mapError .document

def building {α : Type} (b : Efficiency.Builder K α) : Inserting K α := fun s =>
  (b s).mapError .efficiency

/-- Exactly one of coefficients and values says what the spline is. -/
def buildSpline (name : String) (d : SplineDocument K) :
    Inserting K (Efficiency K Parameter) :=
  match d.coefs, d.values with
  | some coefs, none => building (Efficiency.ofConstantCoefs name d.points coefs)
  | none, some values =>
    building (Efficiency.ofSamples name d.points values d.errors d.smoothing d.ends d.constant)
  | _, _ => throw (.document (.notOneOf "coefficients and values both given or both missing"
      "exactly one of 'coefficients' or 'values'"))

/-- A fraction that is no fraction is reported as the parameter's own fault. -/
def ofThresholdError : EfficiencyError K → ConfigurationError K
  | .parameter error => .parameter error
  | error => .efficiency error

def buildEfficiency (name : String) (members : List (String × Json K)) :
    EfficiencyKind → Inserting K (Efficiency K Parameter)
  | .spline => do
    let d ← reading (SplineDocument.ofMembers members)
    buildSpline name d
  | .binned => do
    let d ← reading (BinnedDocument.ofMembers members)
    building (Efficiency.ofBinValues name d.boundaries d.coefs d.constant)
  | .threshold => do
    let d ← reading (ThresholdDocument.ofMembers members)
    fun s => (Efficiency.ofThresholds name d.low d.high d.thresholds d.constant s).mapError
      ofThresholdError

def readEfficiency (doc : Json K) : Inserting K (Efficiency K Parameter) := do
  let (members, name) ← reading (named doc)
  let kind ← reading (kindOf members)
  buildEfficiency name members kind

def insertEfficiency (c : Configuration K) (doc : Json K) :
    Except (ConfigurationError K) (Configuration K) := do
  let name ← (nameOf doc).mapError .document
  let (e, store) ← readEfficiency doc c.store
  return { c with store := store, efficiencies := Keyed.insert name e c.efficiencies }

def efficiency (c : Configuration K) (name : String) :
    Except (ConfigurationError K) (Efficiency K Parameter) :=
  match Keyed.find? name c.efficiencies with
  | some e => .ok e
  | none => .error (.nameNotFound name)

def resolution (c : Configuration K) (name : String) :
    Except (ConfigurationError K) (ResolutionModel K Parameter) :=
  match Keyed.find? name c.resolutions with
  | some m => .ok m
  | none => .error (.nameNotFound name)

/-- A model is bound to the efficiency that has its name now. -/
def readResolution (c : Configuration K) (doc : Json K) :
    Inserting K (ResolutionModel K Parameter) := do
  let (members, name) ← reading (named doc)
  let d ← reading (ResolutionDocument.ofMembers members)
  reading d.checkWidth
  let e ← (c.efficiency d.efficiency : Except _ _)
  ResolutionModel.constantly name e d.mean d.sigma d.meanScale d.sigmaScale

def insertResolution (c : Configuration K) (doc : Json K) :
    Except (ConfigurationError K) (Configuration K) := do
  let name ← (nameOf doc).mapError .document
  let (m, store) ← c.readResolution doc c.store
  return { c with store := store, resolutions := Keyed.insert name m c.resolutions }

/-- Inserts objects in order; the configuration that is left holds all before the first failure. -/
def insertAll
    (insert : Configuration K → Json K → Except (ConfigurationError K) (Configuration K)) :
    Configuration K → List (Json K) → Configuration K × Except (ConfigurationError K) Unit
  | c, [] => (c, .ok ())
  | c, doc :: docs =>
    match insert c doc with
    | .ok c => insertAll insert c docs
    | .error e => (c, .error e)

def parts : Json K → Reading K (List (Json K) × List (Json K))
  | .obj members => do
    let efficiencies ← Field.read members "efficiency" (Json.list pure)
    let resolutions ← Field.read members "resolution" (Json.list pure)
    return (efficiencies.getD [], resolutions.getD [])
  | .arr [] => return ([], [])
  | .arr [efficiencies] => return (← Json.list pure efficiencies, [])
  | .arr [efficiencies, resolutions] => do
    let efficiencies ← Json.list pure efficiencies
    return (efficiencies, ← Json.list pure resolutions)
  | _ => throw .illFormed

def load (c : Configuration K) (doc : Json K) :
    Configuration K × Except (ConfigurationError K) Unit :=
  match parts doc with
  | .error e => (c, .error (.document e))
  | .ok (efficiencies, resolutions) =>
    match insertAll insertEfficiency c efficiencies with
    | (c, .ok ()) => insertAll insertResolution c resolutions
    | failed => failed

/-- Hands the document that a text holds to `use`; there may be no text to read. -/
def withText (parse : String → Option (Json K))
    (use : Configuration K → Json K → Configuration K × Except (ConfigurationError K) Unit)
    (c : Configuration K) : Option String → Configuration K × Except (ConfigurationError K) Unit
  | none => (c, .error .unreadable)
  | some text =>
    match parse text with
    | some doc => use c doc
    | none => (c, .error (.document .illFormed))

def insertDocument
    (insert : Configuration K → Json K → Except (ConfigurationError K) (Configuration K))
    (c : Configuration K) : Json K → Configuration K × Except (ConfigurationError K) Unit
  | .arr docs => insertAll insert c docs
  | doc => insertAll insert c [doc]

end Configuration
end LifetimeEfficiency
