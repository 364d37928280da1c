import LifetimeEfficiency.Efficiency.Basic
import LifetimeEfficiency.Resolution.Response
/-!
# Resolution models

A named Gaussian resolution on an efficiency. Its mean and its width are each a product of two coefficients, which like
those of the efficiency may be parameters that move later.
-/
namespace LifetimeEfficiency

structure ResolutionModel (K α : Type) where
  name : String
  efficiency : Efficiency K α
  mean : α
  sigma : α
  meanScale : α
  sigmaScale : α

namespace ResolutionModel

variable {K α : Type} [Scalar K]

def width (value : α → K) (m : ResolutionModel K α) : K := value m.sigma * value m.sigmaScale

def offset (value : α → K) (m : ResolutionModel K α) : K := value m.mean * value m.meanScale

def response (value : α → K) (m : ResolutionModel K α) : Response K :=
  ⟨m.efficiency.profile value, m.width value, m.offset value⟩

/-- A model whose scale factors are new parameters, held at one. -/
def unscaled {ε : Type} (name : String) (efficiency : Efficiency K Parameter)
    (mean sigma : Parameter) : Building K ε (ResolutionModel K Parameter) := do
  let meanScale ← Parameter.constantly s!"{name}_mean_scale_factor" 1
  let sigmaScale ← Parameter.constantly s!"{name}_sigma_scale_factor" 1
  return ⟨name, efficiency, mean, sigma, meanScale, sigmaScale⟩

def constantly {ε : Type} (name : String) (efficiency : Efficiency K Parameter)
    (mean sigma meanScale sigmaScale : K) : Building K ε (ResolutionModel K Parameter) := do
  let mean ← Parameter.constantly s!"{name}_mean" mean
  let sigma ← Parameter.constantly s!"{name}_sigma" sigma
  let meanScale ← Parameter.constantly s!"{name}_mean_scale_factor" meanScale
  let sigmaScale ← Parameter.constantly s!"{name}_sigma_scale_factor" sigmaScale
  return ⟨name, efficiency, mean, sigma, meanScale, sigmaScale⟩

end ResolutionModel
end LifetimeEfficiency
