import LifetimeEfficiency.Document.Fields
import LifetimeEfficiency.Resolution.Generation
/-!
# Documents of resolution models

A model names the efficiency it is built on and gives four numbers, of which the two scale factors are one unless
given.
-/
namespace LifetimeEfficiency

structure ResolutionDocument (K : Type) where
  efficiency : String
  mean : K
  sigma : K
  meanScale : K
  sigmaScale : K

namespace ResolutionDocument

variable {K : Type} [Scalar K]

def ofMembers (members : List (String × Json K)) : Reading K (ResolutionDocument K) := do
  let efficiency ← Field.read members "efficiency" Json.text
  let mean ← Field.read members "mean" Json.number
  let meanScale ← Field.read members "mean_scale_factor" Json.number
  let sigma ← Field.read members "sigma" Json.number
  let sigmaScale ← Field.read members "sigma_scale_factor" Json.number
  let efficiency ← Field.require "efficiency" efficiency
  let mean ← Field.require "mean" mean
  let sigma ← Field.require "sigma" sigma
  return ⟨efficiency, mean, sigma, meanScale.getD 1, sigmaScale.getD 1⟩

/-- The width must be usable before anything else is looked at. -/
def checkWidth (d : ResolutionDocument K) : Reading K Unit :=
  let width := d.sigma * d.sigmaScale
  if Generator.isPositive width then return () else throw (.nonPositiveWidth width)

end ResolutionDocument
end LifetimeEfficiency
