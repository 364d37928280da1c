import LifetimeEfficiency.Efficiency.Profile
import LifetimeEfficiency.Resolution.DecayBasis
/-!
# Responses

A profile seen through a Gaussian resolution. A basis is smeared by the kernel at one complex number, or by half the sum
or difference of two; without a lifetime to smear the resolution itself is left.
-/
namespace LifetimeEfficiency

/-- A resolution with its present width and offset. -/
structure Response (K : Type) where
  profile : Profile K
  width : K
  offset : K

/-- How a basis is written in terms of the kernel. -/
inductive KernelForm (K : Type)
  | gaussian
  | vanishing
  | real (z : Complex K)
  | imaginary (z : Complex K)
  | hyperbolic (z : Complex K) (y sign : K)

namespace KernelForm

variable {K : Type} [Scalar K]

/-- The decay rate and the frequency in units of half the scale. -/
def argument (scale tau omega : K) : Complex K :=
  Complex.scale ⟨1 / tau, -omega⟩ (Scalar.half * scale)

/-- Without a lifetime what starts at one is a Gaussian and what starts at zero vanishes. -/
def ofInstant : DecayBasis K → KernelForm K
  | .exp _ => .gaussian
  | .cos _ _ => .gaussian
  | _ => .vanishing

def general (scale : K) : DecayBasis K → KernelForm K
  | .flat => .gaussian
  | .exp tau => .real (argument scale tau 0)
  | .cos tau omega => .real (argument scale tau omega)
  | .sin tau omega => .imaginary (argument scale tau omega)
  | .cosh tau deltaGamma => .hyperbolic (argument scale tau 0) (1 / 4 * scale * deltaGamma) 1
  | .sinh tau deltaGamma => .hyperbolic (argument scale tau 0) (1 / 4 * scale * deltaGamma) (-1)

/-- A sine without a frequency is not smeared. -/
def ofDecay (scale : K) (basis : DecayBasis K) : KernelForm K :=
  match basis with
  | .sin _ omega => if omega == 0 then .vanishing else general scale basis
  | _ => general scale basis

def ofBasis (scale : K) (basis : DecayBasis K) : KernelForm K :=
  let basis := basis.normalized
  match basis.tau? with
  | none => .gaussian
  | some tau => if tau == 0 then ofInstant basis else ofDecay scale basis

end KernelForm

namespace Response

variable {K : Type} [Scalar K]

def scale (s : Smearing K) (r : Response K) : K := r.width * s.rootTwo

def reduced (s : Smearing K) (r : Response K) (t : K) : K := (t - r.offset) / r.scale s

def valueOf (s : Smearing K) (r : Response K) (form : KernelForm K) (t : K) : K :=
  let scale := r.scale s
  let u := r.reduced s t
  match form with
  | .gaussian => r.profile.value t * s.gauss u / (scale * s.rootPi)
  | .vanishing => 0
  | .real z => r.profile.value t * (s.kernel u z).re
  | .imaginary z => r.profile.value t * (s.kernel u z).im
  | .hyperbolic z y sign =>
    r.profile.value t *
      (Scalar.half * ((s.kernel u (z.subReal y)).re + sign * (s.kernel u (z.addReal y)).re))

/-- The smeared basis times the efficiency. -/
def value (s : Smearing K) (r : Response K) (basis : DecayBasis K) (t : K) : K :=
  r.valueOf s (KernelForm.ofBasis (r.scale s) basis) t

def integralOf (s : Smearing K) (r : Response K) (form : KernelForm K) (tmin tmax : K) :
    Except (Misuse K) (Option K) := do
  let scale := r.scale s
  let convolve (z : Complex K) : Except (Misuse K) (Complex K) :=
    r.profile.convolution s ⟨scale, r.offset, z⟩ (r.reduced s tmin) (r.reduced s tmax)
  match form with
  | .gaussian => return none
  | .vanishing => return some 0
  | .real z => return some (scale * (← convolve z).re)
  | .imaginary z => return some (scale * (← convolve z).im)
  | .hyperbolic z y sign => do
    let a ← convolve (z.subReal y)
    let b ← convolve (z.addReal y)
    return some (scale * (Scalar.half * (a.re + sign * b.re)))

/-- The integral of the values in closed form; the bare Gaussian has none. -/
def integral? (s : Smearing K) (r : Response K) (basis : DecayBasis K) (tmin tmax : K) :
    Except (Misuse K) (Option K) :=
  r.integralOf s (KernelForm.ofBasis (r.scale s) basis) tmin tmax

end Response
end LifetimeEfficiency
