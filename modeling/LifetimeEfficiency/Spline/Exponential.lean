import LifetimeEfficiency.Spline.Basis
/-!
# Integrals against an exponential

Cubic polynomials and basis functions times a decaying exponential. The polynomial is moved to the lower limit, where
each power integrates to a regularised incomplete gamma function of the decay rate times the width.
-/
namespace LifetimeEfficiency

/-- The exponential, and the regularised lower incomplete gamma function of whole order where it is defined. -/
structure DecayFunctions (K : Type) where
  exp : K → K
  lowerGamma : Nat → K → Option K

variable {K : Type} [Scalar K]

namespace DecayFunctions

def factorial : Nat → Nat
  | 0 => 1
  | n + 1 => (n + 1) * factorial n

/-- Adds the integral of `cₙ yⁿ exp (-γ y)` from zero to `w` to the first part of `state`. The second is the power of the rate to divide
by; a vanishing coefficient asks for nothing. -/
def addPower (d : DecayFunctions K) (gamma w : K) (q : Cubic K) (state : K × K) (n : Nat) :
    Except (Misuse K) (K × K) :=
  if q.coef n == 0 then .ok (state.1, state.2 * gamma)
  else
    match d.lowerGamma (n + 1) (gamma * w) with
    | some part =>
      .ok (state.1 + q.coef n * Scalar.ofNat (factorial n) * part / state.2, state.2 * gamma)
    | none => .error .gammaDomain

def integral (d : DecayFunctions K) (p : Cubic K) (lo hi gamma : K) : Except (Misuse K) K :=
  if lo ≤ hi then do
    let state ← (List.range 4).foldlM (d.addPower gamma (hi - lo) (p.shifted lo)) (0, gamma)
    return d.exp (-gamma * lo) * state.1
  else .error (.invertedIntegration lo hi)

/-- Adds what interval `i` contributes to the integrals of the four basis functions that live on it. -/
def addInterval (d : DecayFunctions K) (k : Knots K) (lo hi gamma : K) (integrals : List K) (i : Nat) :
    Except (Misuse K) (List K) :=
  let a := max lo (k.u i)
  let b := min hi (k.u (i + 1))
  if b ≤ a then .ok integrals
  else
    (List.range 4).foldlM (fun integrals slot => do
      let part ← d.integral (k.basisPolynomial i slot) a b gamma
      return integrals.modify (i + slot) (· + part)) integrals

def basisIntegrals (d : DecayFunctions K) (k : Knots K) (lo hi gamma : K) :
    Except (Misuse K) (List K) :=
  (List.range k.intervals).foldlM (d.addInterval k lo hi gamma) (List.replicate (k.size + 2) 0)

end DecayFunctions
end LifetimeEfficiency
