import LifetimeEfficiency.Banded.Tridiagonal
import LifetimeEfficiency.Spline.Basis
/-!
# Interpolation

The spline through given values at the knots. The outer two coefficients are the outer two values; the others solve a
tridiagonal system whose inner rows are the basis at the knots and whose outer rows are the end conditions.
-/
namespace LifetimeEfficiency

inductive EndCondition (K : Type)
  | secondDerivative (value : K)
  | firstDerivative (value : K)
  deriving DecidableEq

structure EndConditions (K : Type) where
  left : EndCondition K
  right : EndCondition K
  deriving DecidableEq

def EndConditions.natural {K : Type} [Scalar K] : EndConditions K :=
  ⟨.secondDerivative 0, .secondDerivative 0⟩

namespace Spline

variable {K : Type} [Scalar K]

def checkLength (what : String) (values : List K) (expected : Nat) :
    Except (SplineError K) Unit :=
  if values.length = expected then .ok () else .error (.length what expected values.length)

/-- One equation; the unknown left of the first and right of the last one is absent. -/
structure Equation (K : Type) where
  below : K
  diag : K
  above : K
  rhs : K

def leftEquation (k : Knots K) (first : K) : EndCondition K → Equation K
  | .secondDerivative v =>
    let w := k.width 0
    let h := k.h 2 0
    ⟨0, -(6 / w + 6 / h) / w, 6 / (h * w), v - first * 6 / (w * w)⟩
  | .firstDerivative v =>
    let w := k.width 0
    ⟨0, 3 / w, 0, v + first * 3 / w⟩

def rightEquation (k : Knots K) (last : K) : EndCondition K → Equation K
  | .secondDerivative v =>
    let w := k.width (k.size - 2 : Int)
    let h := k.h (k.size - 1 : Int) (k.size - 3 : Int)
    ⟨6 / (h * w), -(6 / w + 6 / h) / w, 0, v - last * 6 / (w * w)⟩
  | .firstDerivative v =>
    let w := k.width (k.size - 2 : Int)
    ⟨0, -3 / w, 0, v - last * 3 / w⟩

def innerEquation (k : Knots K) (i : Nat) (value : K) : Equation K :=
  let basis := k.basisValues i (k.u i)
  ⟨basis.getD 0 0, basis.getD 1 0, basis.getD 2 0, value⟩

def equations (k : Knots K) (values : List K) (ends : EndConditions K) : List (Equation K) :=
  leftEquation k (values.getD 0 0) ends.left ::
    (List.range (k.size - 2)).map (fun i => innerEquation k (i + 1) (values.getD (i + 1) 0)) ++
    [rightEquation k (values.getD (k.size - 1) 0) ends.right]

/-- The coefficients of the spline with the given values at the knots. -/
def interpolate (k : Knots K) (values : List K) (ends : EndConditions K) :
    Except (SplineError K) (List K) := do
  checkLength "sampled values" values k.size
  let rows := equations k values ends
  let inner ← SplineError.ofBanded do
    let system ← Tridiagonal.ofBands (rows.tail.map (·.below)) (rows.map (·.diag))
      (rows.dropLast.map (·.above))
    system.solve (rows.map (·.rhs))
  return values.getD 0 0 :: inner ++ [values.getD (k.size - 1) 0]

end Spline
end LifetimeEfficiency
