/-!
# The logarithm of the gamma function

A sum of partial fractions with a fixed shift, for arguments from one half on.
-/
namespace LifetimeEfficiency.LogGamma

def shift : Float := 10.900511

def leading : Float := 2.48574089138753565546e-5

def numerators : List Float := [
  1.05142378581721974210, -3.45687097222016235469, 4.51227709466894823700,
  -2.98285225323576655721, 1.05639711577126713077, -1.95428773191645869583e-1,
  1.70970543404441224307e-2, -5.71926117404305781283e-4, 4.63399473359905636708e-6,
  -2.71994908488607703910e-9]

def fractions (x : Float) : Float :=
  numerators.zipIdx.foldl (fun sum cn => sum + cn.1 / (x + (cn.2 + 1).toFloat - 1)) leading

/-- The logarithm of `2 √(e / π)`. -/
def offset : Float := 0.6207822376352452223455184457816472

def euler : Float := 2.718281828459045

def logGamma (x : Float) : Float :=
  Float.log (fractions x) + offset + (x - 0.5) * Float.log ((x - 0.5 + shift) / euler)

end LifetimeEfficiency.LogGamma
