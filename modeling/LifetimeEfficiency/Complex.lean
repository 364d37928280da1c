import LifetimeEfficiency.Scalar
/-!
# Complex numbers

Pairs of scalars. Products and sums with a real operand act on the parts alone, so an infinite or
undefined part never leaks into the other one through a product with zero.
-/
namespace LifetimeEfficiency

structure Complex (K : Type) where
  re : K
  im : K

namespace Complex

variable {K : Type} [Scalar K]

def zero : Complex K := ⟨0, 0⟩

def i : Complex K := ⟨0, 1⟩

instance : Add (Complex K) := ⟨fun a b => ⟨a.re + b.re, a.im + b.im⟩⟩

instance : Sub (Complex K) := ⟨fun a b => ⟨a.re - b.re, a.im - b.im⟩⟩

instance : Neg (Complex K) := ⟨fun a => ⟨-a.re, -a.im⟩⟩

instance : Mul (Complex K) :=
  ⟨fun a b => ⟨a.re * b.re - a.im * b.im, a.re * b.im + a.im * b.re⟩⟩

def normSq (a : Complex K) : K := a.re * a.re + a.im * a.im

instance : Div (Complex K) where
  div a b :=
    let n := b.normSq
    ⟨(a.re * b.re + a.im * b.im) / n, (a.im * b.re - a.re * b.im) / n⟩

def inv (a : Complex K) : Complex K := ⟨a.re / a.normSq, -a.im / a.normSq⟩

def scale (a : Complex K) (r : K) : Complex K := ⟨a.re * r, a.im * r⟩

def addReal (a : Complex K) (r : K) : Complex K := ⟨a.re + r, a.im⟩

def subReal (a : Complex K) (r : K) : Complex K := ⟨a.re - r, a.im⟩

def realSub (r : K) (a : Complex K) : Complex K := ⟨r - a.re, 0 - a.im⟩

def realDiv (r : K) (a : Complex K) : Complex K :=
  ⟨r * a.re / a.normSq, -(r * a.im) / a.normSq⟩

end Complex
end LifetimeEfficiency
