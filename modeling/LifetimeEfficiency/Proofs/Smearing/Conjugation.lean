import LifetimeEfficiency.Numeric.Double
import LifetimeEfficiency.Proofs.Exact
import LifetimeEfficiency.Smearing.Convolution
/-!
# Conjugation

Smeared at the conjugate number a decay gives the conjugate. Each step of a convolution passes the conjugation on, from the rational
expansion to the sum over the segments.
-/
namespace LifetimeEfficiency

def Expansion.smearing {K : Type} [Scalar K] (e : Expansion K) (erf : K → K) (rootTwo : K) : Smearing K :=
  ⟨erf, e.gauss, e.kernel, e.rootPi, rootTwo⟩

example : Double.smearing = Double.expansion.smearing ErrorFunction.erf (Float.sqrt 2) := rfl

variable {K : Type} [Field K] [LinearOrder K]

namespace Complex

def conjugate (a : Complex K) : Complex K := ⟨a.re, -a.im⟩

def mirror (a : Complex K) : Complex K := ⟨-a.re, a.im⟩

variable (a b : Complex K) (r : K)

omit [Field K] [LinearOrder K] in
theorem eq_of_parts {a b : Complex K} (hre : a.re = b.re) (him : a.im = b.im) : a = b := by
  obtain ⟨re, im⟩ := a
  obtain ⟨re', im'⟩ := b
  cases hre
  cases him
  rfl

omit [LinearOrder K] in
@[simp] theorem re_conjugate : a.conjugate.re = a.re := rfl

omit [LinearOrder K] in
@[simp] theorem im_conjugate : a.conjugate.im = -a.im := rfl

theorem conjugate_zero : (zero : Complex K).conjugate = zero :=
  eq_of_parts rfl (by simp [zero])

theorem conjugate_add : (a + b).conjugate = a.conjugate + b.conjugate :=
  eq_of_parts rfl (neg_add a.im b.im)

theorem conjugate_sub : (a - b).conjugate = a.conjugate - b.conjugate :=
  eq_of_parts rfl (neg_sub' a.im b.im)

theorem conjugate_mul : (a * b).conjugate = a.conjugate * b.conjugate := by
  apply eq_of_parts
  · change a.re * b.re - a.im * b.im = a.re * b.re - -a.im * -b.im
    ring
  · change -(a.re * b.im + a.im * b.re) = a.re * -b.im + -a.im * b.re
    ring

theorem conjugate_scale : (a.scale r).conjugate = a.conjugate.scale r :=
  eq_of_parts rfl (neg_mul_eq_neg_mul a.im r)

theorem conjugate_addReal : (a.addReal r).conjugate = a.conjugate.addReal r := rfl

theorem conjugate_realSub : (realSub r a).conjugate = realSub r a.conjugate := by
  refine eq_of_parts rfl ?_
  simp [realSub, conjugate]

theorem normSq_conjugate : a.conjugate.normSq = a.normSq := by
  simp [normSq, conjugate]

theorem conjugate_inv : a.inv.conjugate = a.conjugate.inv := by
  apply eq_of_parts
  · simp only [inv, normSq_conjugate, re_conjugate]
  · simp only [inv, normSq_conjugate, im_conjugate, neg_div]

theorem conjugate_realDiv : (realDiv r a).conjugate = realDiv r a.conjugate := by
  apply eq_of_parts
  · simp only [realDiv, normSq_conjugate, re_conjugate]
  · simp only [realDiv, normSq_conjugate, im_conjugate, neg_div, mul_neg]

theorem conjugate_div : (a / b).conjugate = a.conjugate / b.conjugate := by
  apply eq_of_parts
  · change (a.re * b.re + a.im * b.im) / b.normSq = (a.re * b.re + -a.im * -b.im) / b.conjugate.normSq
    rw [normSq_conjugate]
    ring
  · change -((a.im * b.re - a.re * b.im) / b.normSq) = (-a.im * b.re - a.re * -b.im) / b.conjugate.normSq
    rw [normSq_conjugate]
    ring

theorem mirror_neg : (-a).mirror = -a.mirror := rfl

theorem neg_mul_mirror : -a.mirror * a.mirror = (-a * a).conjugate := by
  apply eq_of_parts
  · change - -a.re * -a.re - -a.im * a.im = -a.re * a.re - -a.im * a.im
    ring
  · change - -a.re * a.im + -a.im * -a.re = -(-a.re * a.im + -a.im * a.re)
    ring

theorem i_mul_mirror : i * a.mirror = (i * a).conjugate := by
  have hre : (i : Complex K).re = 0 := Scalar.exact_zero
  apply eq_of_parts
  · change i.re * -a.re - i.im * a.im = i.re * a.re - i.im * a.im
    rw [hre]
    ring
  · change i.re * a.im + i.im * -a.re = -(i.re * a.im + i.im * a.re)
    rw [hre]
    ring

end Complex

namespace Expansion

theorem conjugate_polynomial (coefs : List K) (ratio : Complex K) :
    (coefs.foldr (fun a p => (p * ratio).addReal a) Complex.zero).conjugate =
      coefs.foldr (fun a p => (p * ratio.conjugate).addReal a) Complex.zero := by
  induction coefs with
  | nil => exact Complex.conjugate_zero
  | cons a coefs ih => rw [List.foldr_cons, List.foldr_cons, Complex.conjugate_addReal, Complex.conjugate_mul, ih]

theorem upper_mirror (e : Expansion K) (w : Complex K) : e.upper w.mirror = (e.upper w).conjugate := by
  simp only [upper, Complex.i_mul_mirror, Complex.conjugate_add, Complex.conjugate_div,
    Complex.conjugate_scale, Complex.conjugate_mul, Complex.conjugate_realSub,
    Complex.conjugate_realDiv, Complex.conjugate_addReal, conjugate_polynomial]

variable {e : Expansion K} (hexp : ∀ z, e.complexExp z.conjugate = (e.complexExp z).conjugate)

include hexp

theorem faddeeva_mirror (w : Complex K) : e.faddeeva w.mirror = (e.faddeeva w).conjugate := by
  -- A mirror image lies in the same half plane.
  unfold faddeeva
  rw [apply_ite Complex.conjugate]
  refine if_congr Iff.rfl ?_ (upper_mirror e w)
  rw [Complex.neg_mul_mirror, hexp, ← Complex.mirror_neg, upper_mirror, Complex.conjugate_sub,
    Complex.conjugate_scale]

theorem kernel_conjugate (x : K) (z : Complex K) : e.kernel x z.conjugate = (e.kernel x z).conjugate := by
  have hargument : (⟨-z.conjugate.im, z.conjugate.re - x⟩ : Complex K) =
      (⟨-z.im, z.re - x⟩ : Complex K).mirror := rfl
  have hexponent : z.conjugate * z.conjugate - (z.conjugate.scale 2).scale x =
      (z * z - (z.scale 2).scale x).conjugate := by
    rw [Complex.conjugate_sub, Complex.conjugate_mul, Complex.conjugate_scale, Complex.conjugate_scale]
  -- The branch depends on the real part alone.
  unfold kernel
  dsimp only
  rw [hargument, hexponent, apply_ite Complex.conjugate]
  refine if_congr Iff.rfl ?_ ?_
  · rw [faddeeva_mirror hexp, Complex.conjugate_scale]
  · rw [← Complex.mirror_neg, faddeeva_mirror hexp, hexp, Complex.conjugate_sub, Complex.conjugate_scale,
      Complex.conjugate_scale]

end Expansion

/-- Conjugate decays are smeared to conjugate values. -/
def Smearing.Conjugates (s : Smearing K) : Prop := ∀ x z, s.kernel x z.conjugate = (s.kernel x z).conjugate

theorem Expansion.conjugates_smearing {e : Expansion K}
    (hexp : ∀ z, e.complexExp z.conjugate = (e.complexExp z).conjugate) (erf : K → K) (rootTwo : K) :
    (e.smearing erf rootTwo).Conjugates :=
  kernel_conjugate hexp

namespace Moments

def conjugate (m : Moments K) : Moments K :=
  ⟨m.m0.conjugate, m.m1.conjugate, m.m2.conjugate, m.m3.conjugate⟩

omit [LinearOrder K] in
theorem get_conjugate (m : Moments K) (n : Nat) : m.conjugate.get n = (m.get n).conjugate := by
  unfold get
  split <;> rfl

theorem conjugate_sub (a b : Moments K) : (a - b).conjugate = a.conjugate - b.conjugate := by
  change conjugate ⟨_, _, _, _⟩ = ⟨_, _, _, _⟩
  simp only [conjugate, Complex.conjugate_sub]

theorem gauss_conjugate {s : Smearing K} (hs : s.Conjugates) (x : K) (z : Complex K) :
    gauss s x z.conjugate = (gauss s x z).conjugate := by
  simp only [gauss, conjugate, hs x z, Complex.conjugate_addReal, Complex.conjugate_scale]

theorem decay_conjugate (z : Complex K) : decay z.conjugate = (decay z).conjugate := by
  simp only [decay, conjugate, Complex.conjugate_inv, Complex.conjugate_mul, Complex.conjugate_scale,
    Complex.conjugate_addReal]

end Moments

namespace Convolution

def conjugate (c : Convolution K) : Convolution K := { c with z := c.z.conjugate }

def conjugateSum (acc : Accumulator K) : Accumulator K :=
  ⟨acc.boundary.map fun limit => (limit.1, limit.2.conjugate), acc.sum.conjugate⟩

variable (c : Convolution K)

theorem addMoments_conjugate (p : Cubic K) (m : Moments K) (sum : Complex K) :
    c.conjugate.addMoments p m.conjugate sum.conjugate = (c.addMoments p m sum).conjugate := by
  have hdecay : Moments.decay c.conjugate.z = (Moments.decay c.z).conjugate :=
    Moments.decay_conjugate c.z
  refine List.foldl_hom Complex.conjugate fun sum jk => ?_
  dsimp only
  rw [apply_ite Complex.conjugate]
  refine if_congr Iff.rfl rfl ?_
  rw [hdecay, Moments.get_conjugate, Moments.get_conjugate, ← Complex.conjugate_mul,
    Complex.conjugate_add, Complex.conjugate_scale]
  rfl

variable {s : Smearing K} (hs : s.Conjugates)

include hs

theorem momentsAt_conjugate (t : K) : c.conjugate.momentsAt s t = (c.momentsAt s t).conjugate :=
  Moments.gauss_conjugate hs _ _

theorem lowerMoments_conjugate (acc : Accumulator K) (t : K) :
    c.conjugate.lowerMoments s (conjugateSum acc) t = (c.lowerMoments s acc t).conjugate := by
  obtain ⟨boundary, sum⟩ := acc
  cases boundary with
  | none => exact momentsAt_conjugate c hs t
  | some limit =>
    unfold lowerMoments conjugateSum
    dsimp only [Option.map]
    rw [apply_ite Moments.conjugate]
    exact if_congr Iff.rfl rfl (momentsAt_conjugate c hs t)

theorem addSegment_conjugate (acc : Accumulator K) (g : Segment K) :
    c.conjugate.addSegment s (conjugateSum acc) g = conjugateSum (c.addSegment s acc g) := by
  unfold addSegment
  rw [apply_ite conjugateSum]
  refine if_congr Iff.rfl ?_ rfl
  dsimp only
  rw [lowerMoments_conjugate c hs, momentsAt_conjugate c hs, ← Moments.conjugate_sub]
  exact congrArg (Accumulator.mk _) (addMoments_conjugate c (g.polynomial.shifted c.offset)
    (c.momentsAt s g.hi - c.lowerMoments s acc g.lo) acc.sum)

theorem total_conjugate (segments : List (Segment K)) :
    c.conjugate.total s segments = (c.total s segments).conjugate := by
  have hstart : conjugateSum (start : Accumulator K) = start :=
    congrArg (Accumulator.mk none) Complex.conjugate_zero
  calc
    (segments.foldl (c.conjugate.addSegment s) start).sum =
        (segments.foldl (c.conjugate.addSegment s) (conjugateSum start)).sum := by rw [hstart]
    _ = (conjugateSum (segments.foldl (c.addSegment s) start)).sum :=
      congrArg Accumulator.sum (List.foldl_hom conjugateSum (addSegment_conjugate c hs))

end Convolution

end LifetimeEfficiency
