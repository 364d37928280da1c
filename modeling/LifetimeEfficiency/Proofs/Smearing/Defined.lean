import LifetimeEfficiency.Proofs.Undefined
import LifetimeEfficiency.Smearing.Convolution
/-!
# Defined convolutions

From numbers a convolution makes numbers, as long as it is not taken at zero. The inverse of that argument is the only
quotient in it whose denominator is not a constant or the scale.
-/
namespace LifetimeEfficiency

open Undefinable (undefined number)

variable {K : Type} [Field K] [LinearOrder K]

/-- Both parts are numbers. -/
structure Complex.Defined (z : Complex (Undefinable K)) : Prop where
  re : z.re ≠ undefined
  im : z.im ≠ undefined

structure Cubic.Defined (p : Cubic (Undefinable K)) : Prop where
  c0 : p.c0 ≠ undefined
  c1 : p.c1 ≠ undefined
  c2 : p.c2 ≠ undefined
  c3 : p.c3 ≠ undefined

structure Segment.Defined (g : Segment (Undefinable K)) : Prop where
  lo : g.lo ≠ undefined
  hi : g.hi ≠ undefined
  polynomial : g.polynomial.Defined

def Moments.Defined (m : Moments (Undefinable K)) : Prop := ∀ j, (m.get j).Defined

/-- Numbers have numbers as their values, and what the moments divide by is not zero. -/
structure Smearing.Defined (s : Smearing (Undefinable K)) : Prop where
  erf : ∀ x, x ≠ undefined → s.erf x ≠ undefined
  gauss : ∀ x, x ≠ undefined → s.gauss x ≠ undefined
  kernel : ∀ x z, x ≠ undefined → z.Defined → (s.kernel x z).Defined
  rootPi : s.rootPi ≠ undefined ∧ s.rootPi ≠ 0
  rootTwo : s.rootTwo ≠ undefined

/-- The same functions, which give values for numbers only. -/
def Smearing.undefinable (s : Smearing K) : Smearing (Undefinable K) where
  erf := Undefinable.map s.erf
  gauss := Undefinable.map s.gauss
  kernel
    | number x, ⟨number a, number b⟩ => ⟨number (s.kernel x ⟨a, b⟩).re, number (s.kernel x ⟨a, b⟩).im⟩
    | _, _ => ⟨undefined, undefined⟩
  rootPi := number s.rootPi
  rootTwo := number s.rootTwo

theorem Smearing.defined_undefinable {s : Smearing K} (hroot : s.rootPi ≠ 0) : s.undefinable.Defined where
  erf x hx := by
    obtain ⟨a, rfl⟩ := Undefinable.exists_number hx
    nofun
  gauss x hx := by
    obtain ⟨a, rfl⟩ := Undefinable.exists_number hx
    nofun
  kernel x z hx hz := by
    obtain ⟨re, im⟩ := z
    obtain ⟨x, rfl⟩ := Undefinable.exists_number hx
    obtain ⟨a, rfl⟩ : ∃ a, re = number a := Undefinable.exists_number hz.re
    obtain ⟨b, rfl⟩ : ∃ b, im = number b := Undefinable.exists_number hz.im
    exact ⟨nofun, nofun⟩
  rootPi := ⟨nofun, mt Undefinable.number_eq_zero_iff.mp hroot⟩
  rootTwo := nofun

namespace Complex

variable {a b z : Complex (Undefinable K)} {x : Undefinable K}

theorem defined_zero : (zero : Complex (Undefinable K)).Defined := ⟨by simp [zero], by simp [zero]⟩

theorem Defined.add (ha : a.Defined) (hb : b.Defined) : (a + b).Defined :=
  ⟨mt Undefinable.add_eq_undefined_iff.mp (not_or.mpr ⟨ha.re, hb.re⟩),
    mt Undefinable.add_eq_undefined_iff.mp (not_or.mpr ⟨ha.im, hb.im⟩)⟩

theorem Defined.sub (ha : a.Defined) (hb : b.Defined) : (a - b).Defined :=
  ⟨mt Undefinable.sub_eq_undefined_iff.mp (not_or.mpr ⟨ha.re, hb.re⟩),
    mt Undefinable.sub_eq_undefined_iff.mp (not_or.mpr ⟨ha.im, hb.im⟩)⟩

theorem Defined.mul (ha : a.Defined) (hb : b.Defined) : (a * b).Defined := by
  have hre : a.re * b.re - a.im * b.im ≠ undefined := by
    simp [ha.re, ha.im, hb.re, hb.im]
  have him : a.re * b.im + a.im * b.re ≠ undefined := by
    simp [ha.re, ha.im, hb.re, hb.im]
  exact ⟨hre, him⟩

theorem Defined.scale (ha : a.Defined) (hx : x ≠ undefined) : (a.scale x).Defined :=
  ⟨by simp [Complex.scale, ha.re, hx], by simp [Complex.scale, ha.im, hx]⟩

theorem Defined.addReal (ha : a.Defined) (hx : x ≠ undefined) : (a.addReal x).Defined :=
  ⟨by simp [Complex.addReal, ha.re, hx], ha.im⟩

theorem Defined.subReal (ha : a.Defined) (hx : x ≠ undefined) : (a.subReal x).Defined :=
  ⟨by simp [Complex.subReal, ha.re, hx], ha.im⟩

theorem Defined.normSq (hz : z.Defined) : z.normSq ≠ undefined := by
  simp [Complex.normSq, hz.re, hz.im]

theorem Defined.normSq_eq_zero_iff [IsStrictOrderedRing K] (hz : z.Defined) : z.normSq = 0 ↔ z = zero := by
  obtain ⟨x, hx⟩ := Undefinable.exists_number hz.re
  obtain ⟨y, hy⟩ := Undefinable.exists_number hz.im
  obtain ⟨re, im⟩ := z
  obtain rfl : re = number x := hx
  obtain rfl : im = number y := hy
  have hnorm : (⟨number x, number y⟩ : Complex (Undefinable K)).normSq = number (x * x + y * y) := rfl
  have hzero : (zero : Complex (Undefinable K)) = ⟨number 0, number 0⟩ := by
    rw [zero, Undefinable.zero_eq]
  rw [hnorm, hzero, Undefinable.zero_eq, Undefinable.number.injEq, mul_self_add_mul_self_eq_zero, Complex.mk.injEq,
    Undefinable.number.injEq, Undefinable.number.injEq]

theorem Defined.inv [IsStrictOrderedRing K] (hz : z.Defined) (hne : z ≠ zero) : z.inv.Defined := by
  have hnorm : z.normSq ≠ 0 := mt hz.normSq_eq_zero_iff.mp hne
  exact ⟨by simp [Complex.inv, hz.re, hz.normSq, hnorm], by simp [Complex.inv, hz.im, hz.normSq, hnorm]⟩

end Complex

namespace Cubic

variable {p q : Cubic (Undefinable K)} {x : Undefinable K}

theorem defined_constant (hx : x ≠ undefined) : (constant x).Defined :=
  ⟨hx, by simp [constant], by simp [constant], by simp [constant]⟩

theorem Defined.add (hp : p.Defined) (hq : q.Defined) : (p + q).Defined := by
  have h {a b : Undefinable K} (ha : a ≠ undefined) (hb : b ≠ undefined) : a + b ≠ undefined := by
    simp [ha, hb]
  exact ⟨h hp.c0 hq.c0, h hp.c1 hq.c1, h hp.c2 hq.c2, h hp.c3 hq.c3⟩

theorem Defined.scale (hp : p.Defined) (hx : x ≠ undefined) : (p.scale x).Defined := by
  constructor <;> simp [Cubic.scale, hp.c0, hp.c1, hp.c2, hp.c3, hx]

theorem defined_foldl_add {ps : List (Cubic (Undefinable K))} (hq : q.Defined) (hps : ∀ p ∈ ps, p.Defined) :
    (ps.foldl (· + ·) q).Defined := by
  induction ps generalizing q with
  | nil => exact hq
  | cons p ps ih =>
    obtain ⟨hp, hrest⟩ := List.forall_mem_cons.mp hps
    exact ih (hq.add hp) hrest

theorem Defined.shifted (hp : p.Defined) (hx : x ≠ undefined) : (p.shifted x).Defined := by
  unfold Cubic.shifted
  split
  · exact hp
  · constructor <;> simp [hp.c0, hp.c1, hp.c2, hp.c3, hx]

theorem Defined.coef (hp : p.Defined) (n : Nat) : p.coef n ≠ undefined := by
  unfold Cubic.coef
  split
  · exact hp.c0
  · exact hp.c1
  · exact hp.c2
  · exact hp.c3
  · exact Undefinable.zero_ne_undefined

theorem Defined.moment [IsStrictOrderedRing K] (hp : p.Defined) (j k : Nat) : p.moment j k ≠ undefined := by
  have hpow : (Scalar.ofNat (2 ^ (j + k)) : Undefinable K) ≠ 0 :=
    Undefinable.natCast_ne_zero (Nat.pow_pos two_pos).ne'
  simp [Cubic.moment, hp.coef, hpow]

end Cubic

namespace Moments

variable {m m' : Moments (Undefinable K)} {s : Smearing (Undefinable K)} {x : Undefinable K} {z : Complex (Undefinable K)}

omit [Field K] [LinearOrder K] in
theorem defined_of_orders (h0 : m.m0.Defined) (h1 : m.m1.Defined) (h2 : m.m2.Defined) (h3 : m.m3.Defined) : m.Defined
  | 0 => h0
  | 1 => h1
  | 2 => h2
  | _ + 3 => h3

theorem Defined.sub (hm : m.Defined) (hm' : m'.Defined) : (m - m').Defined :=
  defined_of_orders ((hm 0).sub (hm' 0)) ((hm 1).sub (hm' 1)) ((hm 2).sub (hm' 2)) ((hm 3).sub (hm' 3))

theorem kernelFactor_ne_undefined (hx : x ≠ undefined) (n : Nat) : kernelFactor x n ≠ undefined := by
  unfold kernelFactor
  split <;> simp [hx]

theorem defined_gauss (hs : s.Defined) (hx : x ≠ undefined) (hz : z.Defined) : (gauss s x z).Defined := by
  have hkernel := hs.kernel x z hx hz
  have hslope : 2 / s.rootPi ≠ undefined := by
    simp [hs.rootPi]
  have hcombine {l0 l1 l2 : Undefinable K} (h0 : l0 ≠ undefined) (h1 : l1 ≠ undefined) (h2 : l2 ≠ undefined) :
      (((s.kernel x z).scale l2).addReal (s.erf x * l0 + s.gauss x * l1)).Defined :=
    (hkernel.scale h2).addReal (by simp [hs.erf x hx, hs.gauss x hx, h0, h1])
  have hfactor (n : Nat) : 2 / s.rootPi * kernelFactor x n ≠ undefined := by
    simp [hs.rootPi, kernelFactor_ne_undefined hx]
  exact defined_of_orders (hcombine (by simp) (by simp) (kernelFactor_ne_undefined hx 0))
    (hcombine (by simp) (hfactor 0) (kernelFactor_ne_undefined hx 1))
    (hcombine (by simp) (hfactor 1) (kernelFactor_ne_undefined hx 2))
    (hcombine (by simp) (hfactor 2) (kernelFactor_ne_undefined hx 3))

theorem defined_decay [IsStrictOrderedRing K] (hz : z.Defined) (hne : z ≠ Complex.zero) : (decay z).Defined := by
  have hinv := hz.inv hne
  have hinv2 := hinv.mul hinv
  exact defined_of_orders (hinv.scale (by simp)) (hinv2.scale (by simp)) (hinv.mul (hinv2.addReal (by simp)))
    (hinv2.mul ((hinv2.scale (by simp)).addReal (by simp)))

end Moments

namespace Convolution

variable {s : Smearing (Undefinable K)} {c : Convolution (Undefinable K)}

/-- The change of variable can be undone, and the decay is not taken at zero. -/
structure Regular (c : Convolution (Undefinable K)) : Prop where
  scale : c.scale ≠ undefined ∧ c.scale ≠ 0
  offset : c.offset ≠ undefined
  defined : c.z.Defined
  ne_zero : c.z ≠ Complex.zero

structure Accumulator.Defined (acc : Accumulator (Undefinable K)) : Prop where
  kept : ∀ t m, acc.boundary = some (t, m) → m.Defined
  sum : acc.sum.Defined

theorem Regular.momentsAt (hc : c.Regular) (hs : s.Defined) {t : Undefinable K} (ht : t ≠ undefined) :
    (c.momentsAt s t).Defined := by
  refine Moments.defined_gauss hs ?_ hc.defined
  simp [ht, hc.offset, hc.scale]

theorem Regular.lowerMoments (hc : c.Regular) (hs : s.Defined) {acc : Accumulator (Undefinable K)}
    (hacc : Accumulator.Defined acc) {t : Undefinable K} (ht : t ≠ undefined) : (c.lowerMoments s acc t).Defined := by
  unfold Convolution.lowerMoments
  split
  · rename_i t' m hkept
    split
    · exact hacc.kept t' m hkept
    · exact hc.momentsAt hs ht
  · exact hc.momentsAt hs ht

variable [IsStrictOrderedRing K]

theorem Regular.addMoments (hc : c.Regular) {p : Cubic (Undefinable K)} (hp : p.Defined)
    {m : Moments (Undefinable K)} (hm : m.Defined) {sum : Complex (Undefinable K)} (hsum : sum.Defined) :
    (c.addMoments p m sum).Defined := by
  unfold Convolution.addMoments
  generalize orders = l
  induction l generalizing sum with
  | nil => exact hsum
  | cons jk l ih =>
    rw [List.foldl_cons]
    apply ih
    dsimp only
    split
    · exact hsum
    · have hweight : p.moment jk.1 jk.2 * Scalar.power c.scale (jk.1 + jk.2) ≠ undefined := by
        simp [hp.moment, Undefinable.power_ne_undefined hc.scale.1]
      exact hsum.add (((hm jk.1).mul (Moments.defined_decay hc.defined hc.ne_zero jk.2)).scale hweight)

theorem Regular.addSegment (hc : c.Regular) (hs : s.Defined) {acc : Accumulator (Undefinable K)}
    (hacc : Accumulator.Defined acc) {g : Segment (Undefinable K)} (hg : g.Defined) :
    Accumulator.Defined (c.addSegment s acc g) := by
  unfold Convolution.addSegment
  split
  · have hupper := hc.momentsAt hs hg.hi
    refine ⟨?_, hc.addMoments (hg.polynomial.shifted hc.offset) (hupper.sub (hc.lowerMoments hs hacc hg.lo)) hacc.sum⟩
    intro t m hkept
    cases hkept
    exact hupper
  · exact hacc

theorem Regular.total (hc : c.Regular) (hs : s.Defined) {gs : List (Segment (Undefinable K))}
    (hgs : ∀ g ∈ gs, g.Defined) : (c.total s gs).Defined := by
  have hfold {acc : Accumulator (Undefinable K)} (hacc : Accumulator.Defined acc) :
      Accumulator.Defined (gs.foldl (c.addSegment s) acc) := by
    induction gs generalizing acc with
    | nil => exact hacc
    | cons g gs ih =>
      obtain ⟨hg, hrest⟩ := List.forall_mem_cons.mp hgs
      exact ih hrest (hc.addSegment hs hacc hg)
  have hstart : Accumulator.Defined (start : Accumulator (Undefinable K)) := by
    refine ⟨?_, Complex.defined_zero⟩
    intro t m hkept
    cases hkept
  exact (hfold hstart).sum

end Convolution
end LifetimeEfficiency
