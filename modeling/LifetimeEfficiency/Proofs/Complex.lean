import LifetimeEfficiency.Complex
import LifetimeEfficiency.Proofs.Exact
import Mathlib
/-!
# Pairs as complex numbers

In exact arithmetic the operations on pairs are those of the complex field.
-/
namespace LifetimeEfficiency.Complex

def toComplex (a : Complex ℝ) : ℂ := ⟨a.re, a.im⟩

theorem toComplex_injective : Function.Injective toComplex := by
  intro a b h
  obtain ⟨re, im⟩ := a
  obtain ⟨re', im'⟩ := b
  obtain ⟨hre, him⟩ := Complex.ext_iff.mp h
  rw [Complex.mk.injEq]
  exact ⟨hre, him⟩

variable (a b : Complex ℝ) (r : ℝ)

@[simp] theorem re_toComplex : a.toComplex.re = a.re := rfl

@[simp] theorem im_toComplex : a.toComplex.im = a.im := rfl

@[simp] theorem toComplex_zero : (zero : Complex ℝ).toComplex = 0 := by
  simp [Complex.ext_iff, zero]

@[simp] theorem toComplex_add : (a + b).toComplex = a.toComplex + b.toComplex := rfl

@[simp] theorem toComplex_sub : (a - b).toComplex = a.toComplex - b.toComplex := rfl

@[simp] theorem toComplex_mul : (a * b).toComplex = a.toComplex * b.toComplex := rfl

@[simp] theorem toComplex_scale : (a.scale r).toComplex = a.toComplex * r := by
  simp [Complex.ext_iff, scale]

@[simp] theorem toComplex_addReal : (a.addReal r).toComplex = a.toComplex + r := by
  simp [Complex.ext_iff, addReal]

@[simp] theorem toComplex_subReal : (a.subReal r).toComplex = a.toComplex - r := by
  simp [Complex.ext_iff, subReal]

@[simp] theorem toComplex_inv : a.inv.toComplex = a.toComplex⁻¹ := by
  simp [Complex.ext_iff, inv, normSq, Complex.normSq_apply]

end LifetimeEfficiency.Complex
