import LifetimeEfficiency.Proofs.Polynomial
import LifetimeEfficiency.Proofs.Spline.Knots
import LifetimeEfficiency.Spline.Basis
/-!
# Basis functions at the knots

A basis function of one interval goes on as one of the next interval, with the same value, slope and curvature at the knot between
them. The outermost of the four vanishes there to the same order.
-/
namespace LifetimeEfficiency

variable {K : Type} [Field K] [LinearOrder K] [IsStrictOrderedRing K]

namespace Window

def basis (w : Window K) (slot : Nat) : Cubic K :=
  ((w.slots.getD slot []).map BasisTerm.polynomial).foldl (· + ·) Cubic.zero

def next (w : Window K) (g : K) : Window K := ⟨w.b, w.c, w.d, w.e, w.f, g⟩

omit [IsStrictOrderedRing K] in
theorem linear_basis {φ : Cubic K → K} (h : Cubic.IsLinear φ) (w : Window K) (slot : Nat) :
    φ (w.basis slot) = ((w.slots.getD slot []).map fun t => φ t.polynomial).sum := by
  rw [basis, h.foldl_add, h.zero, zero_add, List.map_map]
  rfl

theorem Ordered.ne {w : Window K} (h : w.Ordered) :
    w.d - w.a ≠ 0 ∧ w.d - w.b ≠ 0 ∧ w.d - w.c ≠ 0 ∧ w.e - w.b ≠ 0 ∧ w.e - w.c ≠ 0 ∧
      w.f - w.c ≠ 0 := by
  obtain ⟨hab, hbc, hcd, hde, hef⟩ := h
  refine ⟨?_, ?_, ?_, ?_, ?_, ?_⟩ <;> intro h <;> linarith

omit [IsStrictOrderedRing K] in
theorem linear_slots {φ : Cubic K → K} (h : Cubic.IsLinear φ) (w : Window K) :
    let g := Spacing.ofWindow w
    φ (w.basis 0) = φ (.ofRoots (-1 / g.p) w.d w.d w.d) ∧
    φ (w.basis 1) = φ (.ofRoots (1 / g.p) w.a w.d w.d) + φ (.ofRoots (1 / g.q) w.b w.d w.e) +
      φ (.ofRoots (1 / g.r) w.c w.e w.e) ∧
    φ (w.basis 2) = φ (.ofRoots (-1 / g.q) w.b w.b w.d) + φ (.ofRoots (-1 / g.r) w.b w.c w.e) +
      φ (.ofRoots (-1 / g.s) w.c w.c w.f) ∧
    φ (w.basis 3) = φ (.ofRoots (1 / g.s) w.c w.c w.c) := by
  refine ⟨?_, ?_, ?_, ?_⟩ <;>
    simp [linear_basis h, slots, BasisTerm.polynomial, add_assoc]

theorem basis_zero_joins (w : Window K) : (w.basis 0).JoinsAt w.d Cubic.zero where
  value := by
    rw [(linear_slots (Cubic.isLinear_value w.d) w).1, (Cubic.isLinear_value w.d).zero,
      Cubic.value_ofRoots]
    ring
  slope := by
    rw [(linear_slots (Cubic.isLinear_slope w.d) w).1, (Cubic.isLinear_slope w.d).zero,
      Cubic.slope_ofRoots]
    ring
  curvature := by
    rw [(linear_slots (Cubic.isLinear_curvature w.d) w).1, (Cubic.isLinear_curvature w.d).zero,
      Cubic.curvature_ofRoots]
    ring

theorem basis_three_joins (w : Window K) : (w.basis 3).JoinsAt w.c Cubic.zero where
  value := by
    rw [(linear_slots (Cubic.isLinear_value w.c) w).2.2.2, (Cubic.isLinear_value w.c).zero,
      Cubic.value_ofRoots]
    ring
  slope := by
    rw [(linear_slots (Cubic.isLinear_slope w.c) w).2.2.2, (Cubic.isLinear_slope w.c).zero,
      Cubic.slope_ofRoots]
    ring
  curvature := by
    rw [(linear_slots (Cubic.isLinear_curvature w.c) w).2.2.2, (Cubic.isLinear_curvature w.c).zero,
      Cubic.curvature_ofRoots]
    ring

section Next

variable {w : Window K} {g : K}

private theorem value_basis_next (h : w.Ordered) (hg : (w.next g).Ordered) :
    (w.basis 1).value w.d = ((w.next g).basis 0).value w.d ∧
      (w.basis 2).value w.d = ((w.next g).basis 1).value w.d ∧
      (w.basis 3).value w.d = ((w.next g).basis 2).value w.d := by
  obtain ⟨hda, hdb, hdc, heb, hec, hfc⟩ := h.ne
  obtain ⟨-, -, hed, -, hfd, hgd⟩ := hg.ne
  obtain ⟨-, h1, h2, h3⟩ := linear_slots (Cubic.isLinear_value w.d) w
  obtain ⟨h0', h1', h2', -⟩ := linear_slots (Cubic.isLinear_value w.d) (w.next g)
  rw [h1, h2, h3, h0', h1', h2']
  simp only [Cubic.value_ofRoots, Spacing.ofWindow, next] at *
  refine ⟨?_, ?_, ?_⟩ <;> field_simp <;> ring

private theorem slope_basis_next (h : w.Ordered) (hg : (w.next g).Ordered) :
    (w.basis 1).slope w.d = ((w.next g).basis 0).slope w.d ∧
      (w.basis 2).slope w.d = ((w.next g).basis 1).slope w.d ∧
      (w.basis 3).slope w.d = ((w.next g).basis 2).slope w.d := by
  obtain ⟨hda, hdb, hdc, heb, hec, hfc⟩ := h.ne
  obtain ⟨-, -, hed, -, hfd, hgd⟩ := hg.ne
  obtain ⟨-, h1, h2, h3⟩ := linear_slots (Cubic.isLinear_slope w.d) w
  obtain ⟨h0', h1', h2', -⟩ := linear_slots (Cubic.isLinear_slope w.d) (w.next g)
  rw [h1, h2, h3, h0', h1', h2']
  simp only [Cubic.slope_ofRoots, Spacing.ofWindow, next] at *
  refine ⟨?_, ?_, ?_⟩ <;> field_simp <;> ring

private theorem curvature_basis_next (h : w.Ordered) (hg : (w.next g).Ordered) :
    (w.basis 1).curvature w.d = ((w.next g).basis 0).curvature w.d ∧
      (w.basis 2).curvature w.d = ((w.next g).basis 1).curvature w.d ∧
      (w.basis 3).curvature w.d = ((w.next g).basis 2).curvature w.d := by
  obtain ⟨hda, hdb, hdc, heb, hec, hfc⟩ := h.ne
  obtain ⟨-, -, hed, -, hfd, hgd⟩ := hg.ne
  obtain ⟨-, h1, h2, h3⟩ := linear_slots (Cubic.isLinear_curvature w.d) w
  obtain ⟨h0', h1', h2', -⟩ := linear_slots (Cubic.isLinear_curvature w.d) (w.next g)
  rw [h1, h2, h3, h0', h1', h2']
  simp only [Cubic.curvature_ofRoots, Spacing.ofWindow, next] at *
  refine ⟨?_, ?_, ?_⟩ <;> field_simp <;> ring

theorem basis_succ_joins (h : w.Ordered) (hg : (w.next g).Ordered) {slot : Nat} (hs : slot < 3) :
    (w.basis (slot + 1)).JoinsAt w.d ((w.next g).basis slot) := by
  obtain ⟨hv0, hv1, hv2⟩ := value_basis_next h hg
  obtain ⟨hs0, hs1, hs2⟩ := slope_basis_next h hg
  obtain ⟨hc0, hc1, hc2⟩ := curvature_basis_next h hg
  match slot, hs with
  | 0, _ => exact ⟨hv0, hs0, hc0⟩
  | 1, _ => exact ⟨hv1, hs1, hc1⟩
  | 2, _ => exact ⟨hv2, hs2, hc2⟩

end Next

/-! At the outer knots the repeated ones leave a single function that does not vanish. -/

theorem value_basis_first {w : Window K} (h : w.Ordered) (ha : w.a = w.c) (hb : w.b = w.c) :
    (w.basis 0).value w.c = 1 ∧ (w.basis 1).value w.c = 0 ∧ (w.basis 2).value w.c = 0 := by
  obtain ⟨hda, hdb, hdc, heb, hec, hfc⟩ := h.ne
  obtain ⟨h0, h1, h2, -⟩ := linear_slots (Cubic.isLinear_value w.c) w
  rw [h0, h1, h2]
  simp only [Cubic.value_ofRoots, Spacing.ofWindow, ha, hb] at *
  refine ⟨?_, ?_, ?_⟩ <;> field_simp <;> ring

theorem slope_basis_first {w : Window K} (h : w.Ordered) (ha : w.a = w.c) (hb : w.b = w.c) :
    (w.basis 0).slope w.c = -3 / (w.d - w.c) ∧ (w.basis 1).slope w.c = 3 / (w.d - w.c) ∧
      (w.basis 2).slope w.c = 0 := by
  obtain ⟨hda, hdb, hdc, heb, hec, hfc⟩ := h.ne
  obtain ⟨h0, h1, h2, -⟩ := linear_slots (Cubic.isLinear_slope w.c) w
  rw [h0, h1, h2]
  simp only [Cubic.slope_ofRoots, Spacing.ofWindow, ha, hb] at *
  refine ⟨?_, ?_, ?_⟩ <;> field_simp <;> ring

theorem curvature_basis_first {w : Window K} (h : w.Ordered) (ha : w.a = w.c) (hb : w.b = w.c) :
    (w.basis 0).curvature w.c = 6 / ((w.d - w.c) * (w.d - w.c)) ∧
      (w.basis 1).curvature w.c = -(6 / (w.d - w.c) + 6 / (w.e - w.c)) / (w.d - w.c) ∧
      (w.basis 2).curvature w.c = 6 / ((w.e - w.c) * (w.d - w.c)) := by
  obtain ⟨hda, hdb, hdc, heb, hec, hfc⟩ := h.ne
  obtain ⟨h0, h1, h2, -⟩ := linear_slots (Cubic.isLinear_curvature w.c) w
  rw [h0, h1, h2]
  simp only [Cubic.curvature_ofRoots, Spacing.ofWindow, ha, hb] at *
  refine ⟨?_, ?_, ?_⟩ <;> field_simp <;> ring

theorem value_basis_last {w : Window K} (h : w.Ordered) (he : w.e = w.d) (hf : w.f = w.d) :
    (w.basis 1).value w.d = 0 ∧ (w.basis 2).value w.d = 0 ∧ (w.basis 3).value w.d = 1 := by
  obtain ⟨hda, hdb, hdc, heb, hec, hfc⟩ := h.ne
  obtain ⟨-, h1, h2, h3⟩ := linear_slots (Cubic.isLinear_value w.d) w
  rw [h1, h2, h3]
  simp only [Cubic.value_ofRoots, Spacing.ofWindow, he, hf] at *
  refine ⟨?_, ?_, ?_⟩ <;> field_simp <;> ring

theorem slope_basis_last {w : Window K} (h : w.Ordered) (he : w.e = w.d) (hf : w.f = w.d) :
    (w.basis 1).slope w.d = 0 ∧ (w.basis 2).slope w.d = -3 / (w.d - w.c) ∧
      (w.basis 3).slope w.d = 3 / (w.d - w.c) := by
  obtain ⟨hda, hdb, hdc, heb, hec, hfc⟩ := h.ne
  obtain ⟨-, h1, h2, h3⟩ := linear_slots (Cubic.isLinear_slope w.d) w
  rw [h1, h2, h3]
  simp only [Cubic.slope_ofRoots, Spacing.ofWindow, he, hf] at *
  refine ⟨?_, ?_, ?_⟩ <;> field_simp <;> ring

theorem curvature_basis_last {w : Window K} (h : w.Ordered) (he : w.e = w.d) (hf : w.f = w.d) :
    (w.basis 1).curvature w.d = 6 / ((w.d - w.b) * (w.d - w.c)) ∧
      (w.basis 2).curvature w.d = -(6 / (w.d - w.c) + 6 / (w.d - w.b)) / (w.d - w.c) ∧
      (w.basis 3).curvature w.d = 6 / ((w.d - w.c) * (w.d - w.c)) := by
  obtain ⟨hda, hdb, hdc, heb, hec, hfc⟩ := h.ne
  obtain ⟨-, h1, h2, h3⟩ := linear_slots (Cubic.isLinear_curvature w.d) w
  rw [h1, h2, h3]
  simp only [Cubic.curvature_ofRoots, Spacing.ofWindow, he, hf] at *
  refine ⟨?_, ?_, ?_⟩ <;> field_simp <;> ring

end Window
end LifetimeEfficiency
