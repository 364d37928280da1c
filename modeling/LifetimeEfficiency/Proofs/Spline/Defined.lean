import LifetimeEfficiency.Proofs.Bracket
import LifetimeEfficiency.Proofs.Ordered
import LifetimeEfficiency.Proofs.Smearing.Defined
import LifetimeEfficiency.Spline.Curve
/-!
# Defined curves

Knots that are accepted are numbers, and the spacings of each interval, which everything is divided by, are numbers other
than zero. So a curve with numbers as its coefficients has numbers as its values, and its pieces are polynomials of numbers.
-/
namespace LifetimeEfficiency

open Undefinable (undefined number)

theorem forall_mem_zipWith {α β γ : Type} {f : α → β → γ} {as : List α} {bs : List β} {P : γ → Prop}
    (h : ∀ a ∈ as, ∀ b ∈ bs, P (f a b)) : ∀ c ∈ List.zipWith f as bs, P c := by
  intro c hc
  rw [← List.map_uncurry_zip_eq_zipWith] at hc
  obtain ⟨⟨a, b⟩, hab, rfl⟩ := List.mem_map.mp hc
  exact h a (List.of_mem_zip hab).1 b (List.of_mem_zip hab).2

variable {K : Type} [Field K] [LinearOrder K]

structure Spacing.Defined (g : Spacing (Undefinable K)) : Prop where
  p : g.p ≠ undefined ∧ g.p ≠ 0
  q : g.q ≠ undefined ∧ g.q ≠ 0
  r : g.r ≠ undefined ∧ g.r ≠ 0
  s : g.s ≠ undefined ∧ g.s ≠ 0

structure BasisTerm.Defined (t : BasisTerm (Undefinable K)) : Prop where
  weight : t.weight ≠ undefined
  a : t.a ≠ undefined
  b : t.b ≠ undefined
  c : t.c ≠ undefined

structure Knots.Defined (k : Knots (Undefinable K)) : Prop where
  two_le : 2 ≤ k.size
  points : ∀ x ∈ k.points, x ≠ undefined
  spacing : ∀ i : Nat, i < k.intervals → (k.spacing i).Defined

namespace Spacing

theorem parts_of_isUsable {K : Type} [Scalar K] {g : Spacing K} (h : g.isUsable = true) :
    ∀ x ∈ [g.p, g.q, g.r, g.s], Scalar.isFinite x = true ∧ (x == 0) = false := by
  intro x hx
  simpa using List.all_eq_true.mp h x hx

theorem defined_of_isUsable {g : Spacing (Undefinable K)} (h : g.isUsable = true) : g.Defined := by
  have hpart (x : Undefinable K) (hx : x ∈ [g.p, g.q, g.r, g.s]) : x ≠ undefined ∧ x ≠ 0 := by
    obtain ⟨hfinite, hbeq⟩ := parts_of_isUsable h x hx
    have hne := Undefinable.ne_undefined_of_isFinite hfinite
    exact ⟨hne, mt (Undefinable.beq_zero_iff hne).mpr (Bool.eq_false_iff.mp hbeq)⟩
  exact ⟨hpart _ (by simp), hpart _ (by simp), hpart _ (by simp), hpart _ (by simp)⟩

end Spacing

namespace BasisTerm

variable {t : BasisTerm (Undefinable K)} {x : Undefinable K}

theorem Defined.value (ht : t.Defined) (hx : x ≠ undefined) : t.value x ≠ undefined := by
  simp [BasisTerm.value, ht.weight, ht.a, ht.b, ht.c, hx]

theorem Defined.polynomial (ht : t.Defined) : t.polynomial.Defined := by
  constructor <;> simp [BasisTerm.polynomial, Cubic.ofRoots, ht.weight, ht.a, ht.b, ht.c]

end BasisTerm

namespace Knots

variable {k : Knots (Undefinable K)} {x : Undefinable K}

theorem defined_of_ofList {points : List (Undefinable K)} (h : Knots.ofList points = .ok k) : k.Defined := by
  obtain ⟨rfl, htwo, hfinite, -, husable⟩ := checked_of_ofList h
  exact ⟨htwo, fun x hx => Undefinable.ne_undefined_of_isFinite (hfinite x hx),
    fun i hi => Spacing.defined_of_isUsable (husable i hi)⟩

theorem Defined.u (hk : k.Defined) (i : Int) : k.u i ≠ undefined := by
  have htwo := hk.two_le
  have hlt : min i.toNat (k.size - 1) < k.points.length := by
    unfold size at htwo ⊢
    omega
  rw [Knots.u, List.getD_eq_getElem _ _ hlt]
  exact hk.points _ (List.getElem_mem hlt)

theorem Defined.width (hk : k.Defined) (i : Nat) : k.width i ≠ undefined := by
  simp [Knots.width, Knots.h, hk.u]

theorem Defined.width_ne_zero (hk : k.Defined) {i : Nat} (hi : i < k.intervals) : k.width i ≠ 0 := by
  -- The width of an interval is a factor of its spacings.
  have hu := hk.u
  have hrest : (k.u (i + 2) - k.u i) * (k.u (i + 3) - k.u i) ≠ undefined := by
    simp [hu]
  have hs : (k.spacing i).s = (k.u (i + 2) - k.u i) * (k.u (i + 3) - k.u i) * k.width i := rfl
  have hproduct := (hk.spacing i hi).s.2
  rw [hs, Ne, Undefinable.mul_eq_zero_iff hrest (hk.width i)] at hproduct
  exact (not_or.mp hproduct).2

theorem Defined.r (hk : k.Defined) {i : Nat} (hi : i < k.intervals) : k.r i ≠ undefined := by
  simp [Knots.r, hk.width, hk.width_ne_zero hi]

theorem Defined.terms (hk : k.Defined) {i : Nat} (hi : i < k.intervals) : ∀ t ∈ k.terms i, t.Defined := by
  have hg := hk.spacing i hi
  have hterm {n g : Undefinable K} (hn : n ≠ undefined) (hg : g ≠ undefined ∧ g ≠ 0) (a b c : Int) :
      (⟨n / g, k.u a, k.u b, k.u c⟩ : BasisTerm (Undefinable K)).Defined :=
    ⟨by simp [hn, hg], hk.u a, hk.u b, hk.u c⟩
  have hone : (1 : Undefinable K) ≠ undefined := Undefinable.ofNat_ne_undefined 1
  have hneg : (-1 : Undefinable K) ≠ undefined := mt Undefinable.neg_eq_undefined_iff.mp hone
  simp only [Knots.terms, Knots.slots, Window.slots, List.flatten_cons, List.flatten_nil, List.append_nil, List.cons_append,
    List.nil_append, List.forall_mem_cons]
  exact ⟨hterm hneg hg.p _ _ _, hterm hone hg.p _ _ _, hterm hone hg.q _ _ _, hterm hone hg.r _ _ _, hterm hneg hg.q _ _ _,
    hterm hneg hg.r _ _ _, hterm hneg hg.s _ _ _, hterm hone hg.s _ _ _, nofun⟩

theorem Defined.basisValues (hk : k.Defined) {i : Nat} (hi : i < k.intervals) (hx : x ≠ undefined) :
    ∀ v ∈ k.basisValues i x, v ≠ undefined := by
  intro v hv
  obtain ⟨terms, hterms, rfl⟩ := List.mem_map.mp hv
  refine Undefinable.sum_ne_undefined (List.forall_mem_map.mpr fun t ht => ?_)
  exact (hk.terms hi t (List.mem_flatten.mpr ⟨terms, hterms, ht⟩)).value hx

theorem Defined.basisPolynomials (hk : k.Defined) {i : Nat} (hi : i < k.intervals) :
    ∀ p ∈ k.basisPolynomials i, p.Defined := by
  intro p hp
  obtain ⟨terms, hterms, rfl⟩ := List.mem_map.mp hp
  refine Cubic.defined_foldl_add (Cubic.defined_constant Undefinable.zero_ne_undefined) (List.forall_mem_map.mpr fun t ht => ?_)
  exact (hk.terms hi t (List.mem_flatten.mpr ⟨terms, hterms, ht⟩)).polynomial

end Knots

namespace Curve

structure Defined (c : Curve (Undefinable K)) : Prop where
  knots : c.knots.Defined
  coefs : ∀ b ∈ c.coefs, b ≠ undefined

variable {c : Curve (Undefinable K)} {x : Undefinable K}

theorem Defined.coef (hc : c.Defined) (i : Nat) : c.coef i ≠ undefined :=
  Undefinable.getD_ne_undefined hc.coefs i

theorem Defined.active (hc : c.Defined) (i : Nat) : ∀ b ∈ c.active i, b ≠ undefined :=
  List.forall_mem_map.mpr fun slot _ => hc.coef (i + slot)

theorem Defined.valueInside (hc : c.Defined) {i : Nat} (hi : i < c.knots.intervals) (hx : x ≠ undefined) :
    c.valueInside i x ≠ undefined := by
  refine Undefinable.sum_ne_undefined (forall_mem_zipWith fun b hb v hv => ?_)
  have hcoef := hc.active i b hb
  have hvalue := hc.knots.basisValues hi hx v hv
  simp [hcoef, hvalue]

theorem Defined.rates (hc : c.Defined) :
    c.knots.r 0 ≠ undefined ∧ c.knots.r (c.knots.size - 2 : Int) ≠ undefined := by
  have htwo := hc.knots.two_le
  have hfirst : 0 < c.knots.intervals := Nat.sub_pos_of_lt htwo
  have hlast : c.knots.size - 2 < c.knots.intervals := by
    unfold Knots.intervals
    omega
  refine ⟨hc.knots.r hfirst, ?_⟩
  have hr := hc.knots.r hlast
  rwa [Nat.cast_sub htwo] at hr

theorem Defined.value (hc : c.Defined) (hx : x ≠ undefined) : c.value x ≠ undefined := by
  have hcoef := hc.coef
  have hu := hc.knots.u
  obtain ⟨hfirst, hlast⟩ := hc.rates
  unfold Curve.value
  dsimp only
  split
  · simp [hcoef, hx, hfirst, Knots.first, hu]
  · simp [hcoef, hx, hlast, Knots.last, hu]
  · rename_i i hlocate
    have hi : bracket c.knots.points x = i := by
      unfold Knots.locate at hlocate
      split at hlocate
      · cases hlocate
      · split at hlocate
        · cases hlocate
        · exact Location.interval.inj hlocate
    have hlt := bracket_lt hc.knots.two_le x
    refine hc.valueInside ?_ hx
    unfold Knots.intervals Knots.size
    omega

theorem Defined.intervalPolynomial (hc : c.Defined) {i : Nat} (hi : i < c.knots.intervals) :
    (c.intervalPolynomial i).Defined := by
  refine Cubic.defined_foldl_add (Cubic.defined_constant Undefinable.zero_ne_undefined) ?_
  exact forall_mem_zipWith fun p hp b hb => (hc.knots.basisPolynomials hi p hp).scale (hc.active i b hb)

theorem Defined.line (hc : c.Defined) {slope anchor : Undefinable K} (hslope : slope ≠ undefined)
    (hanchor : anchor ≠ undefined) : (c.line slope anchor).Defined := by
  have hvalue := hc.value hanchor
  constructor <;> simp [Curve.line, Cubic.linear, hvalue, hslope, hanchor]

theorem Defined.segments (hc : c.Defined) {lo hi : Undefinable K} (hlo : lo ≠ undefined) (hhi : hi ≠ undefined) :
    ∀ g ∈ c.segments lo hi, g.Defined := by
  have hcoef := hc.coef
  have hu := hc.knots.u
  obtain ⟨hfirst, hlast⟩ := hc.rates
  have hleft : c.leftLine.Defined := hc.line (by simp [leftSlope, hcoef, hfirst]) (hu 0)
  have hright : c.rightLine.Defined := hc.line (by simp [rightSlope, hcoef, hlast]) (hu _)
  intro g hg
  rw [Curve.segments, List.mem_append, List.mem_append] at hg
  rcases hg with (hg | hg) | hg
  · split at hg
    · obtain rfl := List.mem_singleton.mp hg
      exact ⟨hlo, by simp [hhi], hleft⟩
    · cases hg
  · obtain ⟨i, hi, rfl⟩ := List.mem_map.mp hg
    exact ⟨by simp [hlo], by simp [hhi], hc.intervalPolynomial (List.mem_range.mp hi)⟩
  · split at hg
    · obtain rfl := List.mem_singleton.mp hg
      exact ⟨by simp [hlo], hhi, hright⟩
    · cases hg

end Curve

end LifetimeEfficiency
