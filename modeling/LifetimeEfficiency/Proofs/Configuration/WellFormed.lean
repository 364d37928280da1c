import LifetimeEfficiency.Proofs.Configuration.Building
import Mathlib.Algebra.Order.Ring.Rat
/-!
# Configurations hold well-formed objects

Every insertion keeps a configuration well formed, whichever way the object was described, and a document leaves it so even
where an object in the middle is refused.
-/
namespace LifetimeEfficiency

variable {K : Type} [Scalar K]

structure Efficiency.WellFormed (store : Store K) (e : Efficiency K Parameter) : Prop where
  shape : e.shape.WellFormed
  holds : ∀ p ∈ e.parameters, store.Holds p

structure ResolutionModel.WellFormed (store : Store K) (m : ResolutionModel K Parameter) : Prop where
  efficiency : m.efficiency.WellFormed store
  holds : ∀ p ∈ m.coefficients, store.Holds p
  width_pos : 0 < m.width store.value
  width_finite : Scalar.isFinite (m.width store.value) = true

/-- The objects are kept under their own names, their parameters are cells of the store, and no cell is out of its range. -/
structure Configuration.WellFormed (c : Configuration K) : Prop where
  store : c.store.WellFormed
  efficiencies : ∀ key e, (key, e) ∈ c.efficiencies → e.name = key ∧ e.WellFormed c.store
  resolutions : ∀ key m, (key, m) ∈ c.resolutions → m.name = key ∧ m.WellFormed c.store

section Growth

variable {s s' : Store K}

theorem Efficiency.WellFormed.grows {e : Efficiency K Parameter} (h : e.WellFormed s) (hs : s.Grows s') :
    e.WellFormed s' :=
  ⟨h.shape, fun p hp => hs.holds (h.holds p hp)⟩

theorem ResolutionModel.width_of_grows {m : ResolutionModel K Parameter}
    (h : ∀ p ∈ m.coefficients, s.Holds p) (hs : s.Grows s') : m.width s'.value = m.width s.value := by
  rw [width, width, hs.value (h _ (by simp [coefficients])), hs.value (h _ (by simp [coefficients]))]

theorem ResolutionModel.WellFormed.grows {m : ResolutionModel K Parameter} (h : m.WellFormed s)
    (hs : s.Grows s') : m.WellFormed s' := by
  have hwidth := width_of_grows h.holds hs
  refine ⟨h.efficiency.grows hs, fun p hp => hs.holds (h.holds p hp), ?_, ?_⟩
  · rw [hwidth]
    exact h.width_pos
  · rw [hwidth]
    exact h.width_finite

end Growth

namespace Configuration

variable {c c' : Configuration K} {doc : Json K}

theorem wellFormed_empty : (empty : Configuration K).WellFormed :=
  ⟨Store.wellFormed_empty, nofun, nofun⟩

theorem WellFormed.withStore (hc : c.WellFormed) {store : Store K} (hs : c.store.Grows store) :
    ({ c with store := store } : Configuration K).WellFormed := by
  refine ⟨hs.wellFormed hc.store, fun key e he => ?_, fun key m hm => ?_⟩
  · obtain ⟨hname, hwell⟩ := hc.efficiencies key e he
    exact ⟨hname, hwell.grows hs⟩
  · obtain ⟨hname, hwell⟩ := hc.resolutions key m hm
    exact ⟨hname, hwell.grows hs⟩

theorem wellFormed_insertEfficiency [Scalar.Ordered K] (hc : c.WellFormed)
    (h : c.insertEfficiency doc = .ok c') : c'.WellFormed := by
  obtain ⟨e, store, -, hread, rfl⟩ := insertEfficiency_eq_ok_iff.mp h
  obtain ⟨hgrows, hholds⟩ := keeps_readEfficiency doc c.store (by simp) e store hread
  have hgrown := hc.withStore hgrows
  refine ⟨hgrown.store, fun key e' he' => ?_, hgrown.resolutions⟩
  rcases Keyed.mem_insert he' with heq | hold
  · cases heq
    exact ⟨rfl, (of_readEfficiency hread).2.wellFormed, hholds⟩
  · exact hgrown.efficiencies key e' hold

theorem wellFormed_insertResolution (hc : c.WellFormed) (h : c.insertResolution doc = .ok c') :
    c'.WellFormed := by
  obtain ⟨m, store, -, hread, rfl⟩ := insertResolution_eq_ok_iff.mp h
  obtain ⟨-, ⟨key, -, hfound⟩, hgrows, hholds, hpositive⟩ := of_readResolution hread
  have hgrown := hc.withStore hgrows
  refine ⟨hgrown.store, hgrown.efficiencies, fun key' m' hm' => ?_⟩
  rcases Keyed.mem_insert hm' with heq | hold
  · cases heq
    -- the efficiency under the model was found in the registry, which is well formed
    have hefficiency := (hgrown.efficiencies key m.efficiency (Keyed.mem_of_find? hfound)).2
    have hwidth : Scalar.isFinite (m.width store.value) = true ∧ 0 < m.width store.value := by
      simpa [Generator.isPositive] using hpositive
    exact ⟨rfl, hefficiency, hholds, hwidth.2, hwidth.1⟩
  · exact hgrown.resolutions key' m' hold

omit [Scalar K] in
theorem insertAll_preserves {P : Configuration K → Prop}
    {insert : Configuration K → Json K → Except (ConfigurationError K) (Configuration K)}
    (hinsert : ∀ {c c' doc}, P c → insert c doc = .ok c' → P c') {docs : List (Json K)} (hc : P c) :
    P (insertAll insert c docs).1 := by
  induction docs generalizing c with
  | nil => exact hc
  | cons doc docs ih =>
    rw [insertAll]
    cases h : insert c doc with
    | error e => exact hc
    | ok c' => exact ih (hinsert hc h)

theorem wellFormed_load [Scalar.Ordered K] (hc : c.WellFormed) (doc : Json K) :
    (c.load doc).1.WellFormed := by
  unfold load
  split
  · exact hc
  · rename_i efficiencies resolutions _
    have hefficiencies : (insertAll insertEfficiency c efficiencies).1.WellFormed :=
      insertAll_preserves wellFormed_insertEfficiency hc
    split
    · rename_i c' h
      rw [h] at hefficiencies
      exact insertAll_preserves wellFormed_insertResolution hefficiencies
    · exact hefficiencies

/-- Whatever documents have been loaded, and whether or not they were refused. -/
theorem wellFormed_loads [Scalar.Ordered K] (docs : List (Json K)) :
    (docs.foldl (fun c doc => (load c doc).1) empty).WellFormed := by
  have hall (c : Configuration K) (hc : c.WellFormed) :
      (docs.foldl (fun c doc => (load c doc).1) c).WellFormed := by
    induction docs generalizing c with
    | nil => exact hc
    | cons doc docs ih => exact ih _ (wellFormed_load hc doc)
  exact hall empty wellFormed_empty

theorem wellFormed_loads_at_refused_objects :
    let efficiencies : Json ℚ := .arr [
      .obj [("efficiency_type", .str "CubicSpline"), ("knots", .arr [.num 0, .num 1, .num 3]),
        ("name", .str "curve"), ("values", .arr [.num 1, .num 2, .num 1])],
      .obj [("efficiency_type", .str "Threshold"), ("high", .num 3), ("low", .num 0),
        ("name", .str "steps"), ("thresholds", .arr [.arr [.num 1, .num (1 / 2)]])]]
    let resolutions : Json ℚ := .arr [
      .obj [("efficiency", .str "steps"), ("mean", .num 0), ("name", .str "wide"), ("sigma", .num 2)],
      .obj [("efficiency", .str "missing"), ("mean", .num 0), ("name", .str "narrow"), ("sigma", .num 1)]]
    let more : Json ℚ := .arr [
      .obj [("boundaries", .arr [.num 0, .num 1]), ("coefficients", .arr [.num 1]),
        ("efficiency_type", .str "Binned"), ("name", .str "bins")],
      .obj [("boundaries", .arr [.num 1, .num 0]), ("coefficients", .arr [.num 1]),
        ("efficiency_type", .str "Binned"), ("name", .str "backwards")]]
    let docs : List (Json ℚ) :=
      [.obj [("efficiency", efficiencies), ("resolution", resolutions)], .obj [("efficiency", more)]]
    let c := docs.foldl (fun c doc => (load c doc).1) empty
    c.WellFormed ∧ Keyed.keys c.efficiencies = ["bins", "curve", "steps"] ∧
      Keyed.keys c.resolutions = ["wide"] := by
  intro efficiencies resolutions more docs c
  refine ⟨wellFormed_loads docs, ?_, ?_⟩
  · decide +kernel
  · decide +kernel

end Configuration
end LifetimeEfficiency
