import LifetimeEfficiency.Configuration.Basic
import LifetimeEfficiency.Proofs.Efficiency.Building
/-!
# Objects of a document

What is built from an object of a document carries the name that the object gives. An insertion that succeeds
changes the store and one entry of one registry.
-/
namespace LifetimeEfficiency

variable {K : Type} [Scalar K]

namespace ResolutionModel

def coefficients (m : ResolutionModel K Parameter) : List Parameter :=
  [m.mean, m.sigma, m.meanScale, m.sigmaScale]

theorem of_constantly {ε : Type} {name : String} {e : Efficiency K Parameter}
    {mean sigma meanScale sigmaScale : K} {s s' : Store K} {m : ResolutionModel K Parameter}
    (h : (constantly name e mean sigma meanScale sigmaScale : Building K ε _) s = .ok (m, s')) :
    m.name = name ∧ m.efficiency = e ∧ s.Grows s' ∧ (∀ p ∈ m.coefficients, s'.Holds p) ∧
      m.width s'.value = sigma * sigmaScale := by
  obtain ⟨p₁, s₁, h₁, h⟩ := stateT_bind_eq_ok_iff.mp h
  obtain ⟨p₂, s₂, h₂, h⟩ := stateT_bind_eq_ok_iff.mp h
  obtain ⟨p₃, s₃, h₃, h⟩ := stateT_bind_eq_ok_iff.mp h
  obtain ⟨p₄, s₄, h₄, h⟩ := stateT_bind_eq_ok_iff.mp h
  cases h
  obtain ⟨hgrows₁, hholds₁, -⟩ := Parameter.of_constantly h₁
  obtain ⟨hgrows₂, hholds₂, hsigma⟩ := Parameter.of_constantly h₂
  obtain ⟨hgrows₃, hholds₃, -⟩ := Parameter.of_constantly h₃
  obtain ⟨hgrows₄, hholds₄, hsigmaScale⟩ := Parameter.of_constantly h₄
  have hlater := hgrows₃.trans hgrows₄
  refine ⟨rfl, rfl, hgrows₁.trans (hgrows₂.trans hlater), fun p hp => ?_, ?_⟩
  · simp only [coefficients, List.mem_cons, List.not_mem_nil, or_false] at hp
    obtain rfl | rfl | rfl | rfl := hp
    · exact hlater.holds (hgrows₂.holds hholds₁)
    · exact hlater.holds hholds₂
    · exact hgrows₄.holds hholds₃
    · exact hholds₄
  · rw [width, hlater.value hholds₂, hsigma, hsigmaScale]

end ResolutionModel

namespace Configuration

section Steps

variable {α : Type} {s s' : Store K} {a : α}

omit [Scalar K] in
theorem reading_eq_ok_iff {r : Reading K α} : reading r s = .ok (a, s') ↔ r = .ok a ∧ s' = s := by
  rw [reading, mapError_eq_ok_iff]
  cases r with
  | error e => simp [Except.map]
  | ok b => simp [Except.map, eq_comm]

omit [Scalar K] in
theorem building_eq_ok_iff {b : Efficiency.Builder K α} :
    building b s = .ok (a, s') ↔ b s = .ok (a, s') :=
  mapError_eq_ok_iff

theorem keeps_reading (given : List Parameter) (r : Reading K α) :
    Keeps given (reading r) fun _ => [] := by
  intro s hs a s' h
  obtain ⟨-, rfl⟩ := reading_eq_ok_iff.mp h
  exact ⟨Store.Grows.refl s', fun p hp => by cases hp⟩

end Steps

variable {name : String} {s s' : Store K} {e : Efficiency K Parameter} {doc : Json K}

omit [Scalar K] in
theorem nameOf_of_named {members : List (String × Json K)} (h : named doc = .ok (members, name)) :
    nameOf doc = .ok name := by
  rw [nameOf, h]
  rfl

theorem buildSpline_cases (name : String) (d : SplineDocument K) :
    (∃ coefs, buildSpline name d = building (Efficiency.ofConstantCoefs name d.points coefs)) ∨
      (∃ values, buildSpline name d =
        building (Efficiency.ofSamples name d.points values d.errors d.smoothing d.ends d.constant)) ∨
      ∃ error, buildSpline name d = throw error := by
  unfold buildSpline
  split
  · exact .inl ⟨_, rfl⟩
  · exact .inr (.inl ⟨_, rfl⟩)
  · exact .inr (.inr ⟨_, rfl⟩)

theorem builtAs_of_buildSpline {d : SplineDocument K} (h : buildSpline name d s = .ok (e, s')) :
    e.BuiltAs name := by
  rcases buildSpline_cases name d with ⟨coefs, hd⟩ | ⟨values, hd⟩ | ⟨error, hd⟩
  · rw [hd, building_eq_ok_iff] at h
    exact Efficiency.builtAs_of_ofConstantCoefs h
  · rw [hd, building_eq_ok_iff] at h
    exact Efficiency.builtAs_of_ofSamples h
  · rw [hd] at h
    cases h

theorem keeps_buildSpline (name : String) (d : SplineDocument K) :
    Keeps [] (buildSpline name d) Efficiency.parameters := by
  rcases buildSpline_cases name d with ⟨coefs, hd⟩ | ⟨values, hd⟩ | ⟨error, hd⟩
  · rw [hd]
    exact Keeps.mapError _ (Efficiency.keeps_ofConstantCoefs _ _ _)
  · rw [hd]
    exact Keeps.mapError _ (Efficiency.keeps_ofSamples _ _ _ _ _ _ _)
  · rw [hd]
    exact Keeps.throw _

theorem builtAs_of_buildEfficiency {members : List (String × Json K)} {kind : EfficiencyKind}
    (h : buildEfficiency name members kind s = .ok (e, s')) : e.BuiltAs name := by
  cases kind with
  | spline =>
    obtain ⟨d, t, -, h⟩ := stateT_bind_eq_ok_iff.mp h
    exact builtAs_of_buildSpline h
  | binned =>
    obtain ⟨d, t, -, h⟩ := stateT_bind_eq_ok_iff.mp h
    exact Efficiency.builtAs_of_ofBinValues (building_eq_ok_iff.mp h)
  | threshold =>
    obtain ⟨d, t, -, h⟩ := stateT_bind_eq_ok_iff.mp h
    exact Efficiency.builtAs_of_ofThresholds (mapError_eq_ok_iff.mp h)

theorem keeps_buildEfficiency (name : String) (members : List (String × Json K)) (kind : EfficiencyKind) :
    Keeps [] (buildEfficiency name members kind) Efficiency.parameters := by
  cases kind with
  | spline => exact Keeps.bind (keeps_reading _ _) fun d => keeps_buildSpline name d
  | binned =>
    exact Keeps.bind (keeps_reading _ _) fun d =>
      Keeps.mapError _ (Efficiency.keeps_ofBinValues _ _ _ _)
  | threshold =>
    exact Keeps.bind (keeps_reading _ _) fun d =>
      Keeps.mapError _ (Efficiency.keeps_ofThresholds _ _ _ _ _)

theorem of_readEfficiency (h : readEfficiency doc s = .ok (e, s')) :
    nameOf doc = .ok e.name ∧ e.Constructed := by
  obtain ⟨⟨members, name⟩, t, hnamed, h⟩ := stateT_bind_eq_ok_iff.mp h
  obtain ⟨kind, t', -, h⟩ := stateT_bind_eq_ok_iff.mp h
  obtain ⟨rfl, hconstructed⟩ := builtAs_of_buildEfficiency h
  exact ⟨nameOf_of_named (reading_eq_ok_iff.mp hnamed).1, hconstructed⟩

theorem keeps_readEfficiency (doc : Json K) : Keeps [] (readEfficiency doc) Efficiency.parameters := by
  refine Keeps.bind (keeps_reading _ _) fun mn => ?_
  obtain ⟨members, name⟩ := mn
  exact Keeps.bind (keeps_reading _ _) fun kind => keeps_buildEfficiency name members kind

variable {c c' : Configuration K}

omit [Scalar K] in
theorem efficiency_eq_ok_iff : c.efficiency name = .ok e ↔ Keyed.find? name c.efficiencies = some e := by
  unfold efficiency
  split
  · rename_i e' he
    simp [he]
  · rename_i he
    simp [he]

omit [Scalar K] in
theorem resolution_eq_ok_iff {m : ResolutionModel K Parameter} :
    c.resolution name = .ok m ↔ Keyed.find? name c.resolutions = some m := by
  unfold resolution
  split
  · rename_i m' hm
    simp [hm]
  · rename_i hm
    simp [hm]

theorem insertEfficiency_eq_ok_iff :
    c.insertEfficiency doc = .ok c' ↔
      ∃ e store, nameOf doc = .ok e.name ∧ readEfficiency doc c.store = .ok (e, store) ∧
        c' = { c with store := store, efficiencies := Keyed.insert e.name e c.efficiencies } := by
  simp only [insertEfficiency, bind_eq_ok_iff, mapError_eq_ok_iff]
  constructor
  · rintro ⟨name, hname, ⟨e, store⟩, hread, h⟩
    cases h
    obtain rfl := Except.ok.inj (hname.symm.trans (of_readEfficiency hread).1)
    exact ⟨e, store, hname, hread, rfl⟩
  · rintro ⟨e, store, hname, hread, rfl⟩
    exact ⟨e.name, hname, (e, store), hread, rfl⟩

def referenceOf (doc : Json K) : Reading K String := do
  let members ← doc.members
  let efficiency ← Field.read members "efficiency" Json.text
  Field.require "efficiency" efficiency

theorem referenceOf_of_named {members : List (String × Json K)} {d : ResolutionDocument K}
    (h : named doc = .ok (members, name)) (hd : ResolutionDocument.ofMembers members = .ok d) :
    referenceOf doc = .ok d.efficiency := by
  obtain ⟨members', hmembers, h⟩ := bind_eq_ok_iff.mp h
  obtain ⟨_, -, h⟩ := bind_eq_ok_iff.mp h
  obtain ⟨_, -, h⟩ := bind_eq_ok_iff.mp h
  cases h
  simp only [ResolutionDocument.ofMembers, bind_eq_ok_iff] at hd
  obtain ⟨efficiency, hread, _, -, _, -, _, -, _, -, reference, hrequire, _, -, _, -, hd⟩ := hd
  cases hd
  simp only [referenceOf, bind_eq_ok_iff]
  exact ⟨members, hmembers, efficiency, hread, hrequire⟩

variable {m : ResolutionModel K Parameter}

theorem of_readResolution (h : c.readResolution doc s = .ok (m, s')) :
    nameOf doc = .ok m.name ∧
      (∃ key, referenceOf doc = .ok key ∧ Keyed.find? key c.efficiencies = some m.efficiency) ∧
      s.Grows s' ∧ (∀ p ∈ m.coefficients, s'.Holds p) ∧
      Generator.isPositive (m.width s'.value) = true := by
  obtain ⟨⟨members, name⟩, t₁, hnamed, h⟩ := stateT_bind_eq_ok_iff.mp h
  obtain ⟨d, t₂, hd, h⟩ := stateT_bind_eq_ok_iff.mp h
  obtain ⟨u, t₃, hwidth, h⟩ := stateT_bind_eq_ok_iff.mp h
  obtain ⟨e, t₄, he, hmodel⟩ := stateT_bind_eq_ok_iff.mp h
  obtain ⟨hname, rfl⟩ := reading_eq_ok_iff.mp hnamed
  obtain ⟨hread, rfl⟩ := reading_eq_ok_iff.mp hd
  obtain ⟨hpositive, rfl⟩ := reading_eq_ok_iff.mp hwidth
  obtain ⟨hfound, rfl⟩ := stateT_lift_eq_ok_iff.mp he
  obtain ⟨rfl, rfl, hgrows, hholds, heq⟩ := ResolutionModel.of_constantly hmodel
  have hreference := referenceOf_of_named hname hread
  refine ⟨nameOf_of_named hname, ⟨d.efficiency, hreference, efficiency_eq_ok_iff.mp hfound⟩, hgrows, hholds, ?_⟩
  rw [heq]
  unfold ResolutionDocument.checkWidth at hpositive
  dsimp only at hpositive
  split at hpositive
  · assumption
  · cases hpositive

theorem insertResolution_eq_ok_iff :
    c.insertResolution doc = .ok c' ↔
      ∃ m store, nameOf doc = .ok m.name ∧ c.readResolution doc c.store = .ok (m, store) ∧
        c' = { c with store := store, resolutions := Keyed.insert m.name m c.resolutions } := by
  simp only [insertResolution, bind_eq_ok_iff, mapError_eq_ok_iff]
  constructor
  · rintro ⟨name, hname, ⟨m, store⟩, hread, h⟩
    cases h
    obtain rfl := Except.ok.inj (hname.symm.trans (of_readResolution hread).1)
    exact ⟨m, store, hname, hread, rfl⟩
  · rintro ⟨m, store, hname, hread, rfl⟩
    exact ⟨m.name, hname, (m, store), hread, rfl⟩

end Configuration
end LifetimeEfficiency
