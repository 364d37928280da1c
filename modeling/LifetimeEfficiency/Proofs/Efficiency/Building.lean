import LifetimeEfficiency.Efficiency.Building
import LifetimeEfficiency.Proofs.Efficiency.Constructed
import LifetimeEfficiency.Proofs.Parameter.Growth
import LifetimeEfficiency.Proofs.Spline.Interpolation
/-!
# Builders construct

An efficiency whose coefficients are new parameters is one that the constructors give too. Parameters come one for each
value, and curves through samples have the coefficients that their knots ask for. The store only grows, and has a cell for
every parameter of the efficiency.
-/
namespace LifetimeEfficiency

variable {K : Type} [Scalar K]

theorem Parameter.length_ofValues {stem : String} {values : List K} {constant : Bool}
    {s s' : Store K} {ps : List Parameter} (h : ofValues stem values constant s = .ok (ps, s')) :
    ps.length = values.length :=
  (length_of_mapM h).trans List.length_zipIdx

namespace Efficiency

theorem length_parametersOf {stem : String} {values : List K} {constant : Bool} {s s' : Store K}
    {ps : List Parameter} (h : parametersOf stem values constant s = .ok (ps, s')) :
    ps.length = values.length :=
  Parameter.length_ofValues (mapError_eq_ok_iff.mp h)

theorem length_splineParameters {name : String} {coefs : List K} {constant : Bool} {s s' : Store K}
    {ps : List Parameter} (h : splineParameters name coefs constant s = .ok (ps, s')) :
    ps.length = coefs.length := by
  unfold splineParameters at h
  split at h
  · exact length_parametersOf h
  · obtain ⟨ps', t, hps, h⟩ := stateT_bind_eq_ok_iff.mp h
    obtain ⟨-, t', -, h⟩ := stateT_bind_eq_ok_iff.mp h
    cases h
    exact length_parametersOf hps

variable {name : String} {constant : Bool} {s s' : Store K}

theorem length_sampleCoefs {k : Knots K} (hk : 2 ≤ k.size) {values errors coefs : List K}
    {smoothing : K} {ends : EndConditions K}
    (h : sampleCoefs k values errors smoothing ends = .ok coefs) : coefs.length = k.size + 2 := by
  obtain ⟨n, hn⟩ := Nat.exists_eq_add_of_le' hk
  unfold sampleCoefs at h
  split at h
  · obtain ⟨smoothed, -, h⟩ := bind_eq_ok_iff.mp h
    rw [(Spline.length_of_interpolate hn h).2, hn]
  · rw [(Spline.length_of_interpolate hn h).2, hn]

theorem eq_of_ofBins {boundaries : List K} {heights : List Parameter}
    {e : Efficiency K Parameter} (h : ofBins name boundaries heights = .ok e) : e = ⟨name, .binned boundaries heights⟩ := by
  obtain ⟨u, -, h⟩ := bind_eq_ok_iff.mp h
  split at h
  · cases h
    rfl
  · cases h

theorem eq_of_ofCoefs {points : List K} {coefs : List Parameter}
    {e : Efficiency K Parameter} (h : ofCoefs name points coefs = .ok e) : ∃ k, e = ⟨name, .spline k coefs⟩ := by
  obtain ⟨k, -, h⟩ := bind_eq_ok_iff.mp h
  unfold ofKnots at h
  split at h
  · cases h
    exact ⟨k, rfl⟩
  · cases h

/-- What the constructors give under a name. -/
structure BuiltAs (name : String) (e : Efficiency K Parameter) : Prop where
  name_eq : e.name = name
  constructed : e.Constructed

theorem builtAs_of_ofSamples {points values errors : List K} {smoothing : K} {ends : EndConditions K}
    {e : Efficiency K Parameter}
    (h : ofSamples name points values errors smoothing ends constant s = .ok (e, s')) :
    e.BuiltAs name := by
  unfold ofSamples at h
  split at h
  · cases h
  · obtain ⟨k, t, hk, h⟩ := stateT_bind_eq_ok_iff.mp h
    obtain ⟨coefs, t', hcoefs, h⟩ := stateT_bind_eq_ok_iff.mp h
    obtain ⟨ps, t'', hps, h⟩ := stateT_bind_eq_ok_iff.mp h
    cases h
    have hknots := mapError_eq_ok_iff.mp (stateT_lift_eq_ok_iff.mp hk).1
    obtain ⟨rfl, htwo, -⟩ := Knots.checked_of_ofList hknots
    have hlen := length_sampleCoefs htwo (mapError_eq_ok_iff.mp (stateT_lift_eq_ok_iff.mp hcoefs).1)
    exact ⟨rfl, .ofKnots hknots (if_pos ((length_splineParameters hps).trans hlen))⟩

theorem builtAs_of_ofBinValues {boundaries values : List K} {e : Efficiency K Parameter}
    (h : ofBinValues name boundaries values constant s = .ok (e, s')) : e.BuiltAs name := by
  obtain ⟨heights, t, -, h⟩ := stateT_bind_eq_ok_iff.mp h
  obtain ⟨hbins, -⟩ := stateT_lift_eq_ok_iff.mp h
  exact ⟨congrArg Efficiency.name (eq_of_ofBins hbins), .ofBins hbins⟩

theorem builtAs_of_ofConstantCoefs {points coefs : List K} {e : Efficiency K Parameter}
    (h : ofConstantCoefs name points coefs s = .ok (e, s')) : e.BuiltAs name := by
  obtain ⟨ps, t, -, h⟩ := stateT_bind_eq_ok_iff.mp h
  obtain ⟨hcoefs, -⟩ := stateT_lift_eq_ok_iff.mp h
  obtain ⟨k, he⟩ := eq_of_ofCoefs hcoefs
  exact ⟨congrArg Efficiency.name he, .ofCoefs hcoefs⟩

theorem constructed_of_closeAll {stem : String} {t t' : Thresholds K Parameter}
    {thresholds : List ((K × K) × Nat)} (ht : (⟨name, .threshold t⟩ : Efficiency K _).Constructed)
    (h : closeAll stem constant t thresholds s = .ok (t', s')) :
    (⟨name, .threshold t'⟩ : Efficiency K _).Constructed := by
  induction thresholds generalizing t s with
  | nil =>
    cases h
    exact ht
  | cons head rest ih =>
    obtain ⟨⟨limit, value⟩, i⟩ := head
    obtain ⟨p, u, -, h⟩ := stateT_bind_eq_ok_iff.mp h
    obtain ⟨closed, u', hclosed, h⟩ := stateT_bind_eq_ok_iff.mp h
    have hclose := (stateT_lift_eq_ok_iff.mp hclosed).1
    have hadd : (⟨name, .threshold t⟩ : Efficiency K _).addThreshold? limit p =
        some (.ok ⟨name, .threshold closed⟩) := by
      simp only [addThreshold?, hclose]
      rfl
    exact ih (.addThreshold ht hadd) h

theorem builtAs_of_ofThresholds {low high : K} {thresholds : List (K × K)}
    {e : Efficiency K Parameter}
    (h : ofThresholds name low high thresholds constant s = .ok (e, s')) : e.BuiltAs name := by
  obtain ⟨t, u, ht, h⟩ := stateT_bind_eq_ok_iff.mp h
  obtain ⟨t', u', ht', h⟩ := stateT_bind_eq_ok_iff.mp h
  cases h
  have hrange : Efficiency.ofRange name low high = .ok ⟨name, .threshold t⟩ := by
    rw [Efficiency.ofRange, (stateT_lift_eq_ok_iff.mp ht).1]
    rfl
  exact ⟨rfl, constructed_of_closeAll (.ofRange hrange) ht'⟩

section Keeping

theorem keeps_parametersOf (stem : String) (values : List K) (constant : Bool) :
    Keeps [] (parametersOf stem values constant) id :=
  Keeps.mapError EfficiencyError.parameter (Parameter.keeps_ofValues stem values constant)

theorem grows_foldl_setConstant (ps : List Parameter) (s : Store K) :
    s.Grows (ps.foldl (fun s p => s.setConstant p true) s) := by
  induction ps generalizing s with
  | nil => exact Store.Grows.refl s
  | cons p ps ih => exact (Store.grows_setConstant s p).trans (ih _)

theorem keeps_holdOuter (given ps : List Parameter) :
    Keeps given (holdOuter ps : Builder K Unit) fun _ => [] :=
  Keeps.modify fun s => grows_foldl_setConstant _ s

theorem keeps_splineParameters (name : String) (coefs : List K) (constant : Bool) :
    Keeps [] (splineParameters name coefs constant) id := by
  unfold splineParameters
  split
  · exact keeps_parametersOf _ _ _
  · refine Keeps.bind (keeps_parametersOf _ _ _) fun ps => ?_
    refine Keeps.bind (keeps_holdOuter _ ps) fun _ => ?_
    exact Keeps.pure (by simp)

theorem keeps_ofSamples (name : String) (points values errors : List K) (smoothing : K)
    (ends : EndConditions K) (constant : Bool) :
    Keeps [] (ofSamples name points values errors smoothing ends constant) parameters := by
  unfold ofSamples
  split
  · exact Keeps.throw _
  · refine Keeps.bind (Keeps.lift fun _ _ p hp => hp) fun knots => ?_
    refine Keeps.bind (Keeps.lift fun _ _ p hp => hp) fun coefs => ?_
    refine Keeps.bind (Keeps.mono (by simp) (keeps_splineParameters name coefs constant)) fun ps => ?_
    exact Keeps.pure (by simp [parameters])

theorem keeps_ofBinValues (name : String) (boundaries values : List K) (constant : Bool) :
    Keeps [] (ofBinValues name boundaries values constant) parameters := by
  refine Keeps.bind (keeps_parametersOf _ _ _) fun heights => Keeps.lift fun e he p hp => ?_
  obtain rfl := eq_of_ofBins he
  exact List.mem_append_right _ hp

theorem keeps_ofConstantCoefs (name : String) (points coefs : List K) :
    Keeps [] (ofConstantCoefs name points coefs) parameters := by
  refine Keeps.bind (keeps_parametersOf _ _ _) fun ps => Keeps.lift fun e he p hp => ?_
  obtain ⟨k, rfl⟩ := eq_of_ofCoefs he
  exact List.mem_append_right _ hp

theorem keeps_fraction (name : String) (value : K) (constant : Bool) :
    Keeps [] (fraction name value constant) fun p => [p] := by
  unfold fraction
  split
  · exact Keeps.mapError _ (Parameter.keeps_constantly name value)
  · exact Keeps.mapError _ (Parameter.keeps_floating name value 0 1)

theorem keeps_closeAll (name : String) (constant : Bool) (t : Thresholds K Parameter)
    (thresholds : List ((K × K) × Nat)) :
    Keeps t.fractions (closeAll name constant t thresholds) Thresholds.fractions := by
  induction thresholds generalizing t with
  | nil => exact Keeps.pure fun p hp => hp
  | cons head rest ih =>
    obtain ⟨⟨limit, value⟩, i⟩ := head
    refine Keeps.bind (Keeps.mono (by simp) (keeps_fraction _ value constant)) fun p => ?_
    have hclose : Keeps (t.fractions ++ [p]) (liftM (t.close limit p) : Builder K _) Thresholds.fractions := by
      refine Keeps.lift fun closed hclosed q hq => ?_
      exact Thresholds.fractions_of_close hclosed ▸ hq
    exact Keeps.bind hclose fun closed => Keeps.mono (fun q hq => List.mem_append_right _ hq) (ih closed)

theorem fractions_of_ofRange {low high : K} {t : Thresholds K Parameter}
    (h : Thresholds.ofRange low high = .ok t) : t.fractions = [] := by
  obtain ⟨-, rfl⟩ := Thresholds.ofRange_eq_ok_iff.mp h
  rfl

theorem keeps_ofThresholds (name : String) (low high : K) (thresholds : List (K × K)) (constant : Bool) :
    Keeps [] (ofThresholds name low high thresholds constant) parameters := by
  have hrange : Keeps [] (liftM (Thresholds.ofRange low high) : Builder K _) Thresholds.fractions := by
    refine Keeps.lift fun t ht p hp => ?_
    rw [fractions_of_ofRange ht] at hp
    exact hp
  refine Keeps.bind hrange fun t => ?_
  refine Keeps.bind (keeps_closeAll name constant t _) fun t' => ?_
  exact Keeps.pure fun p hp => List.mem_append_right _ hp

end Keeping

end Efficiency
end LifetimeEfficiency
