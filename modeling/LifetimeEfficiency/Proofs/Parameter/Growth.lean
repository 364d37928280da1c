import LifetimeEfficiency.Parameter.Store
import LifetimeEfficiency.Proofs.Outcome
import LifetimeEfficiency.Proofs.Parameter.States
import Mathlib.Data.List.Basic
/-!
# Growing stores

Building adds cells to a store. The parameters that were there before keep their values, and every state stays within its range.
-/
namespace LifetimeEfficiency

variable {K : Type} [Scalar K]

/-- Only constants go without a range. -/
structure ParameterState.WellFormed (state : ParameterState K) : Prop where
  bounded : state.constant = false → ∃ lo hi, state.range = some (lo, hi)
  inRange : ∀ lo hi, state.range = some (lo, hi) → lo ≤ state.value ∧ state.value ≤ hi

namespace ParameterState

theorem wellFormed_constantly (name : String) (value : K) : (constantly name value).WellFormed :=
  ⟨nofun, nofun⟩

theorem wellFormed_of_floating {name : String} {value min max : K} {state : ParameterState K}
    (h : floating name value min max = .ok state) : state.WellFormed := by
  obtain ⟨-, hle, hge, rfl⟩ := floating_eq_ok_iff.mp h
  refine ⟨fun _ => ⟨min, max, rfl⟩, fun lo hi hrange => ?_⟩
  cases hrange
  exact ⟨hle, hge⟩

theorem WellFormed.hold {state : ParameterState K} (h : state.WellFormed) :
    (state.setConstant true).WellFormed :=
  ⟨nofun, h.inRange⟩

end ParameterState

namespace Store

def WellFormed (s : Store K) : Prop := ∀ state ∈ s.cells, state.WellFormed

def Holds (s : Store K) (p : Parameter) : Prop := p.cell < s.cells.length

instance (s : Store K) (p : Parameter) : Decidable (s.Holds p) :=
  inferInstanceAs (Decidable (p.cell < s.cells.length))

structure Grows (s s' : Store K) : Prop where
  holds : ∀ {p}, s.Holds p → s'.Holds p
  value : ∀ {p}, s.Holds p → s'.value p = s.value p
  wellFormed : s.WellFormed → s'.WellFormed

variable {s s' s'' : Store K}

theorem Grows.refl (s : Store K) : s.Grows s := ⟨id, fun _ => rfl, id⟩

theorem Grows.trans (h : s.Grows s') (h' : s'.Grows s'') : s.Grows s'' where
  holds hp := h'.holds (h.holds hp)
  value hp := (h'.value (h.holds hp)).trans (h.value hp)
  wellFormed hs := h'.wellFormed (h.wellFormed hs)

theorem wellFormed_empty : (empty : Store K).WellFormed := fun _ h => by cases h

omit [Scalar K] in
theorem holds_add (s : Store K) (state : ParameterState K) : (s.add state).2.Holds (s.add state).1 := by
  simp [Holds, add]

@[simp] theorem value_add_self (s : Store K) (state : ParameterState K) :
    (s.add state).2.value (s.add state).1 = state.value := by
  simp [value]

theorem grows_add {state : ParameterState K} (h : state.WellFormed) (s : Store K) :
    s.Grows (s.add state).2 where
  holds {p} hp := by
    have hlt : p.cell < s.cells.length := hp
    simp only [Holds, add, List.length_append, List.length_singleton]
    omega
  value hp := by rw [value, value, state?_add_of_lt hp]
  wellFormed hs state' hmem := by
    rcases List.mem_append.mp hmem with hold | hnew
    · exact hs state' hold
    · obtain rfl := List.mem_singleton.mp hnew
      exact h

theorem grows_setConstant (s : Store K) (p : Parameter) : s.Grows (s.setConstant p true) := by
  unfold setConstant
  split
  · rename_i state hstate
    have hlt : p.cell < s.cells.length := (List.getElem?_eq_some_iff.mp hstate).1
    refine ⟨fun {q} hq => ?_, fun {q} _ => ?_, fun hs state' hmem => ?_⟩
    · rw [Holds, replace, List.length_set]
      exact hq
    · -- the state of `p` is replaced, by one of the same value
      by_cases hpq : p = q
      · subst hpq
        rw [value, value, state?_replace_self hlt, hstate]
        rfl
      · rw [value, value, state?_replace_of_ne hpq]
    · rcases List.mem_or_eq_of_mem_set hmem with hold | rfl
      · exact hs state' hold
      · exact (hs state (List.mem_of_getElem? hstate)).hold
  · exact Grows.refl s

end Store

/-- From a store with cells for the given parameters, the store only grows and all that the outcome uses has cells. -/
def Keeps {ε α : Type} (given : List Parameter) (b : Building K ε α) (used : α → List Parameter) : Prop :=
  ∀ s, (∀ p ∈ given, s.Holds p) → ∀ a s', b s = .ok (a, s') → s.Grows s' ∧ ∀ p ∈ used a, s'.Holds p

namespace Keeps

variable {ε ε' α β : Type} {given : List Parameter} {used : α → List Parameter}
  {used' : β → List Parameter}

theorem pure {a : α} (h : ∀ p ∈ used a, p ∈ given) : Keeps given (Pure.pure a : Building K ε α) used := by
  intro s hs b s' hb
  cases hb
  exact ⟨Store.Grows.refl s, fun p hp => hs p (h p hp)⟩

/-- What the second step is given may be what the first one was given or what its outcome uses. -/
theorem bind {b : Building K ε α} {f : α → Building K ε β} (hb : Keeps given b used)
    (hf : ∀ a, Keeps (given ++ used a) (f a) used') : Keeps given (b >>= f) used' := by
  intro s hs c s' h
  obtain ⟨a, t, hbt, hft⟩ := stateT_bind_eq_ok_iff.mp h
  obtain ⟨hgrows, hused⟩ := hb s hs a t hbt
  have ht : ∀ p ∈ given ++ used a, t.Holds p := by
    intro p hp
    rcases List.mem_append.mp hp with hp | hp
    · exact hgrows.holds (hs p hp)
    · exact hused p hp
  obtain ⟨hgrows', hused'⟩ := hf a t ht c s' hft
  exact ⟨hgrows.trans hgrows', hused'⟩

theorem mono {b : Building K ε α} {given' : List Parameter} (h : ∀ p ∈ given, p ∈ given')
    (hb : Keeps given b used) : Keeps given' b used :=
  fun s hs => hb s fun p hp => hs p (h p hp)

theorem lift {x : Except ε α} (h : ∀ a, x = .ok a → ∀ p ∈ used a, p ∈ given) :
    Keeps given (liftM x : Building K ε α) used := by
  intro s hs a s' hx
  obtain ⟨ha, rfl⟩ := stateT_lift_eq_ok_iff.mp hx
  exact ⟨Store.Grows.refl s', fun p hp => hs p (h a ha p hp)⟩

theorem throw (e : ε) : Keeps given (throw e : Building K ε α) used :=
  fun s hs a s' h => by cases h

theorem mapError {b : Building K ε α} (f : ε → ε') (hb : Keeps given b used) :
    Keeps given (fun s => (b s).mapError f : Building K ε' α) used :=
  fun s hs a s' h => hb s hs a s' (mapError_eq_ok_iff.mp h)

theorem modify {f : Store K → Store K} (h : ∀ s : Store K, s.Grows (f s)) :
    Keeps given (modify f : Building K ε Unit) fun _ => [] := by
  intro s hs u s' hu
  cases hu
  exact ⟨h s, fun p hp => by cases hp⟩

theorem mapM {f : β → Building K ε Parameter} {bs : List β} (hf : ∀ b ∈ bs, Keeps [] (f b) fun p => [p]) :
    Keeps [] (bs.mapM f) id := by
  induction bs with
  | nil => exact Keeps.pure fun p hp => hp
  | cons b bs ih =>
    rw [List.mapM_cons]
    refine bind (hf b List.mem_cons_self) fun p => ?_
    refine bind (mono (by simp) (ih fun b' hb' => hf b' (List.mem_cons_of_mem _ hb'))) fun ps => ?_
    exact Keeps.pure (by simp)

end Keeps

namespace Parameter

variable {ε : Type}

theorem of_constantly {name : String} {value : K} {s s' : Store K} {p : Parameter}
    (h : (constantly name value : Building K ε Parameter) s = .ok (p, s')) :
    s.Grows s' ∧ s'.Holds p ∧ s'.value p = value := by
  cases h
  exact ⟨Store.grows_add (ParameterState.wellFormed_constantly name value) s, Store.holds_add s _,
    Store.value_add_self s _⟩

theorem keeps_constantly (name : String) (value : K) :
    Keeps [] (constantly name value : Building K ε Parameter) fun p => [p] := by
  intro s hs p s' h
  obtain ⟨hgrows, hholds, -⟩ := of_constantly h
  refine ⟨hgrows, fun q hq => ?_⟩
  obtain rfl := List.mem_singleton.mp hq
  exact hholds

theorem keeps_floating (name : String) (value min max : K) :
    Keeps [] (floating name value min max) fun p => [p] := by
  intro s hs p s' h
  obtain ⟨state, t, hstate, hadd⟩ := stateT_bind_eq_ok_iff.mp h
  obtain ⟨hfloating, rfl⟩ := stateT_lift_eq_ok_iff.mp hstate
  cases hadd
  refine ⟨Store.grows_add (ParameterState.wellFormed_of_floating hfloating) t, fun p hp => ?_⟩
  obtain rfl := List.mem_singleton.mp hp
  exact Store.holds_add t _

theorem keeps_ofValues (stem : String) (values : List K) (constant : Bool) :
    Keeps [] (ofValues stem values constant) id := by
  refine Keeps.mapM fun vi _ => ?_
  dsimp only
  split
  · exact keeps_constantly _ _
  · exact keeps_floating _ _ _ _

end Parameter
end LifetimeEfficiency
