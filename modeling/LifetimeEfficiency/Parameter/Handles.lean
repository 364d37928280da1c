import LifetimeEfficiency.Parameter.Store
/-!
# Handles

A growing list of parameters over one store. A handle is a position in the list; copying one adds a position that holds the
same cell.
-/
namespace LifetimeEfficiency

structure Handles (K : Type) where
  store : Store K
  held : List Parameter

namespace Handles

variable {K : Type} [Scalar K]

def empty : Handles K := ⟨Store.empty, []⟩

def parameter? (h : Handles K) (i : Nat) : Option Parameter := h.held[i]?

def state? (h : Handles K) (i : Nat) : Option (ParameterState K) :=
  h.parameter? i >>= h.store.state?

def hold (h : Handles K) (p : Parameter) : Handles K := { h with held := h.held ++ [p] }

def add (h : Handles K) (state : ParameterState K) : Handles K :=
  let (p, store) := h.store.add state
  { h with store := store }.hold p

def constantly (h : Handles K) (name : String) (value : K) : Handles K :=
  h.add (.constantly name value)

def floating (h : Handles K) (name : String) (value min max : K) :
    Except (ParameterError K) (Handles K) := do
  return h.add (← ParameterState.floating name value min max)

def copy? (h : Handles K) (i : Nat) : Option (Handles K) := (h.parameter? i).map h.hold

def setValue? (h : Handles K) (i : Nat) (value : K) :
    Option (Except (ParameterError K) (Handles K)) :=
  (h.parameter? i).map fun p => do return { h with store := ← h.store.setValue p value }

def setConstant? (h : Handles K) (i : Nat) (constant : Bool) : Option (Handles K) :=
  (h.parameter? i).map fun p => { h with store := h.store.setConstant p constant }

def shares? (h : Handles K) (i j : Nat) : Option Bool := do
  return (← h.parameter? i) == (← h.parameter? j)

end Handles
end LifetimeEfficiency
