import LifetimeEfficiency.Parameter.Basic
/-!
# Parameter stores

All parameters live in cells of one store and are held by cell number. Whoever holds the same cell reads the
same state, so moving a parameter moves it for every holder; cells are added and never removed.
-/
namespace LifetimeEfficiency

structure Parameter where
  cell : Nat
  deriving DecidableEq

structure Store (K : Type) where
  cells : List (ParameterState K)

namespace Store

variable {K : Type}

def empty : Store K := ⟨[]⟩

def state? (s : Store K) (p : Parameter) : Option (ParameterState K) := s.cells[p.cell]?

def add (s : Store K) (state : ParameterState K) : Parameter × Store K :=
  (⟨s.cells.length⟩, ⟨s.cells ++ [state]⟩)

def replace (s : Store K) (p : Parameter) (state : ParameterState K) : Store K :=
  ⟨s.cells.set p.cell state⟩

@[simp] theorem state?_add_self (s : Store K) (state : ParameterState K) :
    (s.add state).2.state? (s.add state).1 = some state := by
  simp [add, state?]

theorem state?_add_of_lt {s : Store K} {p : Parameter} (h : p.cell < s.cells.length)
    (state : ParameterState K) : (s.add state).2.state? p = s.state? p := by
  simp [add, state?, List.getElem?_append_left h]

theorem state?_replace_self {s : Store K} {p : Parameter} (h : p.cell < s.cells.length)
    (state : ParameterState K) : (s.replace p state).state? p = some state := by
  simp [replace, state?, h]

theorem state?_replace_of_ne {p q : Parameter} (h : p ≠ q) (s : Store K)
    (state : ParameterState K) : (s.replace p state).state? q = s.state? q := by
  have hc : p.cell ≠ q.cell := fun e => h (by cases p; cases q; simp_all)
  simp [replace, state?, List.getElem?_set_ne hc]

variable [Scalar K]

/-- The present value; a cell that the store lacks reads as zero. -/
def value (s : Store K) (p : Parameter) : K :=
  match s.state? p with
  | some state => state.value
  | none => 0

/-- A refused value leaves the store alone; so does a cell that the store lacks. -/
def setValue (s : Store K) (p : Parameter) (value : K) : Except (ParameterError K) (Store K) :=
  match s.state? p with
  | some state => do return s.replace p (← state.setValue value)
  | none => .ok s

def setConstant (s : Store K) (p : Parameter) (constant : Bool) : Store K :=
  match s.state? p with
  | some state => s.replace p (state.setConstant constant)
  | none => s

end Store

/-- Building with parameters: new cells are added on the way, and a failure adds none. -/
abbrev Building (K ε : Type) := StateT (Store K) (Except ε)

namespace Parameter

variable {K : Type} [Scalar K]

def constantly {ε : Type} (name : String) (value : K) : Building K ε Parameter :=
  modifyGet fun s => s.add (.constantly name value)

def floating (name : String) (value min max : K) : Building K (ParameterError K) Parameter := do
  let state ← (ParameterState.floating name value min max : Except _ _)
  modifyGet fun s => s.add state

/-- One parameter for each value, named by a stem and its number. Floating ones may move between zero and one, and as
far beyond as the value itself lies. -/
def ofValues (stem : String) (values : List K) (constant : Bool) :
    Building K (ParameterError K) (List Parameter) :=
  values.zipIdx.mapM fun vi =>
    let name := s!"{stem}_{vi.2}"
    if constant then constantly name vi.1
    else floating name vi.1 (min 0 vi.1) (max 1 vi.1)

end Parameter

end LifetimeEfficiency
