import LifetimeEfficiency.Resolution.Response
/-!
# Generation

Observed decay times by hit or miss. A true decay time is smeared; if it falls inside the range it is kept with the probability
that the efficiency has there, in units of its maximum. Random numbers come from a source that is given.
-/
namespace LifetimeEfficiency

inductive GenerationError (K : Type)
  | invalidRange (tmin tmax : K)
  | invalidWidth (width : K)
  | invalidMaximum (maximum : K)
  | attemptsExhausted (attempts : Nat)
  deriving DecidableEq

def GenerationError.message {K : Type} (text : K → String) : GenerationError K → String
  | .invalidRange tmin tmax =>
    s!"generation range [{text tmin}, {text tmax}] is empty or not finite"
  | .invalidWidth width => s!"resolution width must be positive and finite, got {text width}"
  | .invalidMaximum maximum =>
    s!"efficiency maximum must be positive and finite, got {text maximum}"
  | .attemptsExhausted attempts => s!"no event accepted after {attempts} attempts"

/-- Draws of three kinds, each of which moves the state on. -/
structure Source (K σ : Type) where
  decay : σ → K × σ
  normal : σ → K × σ
  uniform : σ → K × σ

structure Generator (K : Type) where
  response : Response K
  tmin : K
  tmax : K
  maximum : K

namespace Generator

variable {K σ : Type} [Scalar K]

def isRange (tmin tmax : K) : Bool := Scalar.isFinite tmin && Scalar.isFinite tmax && tmin < tmax

def isPositive (x : K) : Bool := Scalar.isFinite x && 0 < x

def defaultAttempts : Nat := 1000000

def ofResponse (r : Response K) (tmin tmax : K) : Except (GenerationError K) (Generator K) :=
  if !isRange tmin tmax then .error (.invalidRange tmin tmax)
  else if !isPositive r.profile.maxValue then .error (.invalidMaximum r.profile.maxValue)
  else if !isPositive r.width then .error (.invalidWidth r.width)
  else .ok ⟨r, tmin, tmax, r.profile.maxValue⟩

/-- One draw from the resolution. -/
def smear (r : Response K) (source : Source K σ) (s : σ) : K × σ :=
  let (deviate, s) := source.normal s
  (r.offset + r.width * deviate, s)

def isInside (tmin tmax t : K) : Bool := tmin < t && t < tmax

/-- One attempt; the uniform number is drawn only where there is something to decide. -/
def attempt (g : Generator K) (source : Source K σ) (s : σ) : Option K × σ :=
  let (decay, s) := source.decay s
  let (smearing, s) := smear g.response source s
  let t := decay + smearing
  if !isInside g.tmin g.tmax t then (none, s)
  else
    let efficiency := g.response.profile.value t
    if g.maximum < efficiency then (none, s)
    else
      let (r, s) := source.uniform s
      (if r * g.maximum < efficiency then some t else none, s)

def firstSuccess (attempt : σ → Option K × σ) : Nat → σ → Option (K × σ)
  | 0, _ => none
  | n + 1, s =>
    match attempt s with
    | (some t, s) => some (t, s)
    | (none, s) => firstSuccess attempt n s

def generate (g : Generator K) (source : Source K σ) (attempts : Nat) (s : σ) :
    Except (GenerationError K) (K × σ) :=
  match firstSuccess (g.attempt source) attempts s with
  | some found => .ok found
  | none => .error (.attemptsExhausted attempts)

def generateMany (g : Generator K) (source : Source K σ) (attempts : Nat) :
    Nat → σ → Except (GenerationError K) (List K × σ)
  | 0, s => .ok ([], s)
  | n + 1, s => do
    let (t, s) ← g.generate source attempts s
    let (ts, s) ← generateMany g source attempts n s
    return (t :: ts, s)

/-- A draw from the resolution alone, repeated until it falls inside the range. -/
def resolution (r : Response K) (tmin tmax : K) (source : Source K σ) (s : σ) :
    Except (GenerationError K) (K × σ) :=
  let draw (s : σ) : Option K × σ :=
    let (t, s) := smear r source s
    (if isInside tmin tmax t then some t else none, s)
  if !isRange tmin tmax then .error (.invalidRange tmin tmax)
  else if !isPositive r.width then .error (.invalidWidth r.width)
  else
    match firstSuccess draw defaultAttempts s with
    | some found => .ok found
    | none => .error (.attemptsExhausted defaultAttempts)

end Generator
end LifetimeEfficiency
