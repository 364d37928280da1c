import LifetimeEfficiency.Resolution.Ziggurat
/-!
# Scripted draws

A source of random draws that reads 64-bit words and decay times from lists, each in order and over again. Normal deviates
and uniform numbers are made from the words; a decay time is taken as it is.
-/
namespace LifetimeEfficiency.Words

structure Script where
  words : Array UInt64
  times : Array Float

structure Used where
  words : Nat
  times : Nat

def unused : Used := ⟨0, 0⟩

namespace Script

def word (s : Script) (n : Nat) : UInt64 := s.words.getD (n % s.words.size) 0

def time (s : Script) (n : Nat) : Float := s.times.getD (n % s.times.size) 0

def source (s : Script) : Source Float Used where
  decay used := (s.time used.times, { used with times := used.times + 1 })
  normal used :=
    let (deviate, n) := Ziggurat.normal s.word s.words.size used.words
    (deviate, { used with words := n })
  uniform used := (Ziggurat.uniform (s.word used.words), { used with words := used.words + 1 })

end Script
end LifetimeEfficiency.Words
