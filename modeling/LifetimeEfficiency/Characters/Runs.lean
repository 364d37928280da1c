/-!
# Runs of characters

Classes of characters as runs of consecutive codes. The classes follow version 17 of the Unicode standard.
-/
namespace LifetimeEfficiency

/-- The first and the last code of each run, in increasing order. -/
abbrev CodeRuns := List (Nat × Nat)

def CodeRuns.holds (runs : CodeRuns) (c : Char) : Bool :=
  runs.any fun run => run.1 ≤ c.toNat && c.toNat ≤ run.2

end LifetimeEfficiency
