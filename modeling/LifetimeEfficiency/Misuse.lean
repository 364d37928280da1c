/-!
# Misuse

Requests that break a precondition of an operation, as against data that a constructor refuses.
Operations that check one return the misuse instead of a result.
-/
namespace LifetimeEfficiency

inductive Misuse (K : Type)
  | invertedConvolution (lo hi : K)
  | invertedIntegration (lo hi : K)
  | momentOrder (j k : Nat)
  /-- A number that counts or numbers something left the range of its 64-bit word. -/
  | wordRange
  /-- An incomplete gamma function was asked for outside its domain. -/
  | gammaDomain
  deriving DecidableEq

/-- Numbers are written by `text`; neither a word out of range nor a special function outside its domain has a text. -/
def Misuse.message? {K : Type} (text : K → String) : Misuse K → Option String
  | .invertedConvolution lo hi => some s!"convolution range [{text lo}, {text hi}] is inverted"
  | .invertedIntegration lo hi => some s!"integration range [{text lo}, {text hi}] is inverted"
  | .momentOrder j k => some s!"moment ({j}, {k}) exceeds cubic order"
  | .wordRange => none
  | .gammaDomain => none

end LifetimeEfficiency
