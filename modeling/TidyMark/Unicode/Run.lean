/-!
# Runs of single-character mappings

Case mappings come in runs: every `step`-th code point from `first` to `last` moves by the same
distance.
-/

namespace TidyMark.Unicode

/-- Every `step`-th code point from `first` to `last` goes as far as `first` goes to `target`. -/
structure Run where
  first : Nat
  last : Nat
  step : Nat
  target : Nat

/-- Where the run sends `n`, if it moves it at all. -/
def Run.send? (r : Run) (n : Nat) : Option Nat :=
  if r.first ≤ n && n ≤ r.last && (n - r.first) % r.step == 0 then some (r.target + (n - r.first))
  else none

/-- Where the first run that moves `c` sends it. -/
def sendRuns? (rs : List Run) (c : Char) : Option Char :=
  (rs.findSome? (·.send? c.toNat)).map Char.ofNat

end TidyMark.Unicode
