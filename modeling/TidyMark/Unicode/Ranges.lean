/-!
# Sets of code points

A set of code points is a list of closed ranges in increasing order. `Ranges.has` may stop at the
first range that starts past the character, so a table is only right when it is ordered.
-/

namespace TidyMark.Unicode

/-- Closed ranges of code points, in increasing order. -/
abbrev Ranges := List (Nat × Nat)

/-- Whether one of the ranges holds the code point `n`. -/
def Ranges.hasCode (n : Nat) : Ranges → Bool
  | [] => false
  | (first, last) :: rest => if n < first then false else n ≤ last || Ranges.hasCode n rest

def Ranges.has (rs : Ranges) (c : Char) : Bool :=
  rs.hasCode c.toNat

end TidyMark.Unicode
