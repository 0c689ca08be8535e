import TidyMark.Render.State

/-!
# What a rule sees

A rule sees its token between the tokens before it, which are settled, and those after it.
-/

namespace TidyMark.Render

/-- A token between its siblings. -/
structure Sight where
  /-- The tokens before, the nearest first. -/
  before : List Token
  token : Token
  /-- The tokens after, the nearest first. -/
  after : List Token
  /-- How many links that began before the token have not ended. -/
  openLinks : Nat

/-- The kind of the token that stands directly before. -/
def preceding? (before : List Token) : Option Kind :=
  before.head?.map (·.kind)

/-- The kind of the token that follows directly. -/
def following? (after : List Token) : Option Kind :=
  after.head?.map (·.kind)

end TidyMark.Render
