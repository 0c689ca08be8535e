import TidyMark.Options
import TidyMark.Reflink.Expansion
import TidyMark.Render.Report
import TidyMark.Token.Basic

/-!
# The state of a rendering

The rules of a rendering share a `Setting`, which does not change, and a `State`, which they hand
on from token to token.
-/

namespace TidyMark.Render

/-- What all rules of one rendering go by. -/
structure Setting where
  options : Options
  /-- The targets that references in the text of tokens resolve to. -/
  reflinks : Reflink.Table

def Setting.ofOptions (options : Options) : Setting :=
  ⟨options, ({} : Reflink.Table).withContext options.reflinks⟩

/-- A list that is open, or the one that was closed last. -/
structure ListFrame where
  ordered : Bool
  /-- The ordinal of the next item. -/
  next : Nat
  level : Option Nat
  /-- How many lists of the same kind stand directly before this one. -/
  shift : Nat
deriving DecidableEq

/-- What the end of a link has to write. -/
inductive LinkFrame where
  | link (href title : Text)
  /-- Nothing: the image inside has written the link. -/
  | badge
deriving DecidableEq

/-- Which parts of a table are open. -/
structure Inside where
  table : Bool := false
  head : Bool := false
  row : Bool := false
  headerCell : Bool := false
deriving DecidableEq

/-- What the rules remember from token to token; the stacks have their innermost frame first. -/
structure State where
  lists : List ListFrame := []
  closedList : Option ListFrame := none
  inside : Inside := {}
  /-- While a strong run is open: whether text stood directly before it. -/
  strong : Option Bool := none
  aligns : List (Option Align) := []
  links : List LinkFrame := []
  report : Report := {}

end TidyMark.Render
