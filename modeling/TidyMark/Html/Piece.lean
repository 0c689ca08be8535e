import TidyMark.Text.Basic

/-!
# Pieces of HTML

The tags of blocks begin lines. Whether a line has to be ended for that hangs on what stands before
it, so a block is written in pieces, and the pieces are put together at the end.
-/

namespace TidyMark.Html

/-- A piece of HTML. -/
inductive Piece where
  | verbatim (t : Text)
  /-- The beginning of a line: a line feed, unless a line has just begun. -/
  | freshLine
deriving DecidableEq

/-- The HTML that pieces make; `fresh` tells whether a line has just begun. -/
def assemble (fresh : Bool) : List Piece → Text
  | [] => []
  | .verbatim t :: rest => t ++ assemble (t.getLast?.elim fresh (· == '\n')) rest
  | .freshLine :: rest => if fresh then assemble true rest else '\n' :: assemble true rest

/-- The beginning of a line is there at once. -/
theorem assemble_freshLine_freshLine (fresh : Bool) (rest : List Piece) :
    assemble fresh (.freshLine :: .freshLine :: rest) = assemble fresh (.freshLine :: rest) := by
  cases fresh <;> simp [assemble]

end TidyMark.Html
