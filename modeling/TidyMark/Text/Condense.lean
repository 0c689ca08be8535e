import TidyMark.Text.Basic

/-!
# Condensing blank lines

A line break is a line feed, alone or after one carriage return. `condense` writes every run of
two or more breaks as exactly two line feeds and leaves a single break as it is.
-/

namespace TidyMark.Text

/-- A line break as it stands in a text. -/
inductive Break where
  | lineFeed
  | returnLineFeed
deriving DecidableEq

/-- The characters of a break. -/
def Break.text : Break → Text
  | .lineFeed => ['\n']
  | .returnLineFeed => ['\r', '\n']

/-- What a run of breaks becomes: two or more are one blank line. -/
def condenseRun : List Break → Text
  | [] => []
  | [b] => b.text
  | _ :: _ :: _ => ['\n', '\n']

/-- Condenses a text that follows the breaks of `run`. -/
def condenseAfter (run : List Break) : Text → Text
  | [] => condenseRun run
  | '\n' :: rest => condenseAfter (.lineFeed :: run) rest
  | '\r' :: '\n' :: rest => condenseAfter (.returnLineFeed :: run) rest
  | c :: rest => condenseRun run ++ c :: condenseAfter [] rest

/-- Writes every run of two or more line breaks as two line feeds. -/
def condense (t : Text) : Text :=
  condenseAfter [] t

end TidyMark.Text
