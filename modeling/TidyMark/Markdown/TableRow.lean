import TidyMark.Markdown.Document
import TidyMark.Text.Line

/-!
# Rows of tables

A row is a line of cells with bars between them. A bar after a backslash belongs to its cell. One
bar may stand before the first cell and one after the last.
-/

namespace TidyMark.Markdown

/-- White space that may stand around a cell. -/
def isCellSpace (c : Char) : Bool :=
  c == ' ' || c == '\t' || c == '\x0b' || c == '\x0c'

/-- The stretches between the bars of a line; `escaped` tells whether a backslash stands before. -/
def splitBars (escaped : Bool) : Text → List Text
  | [] => [[]]
  | c :: rest =>
    if c == '|' && !escaped then [] :: splitBars false rest
    else
      match splitBars (c == '\\') rest with
      | [] => [[c]]
      | cell :: cells => (c :: cell) :: cells

/-- A text without the backslashes before bars. -/
def unescapeBars : Text → Text
  | '\\' :: '|' :: rest => '|' :: unescapeBars rest
  | c :: rest => c :: unescapeBars rest
  | [] => []

/-- The stretches that are cells: not what stands before a first or after a last bar. -/
def cellParts (line : Text) : List Text :=
  match splitBars false line with
  | [] => []
  | [cell] => if cell.isEmpty then [] else [cell]
  | first :: rest =>
    let parts := if first.isEmpty then rest else first :: rest
    if (parts.getLast?.getD []).all isCellSpace then parts.dropLast else parts

/-- The cells of a row, with nothing around them; none for a line without cells. -/
def rowCells (line : Text) : List Text :=
  (cellParts line).map fun cell => Text.trimSpace (unescapeBars cell)

/-- How a cell of dashes aligns its column, if it is one. -/
def columnAlign? (cell : Text) : Option (Option Align) :=
  let left := cell.head? == some ':'
  let right := cell.getLast? == some ':'
  let dashes := if left then cell.tail else cell
  let dashes := if right then dashes.dropLast else dashes
  if dashes.isEmpty || !dashes.all (· == '-') then none
  else
    match left, right with
    | true, true => some (some .center)
    | true, false => some (some .left)
    | false, true => some (some .right)
    | false, false => some none

/-- How the columns of a table are aligned, if a line is the row of dashes below its header. -/
def columnAligns? (line : Text) : Option (List (Option Align)) :=
  match rowCells line with
  | [] => none
  | cells => cells.mapM columnAlign?

/-- The rows of a table have as many cells as its header: others are left out or added. -/
def fitRow (columns : Nat) (cells : List Text) : List Text :=
  cells.take columns ++ List.replicate (columns - cells.length) []

/-- A table that begins with the last line of a paragraph. -/
structure TableStart where
  /-- The text of the paragraph before the table, if the header is not its first line. -/
  before : Option Text
  aligns : List (Option Align)
  header : List Text

/-- Begins a table with a row of dashes below a paragraph. -/
def TableStart.ofLine? (paragraph line : Text) : Option TableStart := do
  let aligns ← columnAligns? line
  let lines := Text.pieces paragraph
  let header := rowCells (Text.dropEndWhile (· == '\n') (lines.getLast?.getD []))
  if header.length == aligns.length && !header.isEmpty then
    let before := lines.dropLast
    let text := Text.trimSpace (unescapeBars before.flatten)
    return ⟨if before.isEmpty then none else some text, aligns, header⟩
  else none

end TidyMark.Markdown
