import TidyMark.Render.Block

/-!
# Rules for tables

A row is written `| a | b |`. The cells of the header record how their columns are aligned, and the
row of alignments follows the header, written where the body opens or, without a body, where the
header ends.
-/

namespace TidyMark.Render

/-- The dashes and colons that align a column. -/
def alignMarker : Option Align → Text
  | some .center => ":---:"
  | some .left => ":---"
  | some .right => "---:"
  | none => "---"

def alignmentRow (aligns : List (Option Align)) : Text :=
  "| " ++ Text.join " | " (aligns.map alignMarker) ++ " |\n"

/-- What ends a cell: the end of its row, or else `separator`. -/
def cellEnd (separator : Text) (after : List Token) : Text :=
  if following? after == some (.closing .tableRow) then " |" else separator

/-- A table begins without alignments. -/
def openTable (state : State) : State × Text :=
  ({ state with aligns := [], inside := { table := true } }, [])

def closeTable (state : State) : State × Text :=
  ({ state with inside := {} }, ['\n'])

def openTableHead (state : State) : State × Text :=
  ({ state with inside := { state.inside with head := true } }, "| ")

/-- The end of the header. The body writes the row of alignments if there is one. -/
def closeTableHead (state : State) (s : Sight) : State × Text :=
  ({ state with inside := { state.inside with head := false } },
    if following? s.after == some (.opening .tableBody) then [] else alignmentRow state.aligns)

def openTableRow (state : State) : State × Text :=
  ({ state with inside := { state.inside with row := true } }, [])

def closeTableRow (state : State) : State × Text :=
  ({ state with inside := { state.inside with row := false } }, ['\n'])

/-- The start of a cell of the header, whose alignment is remembered. -/
def openHeaderCell (state : State) (s : Sight) : State × Text :=
  ({ state with
      aligns := if state.inside.head then state.aligns ++ [s.token.align] else state.aligns
      inside := { state.inside with headerCell := true } },
    [])

def closeHeaderCell (state : State) (s : Sight) : State × Text :=
  ({ state with inside := { state.inside with headerCell := false } }, cellEnd " | " s.after)

def openDataCell (s : Sight) : Text :=
  if preceding? s.before == some (.opening .tableRow) then "| " else " | "

end TidyMark.Render
