import TidyMark.Text.Line
import TidyMark.Unicode.Class

/-!
# Code regions

The expander goes through a source line by line and leaves lines of code alone. `Line.ofSource`
cuts a source into lines and marks those that belong to a fenced or an indented code block; the
lines put together again are the source (`source_ofSource`).

A line indented by four or more columns begins indented code only after a blank line and outside a
list, where the indentation belongs to the item instead.
-/

namespace TidyMark.Reflink

/-- A line, the line break after it and whether it is code. -/
structure Line where
  text : Text
  ending : Text
  inCode : Bool
deriving DecidableEq

/-- The columns of white space that a line begins with; a tab goes to the next stop of four. -/
def indentWidth (line : Text) : Nat :=
  go 0 line
where
  go (width : Nat) : Text → Nat
    | ' ' :: rest => go (width + 1) rest
    | '\t' :: rest => go (width + (4 - width % 4)) rest
    | _ => width

/-- A run of backticks or tildes that can open or close a fence, and the rest of its line. -/
structure FenceMark where
  char : Char
  length : Nat
  rest : Text

/-- Reads a fence: at most three spaces, then three or more backticks or tildes. -/
def FenceMark.ofLine? (line : Text) : Option FenceMark :=
  if 3 < (line.takeWhile (· == ' ')).length then none
  else
    let trimmed := line.dropWhile (· == ' ')
    match trimmed with
    | [] => none
    | c :: _ =>
      let length := (trimmed.takeWhile (· == c)).length
      if (c == '`' || c == '~') && 3 ≤ length then some ⟨c, length, trimmed.dropWhile (· == c)⟩
      else none

/-- Whether a marker ends where the line ends or white space begins. -/
def endsMarker (rest : Text) : Bool :=
  rest.isEmpty || rest.head?.any isIndent

/-- Whether a line begins with a bullet or an ordinal after at most three spaces. -/
def isListItem (line : Text) : Bool :=
  let indent := (line.takeWhile (· == ' ')).length
  let rest := line.dropWhile (· == ' ')
  indent ≤ 3 &&
    match rest with
    | [] => false
    | c :: after =>
      if c == '-' || c == '+' || c == '*' then endsMarker after
      else
        let digits := (rest.takeWhile isDigit).length
        match rest.dropWhile isDigit with
        | d :: after =>
          1 ≤ digits && digits ≤ 9 && (d == '.' || d == ')') && endsMarker after
        | [] => false

/-- What the lines so far say about the next one. -/
structure Region where
  /-- The character and the length of the fence that is open. -/
  fence : Option (Char × Nat) := none
  /-- Whether indented code is open. -/
  indented : Bool := false
  inList : Bool := false
  afterBlank : Bool := true

/-- Whether a line closes a fence of this character and length. -/
def closesFence (fence : Char × Nat) (line : Text) : Bool :=
  match FenceMark.ofLine? line with
  | some mark => mark.char == fence.1 && fence.2 ≤ mark.length && mark.rest.allBlank
  | none => false

/-- Whether a line is code after `region`, and the code that is open after it: a fence or
indented code. -/
def Region.classify (region : Region) (line : Text) : Bool × Option (Char × Nat) × Bool :=
  match region.fence with
  | some fence => (true, if closesFence fence line then none else some fence, region.indented)
  | none =>
    let blank := line.allBlank
    let indent := indentWidth line
    if region.indented && (blank || 4 ≤ indent) then (true, none, true)
    else if !blank && 4 ≤ indent && region.afterBlank && !region.inList then (true, none, true)
    else
      match FenceMark.ofLine? line with
      | some mark => (true, some (mark.char, mark.length), false)
      | none => (false, none, false)

/-- Whether a line is code after `region`, and the region after the line. -/
def Region.step (region : Region) (line : Text) : Bool × Region :=
  let blank := line.allBlank
  let (inCode, fence, indented) := region.classify line
  let inList :=
    if !inCode && !blank then
      isListItem line || region.inList && (!region.afterBlank || 0 < indentWidth line)
    else region.inList
  (inCode, ⟨fence, indented, inList, blank⟩)

/-- A line without its line feed and the carriage returns before that. -/
def lineText (piece : Text) : Text :=
  (piece.dropEndWhile (· == '\n')).dropEndWhile (· == '\r')

/-- Marks the lines of `pieces` that are code, after `region`. -/
def Line.mark (region : Region) : List Text → List Line
  | [] => []
  | piece :: rest =>
    let text := lineText piece
    let (inCode, region) := region.step text
    ⟨text, piece.drop text.length, inCode⟩ :: Line.mark region rest

def Line.ofSource (source : Text) : List Line :=
  Line.mark {} source.pieces

def Line.source (lines : List Line) : Text :=
  lines.flatMap fun line => line.text ++ line.ending

theorem dropEndWhile_initial (p : Char → Bool) (t : Text) : t.dropEndWhile p <+: t := by
  have h := List.reverse_prefix.2 (List.dropWhile_suffix p (l := t.reverse))
  simpa [Text.dropEndWhile] using h

theorem lineText_append_drop (piece : Text) :
    lineText piece ++ piece.drop (lineText piece).length = piece :=
  List.prefix_iff_eq_append.1 <|
    (dropEndWhile_initial (· == '\r') _).trans (dropEndWhile_initial (· == '\n') piece)

theorem source_mark (region : Region) (pieces : List Text) :
    Line.source (Line.mark region pieces) = pieces.flatten := by
  induction pieces generalizing region with
  | nil => rfl
  | cons piece rest ih =>
    have := ih (region.step (lineText piece)).2
    simp only [Line.source] at this
    simp [Line.mark, Line.source, this, lineText_append_drop]

theorem source_ofSource (source : Text) : Line.source (Line.ofSource source) = source := by
  simp [Line.ofSource, source_mark, Text.flatten_pieces]

end TidyMark.Reflink
