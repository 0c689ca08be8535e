import TidyMark.Text.Blank

/-!
# Places in a line

Indentation is counted in columns, and a tab goes to the next column that is a multiple of four. A
cursor keeps what is left of a line together with its column, and it may stand inside a tab.
-/

namespace TidyMark.Markdown

/-- A place in a line. -/
structure Cursor where
  rest : Text
  column : Nat := 0
  /-- Whether a part of the tab that `rest` begins with has been passed. -/
  midTab : Bool := false

/-- The distance from a column to the next stop of a tab. -/
def tabWidth (column : Nat) : Nat :=
  4 - column % 4

/-- The column after the white space at the start of a text. -/
def columnAfterIndent (column : Nat) : Text → Nat
  | ' ' :: rest => columnAfterIndent (column + 1) rest
  | '\t' :: rest => columnAfterIndent (column + tabWidth column) rest
  | _ => column

namespace Cursor

/-- How many columns of white space follow. -/
def indent (c : Cursor) : Nat :=
  columnAfterIndent c.column c.rest - c.column

def content (c : Cursor) : Text :=
  c.rest.dropWhile isIndent

/-- How many characters of white space follow. -/
def indentLength (c : Cursor) : Nat :=
  (c.rest.takeWhile isIndent).length

def isBlank (c : Cursor) : Bool :=
  c.content.isEmpty

/-- Passes `n` characters that stand at `column`. -/
def skipFrom (n column : Nat) (midTab : Bool) : Text → Cursor
  | [] => ⟨[], column, midTab⟩
  | c :: rest =>
    match n with
    | 0 => ⟨c :: rest, column, midTab⟩
    | n + 1 => skipFrom n (column + if c == '\t' then tabWidth column else 1) false rest

def skip (c : Cursor) (n : Nat) : Cursor :=
  skipFrom n c.column c.midTab c.rest

/-- Passes `n` columns of a text that stands at `column`. -/
def skipColumnsFrom (n column : Nat) (midTab : Bool) : Text → Cursor
  | [] => ⟨[], column, midTab⟩
  | c :: rest =>
    if n == 0 then ⟨c :: rest, column, midTab⟩
    else
      let width := if c == '\t' then tabWidth column else 1
      if n < width then ⟨c :: rest, column + n, true⟩
      else skipColumnsFrom (n - width) (column + width) false rest

def skipColumns (c : Cursor) (n : Nat) : Cursor :=
  skipColumnsFrom n c.column c.midTab c.rest

/-- Passes at most `n` columns of white space. -/
def skipIndent (c : Cursor) (n : Nat) : Cursor :=
  c.skipColumns (min n c.indent)

def skipBlank (c : Cursor) : Cursor :=
  c.skip c.indentLength

def skipAll (c : Cursor) : Cursor :=
  ⟨[], c.column, false⟩

/-- What is left of the line, a tab that has been passed in part as the spaces that are left of
it. -/
def text (c : Cursor) : Text :=
  if c.midTab then List.replicate (tabWidth c.column) ' ' ++ c.rest.tail else c.rest

end Cursor

/-- The lines of a source. A line ends with a line feed, a carriage return or both; the null
character is replaced. -/
def sourceLines (source : Text) : List Text :=
  go false source
where
  /-- `begun` tells whether a line has begun that the end of the text would end. -/
  go (begun : Bool) : Text → List Text
    | [] => if begun then [[]] else []
    | '\r' :: '\n' :: rest => [] :: go false rest
    | c :: rest =>
      if c == '\n' || c == '\r' then [] :: go false rest
      else
        let c := if c.toNat == 0 then Char.ofNat 0xFFFD else c
        match go true rest with
        | [] => [[c]]
        | line :: lines => (c :: line) :: lines

end TidyMark.Markdown
