import TidyMark.Text.Line

/-!
# Layout of quotes and list items

The rules write pieces of text from left to right. A quote and a list item open and close between
pieces, and what was written in between is prefixed or indented when they close. Where a frame
begins is kept as a number of bytes from the start; the frames of quotes and those of items are
closed independently of each other, so a frame may close after the text before its start has been
changed by another one.
-/

namespace TidyMark.Render

/-- What a piece does beside adding its text. -/
inductive Role where
  | plain
  /-- After its text a quote begins. -/
  | opensQuote
  /-- Before its text the innermost quote ends. -/
  | closesQuote
  /-- After its text an item begins, as wide as the text. -/
  | opensItem
  /-- Before its text the innermost item ends. -/
  | closesItem
deriving DecidableEq

/-- A piece of output. -/
structure Piece where
  role : Role
  text : Text
deriving DecidableEq

/-- An open list item: where it begins and how far its lines are indented, both in bytes. -/
structure ItemFrame where
  start : Nat
  width : Nat
deriving DecidableEq

/-- What has been written so far, and the frames that are open in it, the innermost first. -/
structure Canvas where
  out : Text := []
  items : List ItemFrame := []
  quotes : List Nat := []

/-- Writes one line in a quote. Of the lines that show nothing only the first in a row is
written. -/
def quoteLines (afterBlank : Bool) : List Text → List Text
  | [] => []
  | line :: rest =>
    if line.allBlank then if afterBlank then quoteLines true rest else ['>'] :: quoteLines true rest
    else ("> " ++ line) :: quoteLines false rest

/-- The content of a quote with a prefix on each line; blank lines at its ends are left out. -/
def quote (body : Text) : Text :=
  Text.join "\n" (quoteLines false (Text.lines (body.trimEnd.dropWhile (· == '\n'))))

/-- Indents every line but the first; lines that show nothing stay as they are. -/
def indentContinuations (width : Nat) (body : Text) : Text :=
  match body.splitLines with
  | [] => []
  | first :: rest => first ++ rest.flatMap (indentLine width)
where
  indentLine (width : Nat) (line : Text) : Text :=
    '\n' :: (if line.allBlank then line else List.replicate width ' ' ++ line)

namespace Canvas

def write (canvas : Canvas) (t : Text) : Canvas :=
  { canvas with out := canvas.out ++ t }

/-- Changes everything from `start` on; fails where that is inside a character. -/
def changeFrom? (start : Nat) (f : Text → Text) (out : Text) : Option Text :=
  (out.splitAtByte? (min start out.byteLength)).map fun (before, body) => before ++ f body

def closeQuote? (canvas : Canvas) : Option Canvas :=
  match canvas.quotes with
  | [] => some canvas
  | start :: quotes =>
    (changeFrom? start quote canvas.out).map fun out => { canvas with out, quotes }

def closeItem? (canvas : Canvas) : Option Canvas :=
  match canvas.items with
  | [] => some canvas
  | ⟨start, width⟩ :: items =>
    (changeFrom? start (indentContinuations width) canvas.out).map fun out =>
      { canvas with out, items }

def add? (canvas : Canvas) (p : Piece) : Option Canvas :=
  match p.role with
  | .plain => some (canvas.write p.text)
  | .opensQuote =>
    let canvas := canvas.write p.text
    some { canvas with quotes := canvas.out.byteLength :: canvas.quotes }
  | .closesQuote => canvas.closeQuote?.map (·.write p.text)
  | .opensItem =>
    let canvas := canvas.write p.text
    some { canvas with items := ⟨canvas.out.byteLength, p.text.byteLength⟩ :: canvas.items }
  | .closesItem => canvas.closeItem?.map (·.write p.text)

def closeItems? : Nat → Canvas → Option Canvas
  | 0, canvas => some canvas
  | n + 1, canvas => canvas.closeItem?.bind (closeItems? n)

def closeQuotes? : Nat → Canvas → Option Canvas
  | 0, canvas => some canvas
  | n + 1, canvas => canvas.closeQuote?.bind (closeQuotes? n)

/-- Ends everything that is still open, first the items and then the quotes. -/
def finish? (canvas : Canvas) : Option Text :=
  ((closeItems? canvas.items.length canvas).bind fun canvas =>
    closeQuotes? canvas.quotes.length canvas).map (·.out)

end Canvas

def draw? (pieces : List Piece) : Option Canvas :=
  pieces.foldlM Canvas.add? {}

end TidyMark.Render
