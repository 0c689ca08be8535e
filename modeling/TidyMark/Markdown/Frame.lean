import TidyMark.Markdown.Document
import TidyMark.Markdown.HtmlBlock
import TidyMark.Markdown.LineStart
import TidyMark.Markdown.TableRow
import TidyMark.Markdown.Target

/-!
# Open blocks

While lines are read, the blocks that are still open form a stack of frames, each with its closed
children. Closing a frame turns it into a child of the frame around it.

Whether a list is tight depends on where blank lines stood, so a frame and a closed child remember
whether a blank line came last.
-/

namespace TidyMark.Markdown

/-- What an open block is. -/
inductive Frame.Kind where
  | document
  | quote
  /-- A list with the marker of its first item. `tight` is set when it has been decided early. -/
  | list (marker : ListMarker) (tight : Option Bool)
  /-- An item whose content begins `width` columns into a line, and the line it began on. -/
  | item (width line : Nat)
  | footnote (name : Text)
  | descriptions
  /-- Details with their term. The lines of the details begin `width` columns into a line. -/
  | description (width : Nat) (tight : Bool) (term : Option Text)
  /-- A paragraph; `tableTried` tells whether a row of dashes has failed to make it a table. -/
  | paragraph (tableTried : Bool)
  | heading (level : Nat)
  | rule
  /-- A fenced code block whose fence was indented by `offset` characters. -/
  | fence (mark : Char) (length offset : Nat)
  | indented
  | html (kind : HtmlBlock)
  /-- A table; its rows are given in reverse. -/
  | table (aligns : List (Option Align)) (header : List Text) (rows : List (List Text))

/-- What becomes of an open block. -/
inductive Part where
  | block (b : Block Text)
  | item (i : Item Text)
  | description (d : Description Text)

structure Closed where
  part : Part
  /-- Whether a blank line came after it, or at its end. -/
  blank : Bool := false
  /-- For a list or an item: whether a blank line ends its last child. -/
  innerBlank : Bool := false
  /-- For an item: whether a blank line ends a child that is not the last one. -/
  gap : Bool := false

def Closed.endsBlank (c : Closed) : Bool :=
  c.blank || c.innerBlank

/-- An open block with its text and its closed children, the last one first. -/
structure Frame where
  kind : Frame.Kind
  text : Text := []
  done : List Closed := []
  blank : Bool := false

/-- The blocks among closed children, which are given in reverse. -/
def blocksOf (done : List Closed) : List (Block Text) :=
  done.reverse.filterMap fun c =>
    match c.part with
    | .block b => some b
    | _ => none

def itemsOf (done : List Closed) : List (Item Text) :=
  done.reverse.filterMap fun c =>
    match c.part with
    | .item i => some i
    | _ => none

def descriptionsOf (done : List Closed) : List (Description Text) :=
  done.reverse.filterMap fun c =>
    match c.part with
    | .description d => some d
    | _ => none

/-- Whether no blank line separates the items of a list, which are given in reverse, or the blocks
in one of them. -/
def isTight : List Closed → Bool
  | [] => true
  | last :: before => !last.gap && before.all fun item => !item.gap && !item.endsBlank

def ListMarker.kind : ListMarker → ListKind
  | .bullet _ => .bullet
  | .ordinal start _ => .ordered start

/-- The text of indented code: without the blank lines at its end. -/
def trimCode (t : Text) : Text :=
  let lines := ((Text.pieces t).reverse.dropWhile (·.all fun c => isIndent c || c == '\n')).reverse
  Text.dropEndWhile (· == '\n') lines.flatten ++ ['\n']

/-- The first line of a fenced code block, which tells about it, and the lines after it. -/
def splitInfo (t : Text) : Text × Text :=
  (unescape (Text.trimSpace (decodeEntities 0 (t.takeWhile (· != '\n')))),
    (t.dropWhile (· != '\n')).tail)

def startsBlank (t : Text) : Bool :=
  (t.takeWhile (· != '\n')).all isIndent

/-- Turns a frame into a closed block. A paragraph gives up the definitions that it begins with,
unless `keepDefinitions`, and a paragraph of nothing else vanishes. -/
def Frame.close (keepDefinitions : Bool) (defs : Definitions) (f : Frame) :
    Option Closed × Definitions :=
  let block (b : Block Text) : Option Closed × Definitions :=
    (some { part := .block b, blank := f.blank }, defs)
  match f.kind with
  | .document => (none, defs)
  | .quote => block (.quote (blocksOf f.done))
  | .list marker tight =>
    (some
      { part := .block (.list marker.kind (tight.getD (isTight f.done)) (itemsOf f.done))
        blank := f.blank
        innerBlank := f.done.head?.any Closed.endsBlank },
      defs)
  | .item _ _ =>
    (some
      { part := .item (.mk (blocksOf f.done))
        blank := f.blank
        innerBlank := f.done.head?.any Closed.endsBlank
        gap := f.done.tail.any Closed.endsBlank },
      defs)
  | .footnote name => block (.footnote name (blocksOf f.done))
  | .descriptions => block (.descriptions (descriptionsOf f.done))
  | .description _ tight term =>
    (some
      { part := .description (.mk tight term (blocksOf f.done))
        blank := f.blank },
      defs)
  | .paragraph _ =>
    if keepDefinitions then block (.paragraph f.text)
    else
      let (defs, rest) := defs.readAll f.text.length f.text
      if startsBlank rest then (none, defs)
      else (some { part := .block (.paragraph rest), blank := f.blank }, defs)
  | .heading level => block (.heading level f.text)
  | .rule => block .rule
  | .fence _ _ _ =>
    let (info, literal) := splitInfo f.text
    block (.fence info literal)
  | .indented => block (.indented (trimCode f.text))
  | .html _ => block (.html f.text)
  | .table aligns header rows => block (.table aligns header rows.reverse)

def Frame.add (f : Frame) (c : Option Closed) : Frame :=
  match c with
  | some c => { f with done := c :: f.done }
  | none => f

/-- Closes frames, the outermost first, into one child. -/
def closeFrames (keepDefinitions : Bool) (defs : Definitions) :
    List Frame → Option Closed × Definitions
  | [] => (none, defs)
  | f :: inner =>
    let (child, defs) := closeFrames keepDefinitions defs inner
    (f.add child).close keepDefinitions defs

/-- Whether a block can stand directly in another one. -/
def Frame.Kind.canHold (parent child : Frame.Kind) : Bool :=
  match child with
  | .item _ _ => (parent matches .list _ _)
  | .description _ _ _ => (parent matches .descriptions)
  | .document => false
  | _ =>
    match parent with
    | .document | .quote | .item _ _ | .footnote _ | .description _ _ _ => true
    | _ => false

end TidyMark.Markdown
