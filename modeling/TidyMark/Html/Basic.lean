import TidyMark.Html.Block

/-!
# Documents as HTML

`ofDocument` writes the blocks of a document and then its footnotes.
-/

namespace TidyMark.Html

open Markdown

def ofNotes (options : Options) (number : Nat) : List Note → List Piece
  | [] => []
  | note :: rest =>
    let back := backrefs note.name number note.references
    noteItem note.name (ofBlocks options false (paragraphBack back note.body) note.body)
        (blockBack back note.body) ++
      ofNotes options (number + 1 + notesIn note.body) rest

/-- The list of the footnotes, if there are any. -/
def noteSection (options : Options) (notes : List Note) : List Piece :=
  if notes.isEmpty then []
  else
    [.verbatim "<section class=\"footnotes\" data-footnotes>\n<ol>\n"] ++ ofNotes options 1 notes ++
      [.verbatim "</ol>\n</section>\n"]

def ofDocument (options : Options) (d : Document) : Text :=
  assemble true (ofBlocks options false [] d.body ++ noteSection options d.notes)

end TidyMark.Html
