import TidyMark.Markdown.Blocks
import TidyMark.Markdown.Footnotes
import TidyMark.Markdown.Inlines

/-!
# Reading documents

`Document.ofText` reads Markdown: CommonMark with tables, struck out text, superscripts, footnotes
and description lists. The lines of the source give the blocks and the definitions, then the inline
content of the blocks is read, and last the footnotes are numbered.
-/

namespace TidyMark.Markdown

variable {α β : Type}

mutual

/-- A block with other inline content. -/
def Block.map (f : α → β) : Block α → Block β
  | .paragraph a => .paragraph (f a)
  | .heading level a => .heading level (f a)
  | .quote body => .quote (mapBlocks f body)
  | .list kind tight items => .list kind tight (mapItems f items)
  | .fence info literal => .fence info literal
  | .indented literal => .indented literal
  | .html literal => .html literal
  | .rule => .rule
  | .table aligns header rows => .table aligns (header.map f) (rows.map (·.map f))
  | .footnote name body => .footnote name (mapBlocks f body)
  | .descriptions items => .descriptions (mapDescriptions f items)

def mapBlocks (f : α → β) : List (Block α) → List (Block β)
  | [] => []
  | b :: rest => b.map f :: mapBlocks f rest

def mapItems (f : α → β) : List (Item α) → List (Item β)
  | [] => []
  | .mk body :: rest => .mk (mapBlocks f body) :: mapItems f rest

def mapDescriptions (f : α → β) : List (Description α) → List (Description β)
  | [] => []
  | .mk tight term details :: rest =>
    .mk tight (term.map f) (mapBlocks f details) :: mapDescriptions f rest

end

def Document.ofText (source : Text) : Document :=
  let (blocks, defs) := readBlocks source
  .ofBlocks (mapBlocks (Inline.ofText defs) blocks)

end TidyMark.Markdown
