import TidyMark.Token.Basic

/-!
# Documents

A document is a tree of blocks. The blocks that hold inline content are given over the type of that
content: the text as it was written while the lines are read, the parsed content afterwards.
-/

namespace TidyMark.Markdown

inductive Inline where
  | text (t : Text)
  | softBreak
  | lineBreak
  | code (t : Text)
  | html (t : Text)
  | emphasis (content : List Inline)
  | strong (content : List Inline)
  | strikethrough (content : List Inline)
  | superscript (content : List Inline)
  | link (url title : Text) (content : List Inline)
  | image (url title : Text) (content : List Inline)
  /-- A reference to a footnote: the place of the footnote and that of the reference among those
  to the same footnote, both from one. -/
  | footnoteRef (name : Text) (index nth : Nat)
deriving Inhabited

inductive ListKind where
  | bullet
  | ordered (start : Nat)
deriving DecidableEq

mutual

/-- A block whose inline content is of type `α`. -/
inductive Block (α : Type) where
  | paragraph (content : α)
  | heading (level : Nat) (content : α)
  | quote (body : List (Block α))
  | list (kind : ListKind) (tight : Bool) (items : List (Item α))
  /-- A fenced code block with the information after its fence. -/
  | fence (info literal : Text)
  | indented (literal : Text)
  | html (literal : Text)
  | rule
  | table (aligns : List (Option Align)) (header : List α) (rows : List (List α))
  | footnote (name : Text) (body : List (Block α))
  | descriptions (items : List (Description α))

inductive Item (α : Type) where
  | mk (body : List (Block α))

/-- Details, and the term that they describe unless it is that of the details before. Tight
details follow their term directly. -/
inductive Description (α : Type) where
  | mk (tight : Bool) (term : Option α) (details : List (Block α))

end

/-- A footnote that is referred to. -/
structure Note where
  name : Text
  /-- How many references there are. -/
  references : Nat
  body : List (Block (List Inline))

/-- A document: its blocks and the footnotes in the order in which they are referred to. -/
structure Document where
  body : List (Block (List Inline))
  notes : List Note

end TidyMark.Markdown
