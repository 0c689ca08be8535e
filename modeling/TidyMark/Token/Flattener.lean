import TidyMark.Token.Stream

/-!
# Taking a document apart in one walk

The walk over the blocks of a document writes tokens one behind another. It counts the constructs
that are open, and it keeps the definitions of footnotes that it meets: their tokens come behind
those of all other blocks.
-/

namespace TidyMark

open Markdown

/-- The blocks of a document, its footnotes as definitions behind all others. -/
def Markdown.Document.blocks (d : Document) : List (Block (List Inline)) :=
  d.body ++ d.notes.map fun note => .footnote note.name note.body

namespace Token

/-! ### Inline content -/

/-- Puts a text behind tokens; it joins a text that they end in. -/
def pushText (out : List Token) (t : Text) : List Token :=
  match out.getLast? with
  | some last =>
    if last.kind == .leaf .text then out.dropLast ++ [{ last with content := last.content ++ t }]
    else out ++ [{ content := t }]
  | none => out ++ [{ content := t }]

mutual

/-- Puts the tokens of inline content behind others. -/
def pushInline (out : List Token) : Inline → List Token
  | .text t => pushText out t
  | .softBreak => out ++ [ofKind (.leaf .softBreak)]
  | .lineBreak => out ++ [ofKind (.leaf .hardBreak)]
  | .code t => out ++ [{ kind := .leaf .code, content := t }]
  | .html t => out ++ [{ kind := .leaf .htmlTag, content := t }]
  | .emphasis xs =>
    pushInlines (out ++ [ofKind (.opening .emphasis)]) xs ++ [ofKind (.closing .emphasis)]
  | .strong xs => pushInlines (out ++ [ofKind (.opening .strong)]) xs ++ [ofKind (.closing .strong)]
  | .strikethrough xs =>
    pushInlines (out ++ [ofKind (.opening .deleted)]) xs ++ [ofKind (.closing .deleted)]
  | .superscript xs => out ++ [{ kind := .leaf .sup, content := plainInlines xs }]
  | .link url title xs =>
    pushInlines (out ++ [{ kind := .opening .link, href := url, title }]) xs ++
      [ofKind (.closing .link)]
  | .image url title xs =>
    out ++ [{ kind := .leaf .image, src := url, title, alt := plainInlines xs }]
  | .footnoteRef _ index nth =>
    out ++ [{ kind := .leaf .footnoteRef, id := index - 1, subId := nth - 1 }]

def pushInlines (out : List Token) : List Inline → List Token
  | [] => out
  | x :: rest => pushInlines (pushInline out x) rest

end

/-! ### Blocks -/

/-- The state of a walk: the tokens so far, the number of open constructs, and the footnotes whose
definitions have been met. -/
structure Flattener where
  tokens : List Token := []
  depth : Nat := 0
  footnotes : List (Text × List (Block (List Inline))) := []

namespace Flattener

def opens (f : Flattener) (c : Construct) (t : Token) : Flattener :=
  { f with
    tokens := f.tokens ++ [{ t with kind := .opening c, level := some f.depth }]
    depth := f.depth + 1 }

def closes (f : Flattener) (c : Construct) (t : Token) : Flattener :=
  { f with
    tokens := f.tokens ++ [{ t with kind := .closing c, level := some (f.depth - 1) }]
    depth := f.depth - 1 }

def leaf (f : Flattener) (t : Token) : Flattener :=
  { f with tokens := f.tokens ++ [leafAt f.depth t] }

def inlines (f : Flattener) (xs : List Inline) : Flattener :=
  f.leaf (inline (pushInlines [] xs))

def paragraph (f : Flattener) (tight : Bool) (xs : List Inline) : Flattener :=
  ((f.opens .paragraph { tight }).inlines xs).closes .paragraph { tight }

def cell (f : Flattener) (c : Construct) (align : Option Align) (xs : List Inline) : Flattener :=
  ((f.opens c { align }).inlines xs).closes c {}

def row (f : Flattener) (c : Construct) (aligns : List (Option Align))
    (cells : List (List Inline)) : Flattener :=
  (cells.zipIdx.foldl (fun f (xs, i) => f.cell c (aligns[i]?.join) xs)
    (f.opens .tableRow {})).closes .tableRow {}

/-- The rows of a table, with whether each is its header. The body is opened at the first row that
is not; `inBody` tells whether it has been. -/
def rows (f : Flattener) (aligns : List (Option Align)) (inBody : Bool) :
    List (Bool × List (List Inline)) → Flattener × Bool
  | [] => (f, inBody)
  | (true, cells) :: rest =>
    (((f.opens .tableHead {}).row .headerCell aligns cells).closes .tableHead {}).rows aligns inBody
      rest
  | (false, cells) :: rest =>
    let f := if inBody then f else f.opens .tableBody {}
    (f.row .dataCell aligns cells).rows aligns true rest

def closeBody : Flattener × Bool → Flattener
  | (f, true) => f.closes .tableBody {}
  | (f, false) => f

def table (f : Flattener) (aligns : List (Option Align))
    (rows : List (Bool × List (List Inline))) : Flattener :=
  (closeBody ((f.opens .table {}).rows aligns false rows)).closes .table {}

mutual

/-- Walks over a block; `tight` tells how its paragraphs stand. -/
def block (f : Flattener) (tight : Bool) : Block (List Inline) → Flattener
  | .paragraph xs => f.paragraph tight xs
  | .heading level xs =>
    ((f.opens .heading { headingLevel := level }).inlines xs).closes .heading
      { headingLevel := level }
  | .quote body => (blocks (f.opens .blockquote {}) false body).closes .blockquote {}
  | .list kind tight content =>
    (items (f.opens (listConstruct kind) {}) tight content).closes (listConstruct kind) {}
  | .fence info literal => f.leaf { kind := .leaf .fence, params := info, content := literal }
  | .indented literal => f.leaf { kind := .leaf .code, content := literal, block := true }
  | .html literal => f.leaf { kind := .leaf .htmlBlock, content := literal }
  | .rule => f.leaf (ofKind (.leaf .rule))
  | .table aligns header rows => f.table aligns ((true, header) :: rows.map (false, ·))
  | .footnote name body => { f with footnotes := f.footnotes ++ [(name, body)] }
  | .descriptions content =>
    (descriptions (f.opens .descriptionList {}) content).closes .descriptionList {}

def blocks (f : Flattener) (tight : Bool) : List (Block (List Inline)) → Flattener
  | [] => f
  | b :: rest => blocks (block f tight b) tight rest

def items (f : Flattener) (tight : Bool) : List (Item (List Inline)) → Flattener
  | [] => f
  | .mk body :: rest =>
    items ((blocks (f.opens .listItem {}) tight body).closes .listItem {}) tight rest

def descriptions (f : Flattener) : List (Description (List Inline)) → Flattener
  | [] => f
  | .mk _ term details :: rest =>
    let f :=
      match term with
      | some xs => ((f.opens .descriptionTerm {}).paragraph true xs).closes .descriptionTerm {}
      | none => f
    descriptions
      ((blocks (f.opens .descriptionDetails {}) true details).closes .descriptionDetails {}) rest

end

/-! ### Footnotes -/

/-- Puts an anchor into the last `inline` token from the place `start` on, or behind all tokens. -/
def anchor (f : Flattener) (start id : Nat) : Flattener :=
  let t : Token := { kind := .leaf .footnoteAnchor, id }
  match anchorFirst? t (f.tokens.drop start).reverse with
  | some reversed => { f with tokens := f.tokens.take start ++ reversed.reverse }
  | none => f.leaf t

def note (f : Flattener) (id : Nat) (body : List (Block (List Inline))) : Flattener :=
  let f := f.opens .footnote { id }
  ((f.blocks true body).anchor f.tokens.length id).closes .footnote { id }

/-- The footnotes that have been met. Those that are met in them are not looked at. -/
def notes (f : Flattener) : Flattener :=
  let definitions := f.footnotes
  let f := { f with footnotes := [] }
  if definitions.isEmpty then f
  else
    (definitions.zipIdx.foldl (fun f ((_, body), id) => f.note id body)
      (f.opens .footnoteBlock {})).closes .footnoteBlock {}

end Flattener

/-- The tokens of a tree of blocks. -/
def flatten (blocks : List (Block (List Inline))) : List Token :=
  (Flattener.blocks {} false blocks).notes.tokens

end Token

end TidyMark
