import TidyMark.Markdown.Plain

/-!
# The token stream of a document

A document becomes a flat sequence of tokens. An opening and a closing token carry the number of
constructs that are open around them, and a leaf the number of those that are open at it. Footnotes
stand in one block at the end, each with an anchor that leads back to its first reference.
-/

namespace TidyMark

open Markdown

namespace Token

/-! ### Inline content -/

def ofKind (kind : Kind) : Token :=
  { kind }

/-- Puts a text before tokens; two texts in a row are one token. -/
def consText (t : Text) : List Token → List Token
  | next :: rest =>
    if next.kind == .leaf .text then { next with content := t ++ next.content } :: rest
    else { content := t } :: next :: rest
  | [] => [{ content := t }]

mutual

/-- The tokens of inline content, before those that follow it. -/
def ofInline (after : List Token) : Inline → List Token
  | .text t => consText t after
  | .softBreak => ofKind (.leaf .softBreak) :: after
  | .lineBreak => ofKind (.leaf .hardBreak) :: after
  | .code t => { kind := .leaf .code, content := t } :: after
  | .html t => { kind := .leaf .htmlTag, content := t } :: after
  | .emphasis xs =>
    ofKind (.opening .emphasis) :: ofInlines (ofKind (.closing .emphasis) :: after) xs
  | .strong xs => ofKind (.opening .strong) :: ofInlines (ofKind (.closing .strong) :: after) xs
  | .strikethrough xs =>
    ofKind (.opening .deleted) :: ofInlines (ofKind (.closing .deleted) :: after) xs
  | .superscript xs => { kind := .leaf .sup, content := plainInlines xs } :: after
  | .link url title xs =>
    { kind := .opening .link, href := url, title } ::
      ofInlines (ofKind (.closing .link) :: after) xs
  | .image url title xs =>
    { kind := .leaf .image, src := url, title, alt := plainInlines xs } :: after
  | .footnoteRef _ index nth =>
    { kind := .leaf .footnoteRef, id := index - 1, subId := nth - 1 } :: after

def ofInlines (after : List Token) : List Inline → List Token
  | [] => after
  | x :: rest => ofInline (ofInlines after rest) x

end

/-! ### Blocks -/

def leafAt (depth : Nat) (t : Token) : Token :=
  { t with level := some depth }

/-- Tokens inside an opening and a closing token, which stand inside `depth` constructs and have
the attributes of `t`. -/
def enclose (depth : Nat) (c : Construct) (t : Token) (inside : List Token) : List Token :=
  { t with kind := .opening c, level := some depth } ::
    (inside ++ [{ t with kind := .closing c, level := some depth }])

def inlineAt (depth : Nat) (xs : List Inline) : List Token :=
  [leafAt depth (inline (ofInlines [] xs))]

def paragraphAt (depth : Nat) (tight : Bool) (xs : List Inline) : List Token :=
  enclose depth .paragraph { tight } (inlineAt (depth + 1) xs)

/-- A cell of a table. Only the opening token says how it is aligned. -/
def cellAt (depth : Nat) (c : Construct) (align : Option Align) (xs : List Inline) : List Token :=
  { kind := .opening c, level := some depth, align } ::
    (inlineAt (depth + 1) xs ++ [{ kind := .closing c, level := some depth }])

def rowAt (depth : Nat) (cell : Construct) (aligns : List (Option Align))
    (row : List (List Inline)) : List Token :=
  enclose depth .tableRow {} <|
    (row.zipIdx.flatMap fun (xs, i) => cellAt (depth + 1) cell (aligns[i]?.join) xs)

/-- The content of a table: its header and, if there are any rows, its body. -/
def tableAt (depth : Nat) (aligns : List (Option Align)) (header : List (List Inline))
    (rows : List (List (List Inline))) : List Token :=
  enclose depth .table {} <|
    enclose (depth + 1) .tableHead {} (rowAt (depth + 2) .headerCell aligns header) ++
      if rows.isEmpty then []
      else enclose (depth + 1) .tableBody {} (rows.flatMap (rowAt (depth + 2) .dataCell aligns))

def listConstruct : ListKind → Construct
  | .bullet => .bulletList
  | .ordered _ => .orderedList

mutual

/-- The tokens of a block inside `depth` constructs; `tight` tells how its paragraphs stand. The
definition of a footnote has none. -/
def ofBlock (depth : Nat) (tight : Bool) : Block (List Inline) → List Token
  | .paragraph xs => paragraphAt depth tight xs
  | .heading level xs => enclose depth .heading { headingLevel := level } (inlineAt (depth + 1) xs)
  | .quote body => enclose depth .blockquote {} (ofBlocks (depth + 1) false body)
  | .list kind tight items =>
    enclose depth (listConstruct kind) {} (ofItems (depth + 1) tight items)
  | .fence info literal =>
    [leafAt depth { kind := .leaf .fence, params := info, content := literal }]
  | .indented literal => [leafAt depth { kind := .leaf .code, content := literal, block := true }]
  | .html literal => [leafAt depth { kind := .leaf .htmlBlock, content := literal }]
  | .rule => [leafAt depth (ofKind (.leaf .rule))]
  | .table aligns header rows => tableAt depth aligns header rows
  | .footnote _ _ => []
  | .descriptions items => enclose depth .descriptionList {} (ofDescriptions (depth + 1) items)

def ofBlocks (depth : Nat) (tight : Bool) : List (Block (List Inline)) → List Token
  | [] => []
  | b :: rest => ofBlock depth tight b ++ ofBlocks depth tight rest

def ofItems (depth : Nat) (tight : Bool) : List (Item (List Inline)) → List Token
  | [] => []
  | .mk body :: rest =>
    enclose depth .listItem {} (ofBlocks (depth + 1) tight body) ++ ofItems depth tight rest

def ofDescriptions (depth : Nat) : List (Description (List Inline)) → List Token
  | [] => []
  | .mk _ term details :: rest =>
    (match term with
      | some xs => enclose depth .descriptionTerm {} (paragraphAt (depth + 1) true xs)
      | none => []) ++
    enclose depth .descriptionDetails {} (ofBlocks (depth + 1) true details) ++
    ofDescriptions depth rest

end

theorem ofBlocks_append (depth : Nat) (tight : Bool) (bs bs' : List (Block (List Inline))) :
    ofBlocks depth tight (bs ++ bs') = ofBlocks depth tight bs ++ ofBlocks depth tight bs' := by
  induction bs with
  | nil => simp [ofBlocks]
  | cons b bs ih => simp [ofBlocks, ih]

/-! ### Footnotes -/

/-- Adds an anchor as the last child of the first `inline` token. -/
def anchorFirst? (anchor : Token) : List Token → Option (List Token)
  | [] => none
  | t :: rest =>
    if t.kind == .leaf .inline then some ({ t with children := t.children ++ [anchor] } :: rest)
    else (anchorFirst? anchor rest).map (t :: ·)

/-- Puts the anchor of a footnote into its last `inline` token, or behind its tokens. -/
def withAnchor (depth id : Nat) (body : List Token) : List Token :=
  let anchor : Token := { kind := .leaf .footnoteAnchor, id }
  match anchorFirst? anchor body.reverse with
  | some reversed => reversed.reverse
  | none => body ++ [leafAt depth anchor]

/-- A footnote with its place among the footnotes. -/
def ofNote (depth : Nat) (note : Note) (id : Nat) : List Token :=
  enclose depth .footnote { id } (withAnchor (depth + 1) id (ofBlocks (depth + 1) true note.body))

def ofNotes (notes : List Note) : List Token :=
  if notes.isEmpty then []
  else enclose 0 .footnoteBlock {} (notes.zipIdx.flatMap fun (note, id) => ofNote 1 note id)

def ofDocument (d : Document) : List Token :=
  ofBlocks 0 false d.body ++ ofNotes d.notes

end Token

end TidyMark
