import TidyMark.Markdown.Document
import TidyMark.Markdown.Target

/-!
# Numbering footnotes

Footnotes are numbered in the order in which they are first referred to, wherever they are defined.
A reference without a definition is text. Of several definitions of one name the last one counts,
and the definitions inside a footnote are none.
-/

namespace TidyMark.Markdown

/-- A footnote that is defined, with what is known of its references so far. -/
structure Definition where
  key : Text
  name : Text
  body : List (Block (List Inline))
  /-- Its place among the footnotes that are referred to, from one. -/
  index : Option Nat := none
  references : Nat := 0

/-- The footnotes of a document and how many of them have been referred to. -/
structure Numbering where
  defined : List Definition
  used : Nat := 0

namespace Numbering

/-- Refers to a footnote: its name and place and the place of the reference, if it is defined. -/
def refer (n : Numbering) (name : Text) : Option (Text × Nat × Nat) × Numbering :=
  let key := labelKey name
  match n.defined.find? (·.key == key) with
  | none => (none, n)
  | some d =>
    let index := d.index.getD (n.used + 1)
    let nth := d.references + 1
    let d := { d with index := some index, references := nth }
    (some (d.name, index, nth),
      { defined := n.defined.map fun e => if e.key == key then d else e
        used := max n.used index })

end Numbering

/-- Refers to a footnote in the place of a reference, which is text if there is no footnote. -/
def numberReference (n : Numbering) (name : Text) : Inline × Numbering :=
  match n.refer name with
  | (some (name, index, nth), n) => (.footnoteRef name index nth, n)
  | (none, n) => (.text ("[^" ++ name ++ "]"), n)

mutual

def Inline.number (n : Numbering) : Inline → Inline × Numbering
  | .footnoteRef name _ _ => numberReference n name
  | .emphasis xs => let (xs, n) := numberInlines n xs; (.emphasis xs, n)
  | .strong xs => let (xs, n) := numberInlines n xs; (.strong xs, n)
  | .strikethrough xs => let (xs, n) := numberInlines n xs; (.strikethrough xs, n)
  | .superscript xs => let (xs, n) := numberInlines n xs; (.superscript xs, n)
  | .link url title xs => let (xs, n) := numberInlines n xs; (.link url title xs, n)
  | .image url title xs => let (xs, n) := numberInlines n xs; (.image url title xs, n)
  | .text t => (.text t, n)
  | .softBreak => (.softBreak, n)
  | .lineBreak => (.lineBreak, n)
  | .code t => (.code t, n)
  | .html t => (.html t, n)

def numberInlines (n : Numbering) : List Inline → List Inline × Numbering
  | [] => ([], n)
  | x :: rest =>
    let (x, n) := x.number n
    let (rest, n) := numberInlines n rest
    (x :: rest, n)

end

/-- Does something to each element of a list that may refer to footnotes. -/
def numberEach {α : Type} (f : Numbering → α → α × Numbering) (n : Numbering) :
    List α → List α × Numbering
  | [] => ([], n)
  | x :: rest =>
    let (x, n) := f n x
    let (rest, n) := numberEach f n rest
    (x :: rest, n)

mutual

/-- Numbers the references in a block. The body of a footnote is numbered in its place, and the
numbered body is kept for when the footnote is put at the end. -/
def Block.number (n : Numbering) : Block (List Inline) → Block (List Inline) × Numbering
  | .paragraph xs => let (xs, n) := numberInlines n xs; (.paragraph xs, n)
  | .heading level xs => let (xs, n) := numberInlines n xs; (.heading level xs, n)
  | .quote body => let (body, n) := numberBlocks n body; (.quote body, n)
  | .list kind tight items => let (items, n) := numberItems n items; (.list kind tight items, n)
  | .fence info literal => (.fence info literal, n)
  | .indented literal => (.indented literal, n)
  | .html literal => (.html literal, n)
  | .rule => (.rule, n)
  | .table aligns header rows =>
    let (header, n) := numberEach numberInlines n header
    let (rows, n) := numberEach (numberEach numberInlines) n rows
    (.table aligns header rows, n)
  | .footnote name body => let (body, n) := numberBlocks n body; (.footnote name body, n)
  | .descriptions items => let (items, n) := numberDescriptions n items; (.descriptions items, n)

def numberBlocks (n : Numbering) :
    List (Block (List Inline)) → List (Block (List Inline)) × Numbering
  | [] => ([], n)
  | b :: rest =>
    let (b, n) := b.number n
    let (rest, n) := numberBlocks n rest
    (b :: rest, n)

def numberItems (n : Numbering) :
    List (Item (List Inline)) → List (Item (List Inline)) × Numbering
  | [] => ([], n)
  | .mk body :: rest =>
    let (body, n) := numberBlocks n body
    let (rest, n) := numberItems n rest
    (.mk body :: rest, n)

def numberDescriptions (n : Numbering) :
    List (Description (List Inline)) → List (Description (List Inline)) × Numbering
  | [] => ([], n)
  | .mk tight term details :: rest =>
    let (term, n) :=
      match term with
      | some xs => let (xs, n) := numberInlines n xs; (some xs, n)
      | none => (none, n)
    let (details, n) := numberBlocks n details
    let (rest, n) := numberDescriptions n rest
    (.mk tight term details :: rest, n)

end

mutual

/-- The footnotes that are defined in a block, but not inside another one. -/
def Block.footnotes {α : Type} : Block α → List (Text × List (Block α))
  | .footnote name body => [(name, body)]
  | .quote body => footnotesOf body
  | .list _ _ items => footnotesOfItems items
  | .descriptions items => footnotesOfDescriptions items
  | _ => []

def footnotesOf {α : Type} : List (Block α) → List (Text × List (Block α))
  | [] => []
  | b :: rest => b.footnotes ++ footnotesOf rest

def footnotesOfItems {α : Type} : List (Item α) → List (Text × List (Block α))
  | [] => []
  | .mk body :: rest => footnotesOf body ++ footnotesOfItems rest

def footnotesOfDescriptions {α : Type} : List (Description α) → List (Text × List (Block α))
  | [] => []
  | .mk _ _ details :: rest => footnotesOf details ++ footnotesOfDescriptions rest

end

mutual

/-- A block without the footnotes that are defined in it; none for the definition of a footnote. -/
def Block.withoutFootnotes? {α : Type} : Block α → Option (Block α)
  | .footnote _ _ => none
  | .quote body => some (.quote (withoutFootnotes body))
  | .list kind tight items => some (.list kind tight (itemsWithoutFootnotes items))
  | .descriptions items => some (.descriptions (detailsWithoutFootnotes items))
  | b => some b

def withoutFootnotes {α : Type} : List (Block α) → List (Block α)
  | [] => []
  | b :: rest =>
    match b.withoutFootnotes? with
    | some b => b :: withoutFootnotes rest
    | none => withoutFootnotes rest

def itemsWithoutFootnotes {α : Type} : List (Item α) → List (Item α)
  | [] => []
  | .mk body :: rest => .mk (withoutFootnotes body) :: itemsWithoutFootnotes rest

def detailsWithoutFootnotes {α : Type} : List (Description α) → List (Description α)
  | [] => []
  | .mk tight term details :: rest =>
    .mk tight term (withoutFootnotes details) :: detailsWithoutFootnotes rest

end

/-- Adds a definition, in the place of one of the same name. -/
def define (defined : List Definition) (d : Definition) : List Definition :=
  if defined.any (·.key == d.key) then
    defined.map fun e => if e.key == d.key then d else e
  else defined ++ [d]

/-- The definitions that footnotes make. -/
def definitionsOf (notes : List (Text × List (Block (List Inline)))) : List Definition :=
  notes.foldl (fun defined (name, body) =>
    define defined { key := labelKey name, name := tidyLabel name, body }) []

/-- The document that blocks make when their footnotes are numbered and put at its end. -/
def Document.ofBlocks (blocks : List (Block (List Inline))) : Document :=
  let names := definitionsOf (footnotesOf blocks)
  let (blocks, n) := numberBlocks ⟨names, 0⟩ blocks
  let bodies := definitionsOf (footnotesOf blocks)
  let notes := (List.range n.used).filterMap fun i =>
    (n.defined.find? (·.index == some (i + 1))).map fun d =>
      let body := (bodies.find? (·.key == d.key)).elim d.body (·.body)
      ⟨d.name, d.references, body⟩
  ⟨withoutFootnotes blocks, notes⟩

end TidyMark.Markdown
