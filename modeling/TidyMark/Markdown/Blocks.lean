import TidyMark.Markdown.Frame

/-!
# Blocks from lines

A source is read line by line. Each line first continues open blocks, from the outermost inwards,
as far as it can; then it opens new blocks; what is left of it goes into the innermost open block.
Blocks that a line does not continue are closed as soon as it opens a block or leaves text
elsewhere. A line of text after an open paragraph belongs to the paragraph even where it does not
continue the blocks around it.
-/

namespace TidyMark.Markdown

/-! ### Continuing open blocks -/

/-- What a line does to an open block. -/
inductive Continuation where
  /-- The line continues the block, and this is left of it. -/
  | continues (c : Cursor)
  | stops
  /-- The line closes the block and has nothing more in it. -/
  | closes

/-- Continues a block where the indentation suffices, or else on a blank line. -/
def continueIndented (width : Nat) (hasContent : Bool) (c : Cursor) : Continuation :=
  if width ≤ c.indent then .continues (c.skipColumns width)
  else if c.isBlank && hasContent then .continues c.skipBlank
  else .stops

/-- Passes the mark of a quote and one column of white space after it. -/
def skipQuoteMark (c : Cursor) : Cursor :=
  (c.skip (c.indentLength + 1)).skipIndent 1

/-- What a line does to an open block, where `hasContent` tells whether the block has any content
and `emptyLine` whether nothing at all is on the line. -/
def Frame.Kind.continuation (kind : Frame.Kind) (hasContent emptyLine : Bool) (c : Cursor) :
    Continuation :=
  match kind with
  | .document | .list _ _ | .descriptions | .rule => .continues c
  | .quote =>
    if c.indent ≤ 3 && c.content.head? == some '>' then .continues (skipQuoteMark c) else .stops
  | .item width _ => continueIndented width hasContent c
  | .description width _ _ => continueIndented width true c
  | .footnote _ =>
    if 4 ≤ c.indent then .continues (c.skipColumns 4)
    else if emptyLine then .continues c
    else .stops
  | .paragraph _ => if c.isBlank then .stops else .continues c
  | .heading _ => .stops
  | .fence mark length offset =>
    if c.indent ≤ 3 && closesFence mark length c.content then .closes
    else .continues (c.skipIndent offset)
  | .indented => continueIndented 4 true c
  | .html kind => if kind.endsAtBlank && c.isBlank then .stops else .continues c
  | .table _ _ _ => if (rowCells c.content).isEmpty then .stops else .continues c

/-- How far a line continues the open blocks. -/
structure Matched where
  /-- The blocks that the line continues, the innermost first. -/
  matched : List Frame
  /-- The blocks that it does not continue, the outermost first. -/
  left : List Frame
  cursor : Cursor
  /-- Whether the line closed the innermost block and is done with. -/
  closed : Bool := false

/-- Continues the open blocks `frames`, the outermost first, inside the blocks `matched`. -/
def continueFrames (emptyLine : Bool) (matched : List Frame) (c : Cursor) : List Frame → Matched
  | [] => ⟨matched, [], c, false⟩
  | f :: inner =>
    match f.kind.continuation (!f.done.isEmpty || !inner.isEmpty) emptyLine c with
    | .continues c => continueFrames emptyLine (f :: matched) c inner
    | .stops => ⟨matched, f :: inner, c, false⟩
    | .closes => ⟨f :: matched, inner, c, true⟩

/-! ### Opening new blocks -/

/-- The place in the stack of blocks where a line is: the blocks that it is in, and those that it
has not continued, which are closed when it opens a block. -/
structure Site where
  /-- The innermost block that the line is in. -/
  frame : Frame
  /-- The blocks around it, the innermost first. -/
  outer : List Frame
  /-- The blocks in it that are still open, the outermost first. -/
  left : List Frame
  defs : Definitions

namespace Site

/-- Closes the blocks that the line has not continued. -/
def settle (s : Site) : Site :=
  let (child, defs) := closeFrames false s.defs s.left
  { s with frame := s.frame.add child, left := [], defs }

/-- Decides whether a list is tight while the item that is open in it still has its definitions. -/
def decideTight (s : Site) : Site :=
  match s.frame.kind with
  | .list marker none =>
    let (child, _) := closeFrames true s.defs s.left
    { s with frame := { s.frame with kind := .list marker (some (isTight (s.frame.add child).done)) } }
  | _ => s

/-- Closes blocks that cannot hold `child`, from the innermost outwards. -/
def makeRoom (child : Frame.Kind) (frame : Frame) (defs : Definitions) : List Frame → Site
  | [] => ⟨frame, [], [], defs⟩
  | f :: outer =>
    if frame.kind.canHold child then ⟨frame, f :: outer, [], defs⟩
    else
      let (closed, defs) := frame.close false defs
      makeRoom child (f.add closed) defs outer

def push (s : Site) (kind : Frame.Kind) : Site :=
  let s := if s.frame.kind.canHold kind then s else s.decideTight
  let s := s.settle
  let s := makeRoom kind s.frame s.defs s.outer
  { s with frame := { kind }, outer := s.frame :: s.outer }

def pop (s : Site) : Site :=
  match s.outer with
  | [] => s
  | f :: outer =>
    let (closed, defs) := s.frame.close false s.defs
    { s with frame := f.add closed, outer, defs }

end Site

/-- A line on its way into new blocks. -/
structure Opening where
  site : Site
  cursor : Cursor

/-- What is known about a line while it opens blocks. -/
structure Situation where
  /-- The number of the line. -/
  line : Nat
  /-- Whether text on the line would continue a paragraph. -/
  maybeLazy : Bool
  /-- Whether the line has continued every open block. -/
  allMatched : Bool
  /-- How many blocks deep the line is, counted from those that it has opened itself. -/
  depth : Nat

/-- The most blocks that a line may open before it can no longer open lists. -/
def maxDepth : Nat := 100

def openQuote? (o : Opening) : Option Opening :=
  if o.cursor.content.head? == some '>' then some ⟨o.site.push .quote, skipQuoteMark o.cursor⟩
  else none

def openHeading? (o : Opening) : Option Opening :=
  (numberSigns? o.cursor.content).map fun (level, length) =>
    ⟨o.site.push (.heading level), o.cursor.skip (o.cursor.indentLength + length)⟩

def openFence? (o : Opening) : Option Opening :=
  (fence? o.cursor.content).map fun (mark, length) =>
    let offset := o.cursor.indentLength
    ⟨o.site.push (.fence mark length offset), o.cursor.skip (offset + length)⟩

def isParagraph (f : Frame) : Bool :=
  f.kind matches .paragraph _

def openHtml? (o : Opening) : Option Opening :=
  (HtmlBlock.ofLine? (isParagraph o.site.frame) o.cursor.content).map fun kind =>
    ⟨o.site.push (.html kind), o.cursor⟩

/-- Makes a heading of the paragraph that is open. A paragraph of definitions only takes the line
as its text. -/
def openUnderlined? (o : Opening) : Option Opening :=
  match o.site.frame.kind, underline? o.cursor.content with
  | .paragraph tried, some level =>
    let text := o.site.frame.text
    let (defs, rest) := o.site.defs.readAll text.length text
    if startsBlank rest then
      some { o with site := { o.site with
        frame := { o.site.frame with kind := .paragraph tried, text := rest }, defs } }
    else
      some ⟨{ o.site with frame := { o.site.frame with kind := .heading level, text := rest }, defs },
        o.cursor.skipAll⟩
  | _, _ => none

def openRule? (situation : Situation) (o : Opening) : Option Opening :=
  if isRule o.cursor.content && !(isParagraph o.site.frame && !situation.allMatched) then
    some ⟨o.site.push .rule, o.cursor.skipAll⟩
  else none

def openFootnote? (situation : Situation) (o : Opening) : Option Opening :=
  if situation.depth < maxDepth then
    (footnoteLabel? o.cursor.content).map fun (label, length) =>
      ⟨o.site.push (.footnote label), o.cursor.skip (o.cursor.indentLength + length)⟩
  else none

/-- Takes a paragraph out of the children of a block as the term of details, which go into the
list of descriptions before the paragraph or into a new one. -/
def describe (s : Site) (frame : Frame) (outer : List Frame) (term : Text) (width : Nat)
    (tight : Bool) : Site :=
  let details : Frame := { kind := .description width tight (some term) }
  match frame.done with
  | ⟨.block (.descriptions items), blank, _, _⟩ :: done =>
    let list : Frame :=
      { kind := .descriptions
        done := items.reverse.map fun d => { part := .description d }
        blank }
    { s with frame := details, outer := list :: { frame with done } :: outer }
  | _ => { s with frame := details, outer := { kind := .descriptions } :: frame :: outer }

/-- Begins details, for the paragraph before or for the term of the details before. -/
def openDetails? (o : Opening) : Option Opening := do
  let length ← detailsMarker? o.cursor.content
  let width := o.cursor.indent + length
  let cursor := o.cursor.skip (o.cursor.indentLength + length)
  let s := o.site
  match s.frame.kind, s.outer, s.left, s.frame.done with
  | .paragraph _, frame :: outer, _, _ =>
    return ⟨describe s frame outer s.frame.text width true, cursor⟩
  | .descriptions, _, { kind := .description _ tight _, .. } :: _, _ =>
    return ⟨s.push (.description width tight none), cursor⟩
  | .descriptions, _, [], ⟨.description (.mk tight _ _), _, _, _⟩ :: _ =>
    return ⟨s.push (.description width tight none), cursor⟩
  | _, _, [], ⟨.block (.paragraph text), _, _, _⟩ :: done =>
    return ⟨describe s { s.frame with done } s.outer text width false, cursor⟩
  | _, _, _, _ => none

/-- Passes the white space after the marker of an item. Returns its width in columns with the
place after it. Where the content would be code or the line ends, one column belongs to the
marker. -/
def skipAfterMarker (c : Cursor) : Nat × Cursor :=
  let width := c.indent
  if 1 ≤ width && width ≤ 4 && !c.isBlank then (width, c.skipColumns width)
  else (1, c.skipIndent 1)

def openItem? (situation : Situation) (o : Opening) : Option Opening :=
  if situation.depth < maxDepth then
    (listMarker? (isParagraph o.site.frame) o.cursor.content).map fun (marker, length) =>
      let indent := o.cursor.indent
      let (space, cursor) := skipAfterMarker (o.cursor.skip (o.cursor.indentLength + length))
      let continued :=
        match o.site.frame.kind with
        | .list first _ => first.matches marker
        | _ => false
      let site := if continued then o.site else o.site.push (.list marker none)
      ⟨site.push (.item (indent + length + space) situation.line), cursor⟩
  else none

def openIndented? (situation : Situation) (o : Opening) : Option Opening :=
  if 4 ≤ o.cursor.indent && !situation.maybeLazy && !o.cursor.isBlank then
    some ⟨o.site.push .indented, o.cursor.skipColumns 4⟩
  else none

/-- Begins a table with a row of dashes below a paragraph, or adds a row to the open table. -/
def openTable? (o : Opening) : Option Opening :=
  let line := o.cursor.content
  match o.site.frame.kind with
  | .paragraph false =>
    match TableStart.ofLine? o.site.frame.text line, o.site.outer with
    | some t, f :: outer =>
      let f := f.add (t.before.map fun text => { part := .block (.paragraph text) })
      some ⟨{ o.site with frame := { kind := .table t.aligns t.header [] }, outer := f :: outer },
        o.cursor.skipAll⟩
    | _, _ =>
      if (columnAligns? line).isSome then
        some { o with site := { o.site with
          frame := { o.site.frame with kind := .paragraph true } } }
      else none
  | .table aligns header rows =>
    if o.cursor.isBlank then none
    else
      let row := fitRow aligns.length (rowCells line)
      some ⟨{ o.site with frame := { o.site.frame with kind := .table aligns header (row :: rows) } },
        o.cursor.skipAll⟩
  | _ => none

/-- Opens the block that what is left of a line begins with. -/
def openBlock? (situation : Situation) (o : Opening) : Option Opening :=
  if o.cursor.indent < 4 then
    openQuote? o <|> openHeading? o <|> openFence? o <|> openHtml? o <|> openUnderlined? o <|>
      openRule? situation o <|> openFootnote? situation o <|> openDetails? o <|>
      openItem? situation o <|> openTable? o
  else openIndented? situation o

/-- Whether a block takes the rest of a line as it is. -/
def Frame.Kind.isVerbatim : Frame.Kind → Bool
  | .fence _ _ _ | .indented | .html _ => true
  | _ => false

/-- Whether a block consists of lines, so that no block can open in it. -/
def Frame.Kind.holdsLines : Frame.Kind → Bool
  | .paragraph _ | .heading _ | .fence _ _ _ | .indented => true
  | _ => false

/-- Opens blocks, at most `n` of them. -/
def openBlocks (situation : Situation) : Nat → Opening → Opening
  | 0, o => o
  | n + 1, o =>
    if o.site.frame.kind.isVerbatim then o
    else
      match openBlock? situation o with
      | none => o
      | some o =>
        if o.site.frame.kind.holdsLines then o
        else openBlocks { situation with maybeLazy := false, depth := situation.depth + 1 } n o

/-! ### Adding text -/

/-- Marks the last child of a block as followed by a blank line. -/
def Frame.markChild (f : Frame) : Frame :=
  match f.done with
  | last :: done => { f with done := { last with blank := true } :: done }
  | [] => f

/-- Whether a blank line in a block counts as one that follows it. -/
def Frame.takesBlank (f : Frame) (line : Nat) (hasChild : Bool) : Bool :=
  match f.kind with
  | .quote | .heading _ | .rule | .fence _ _ _ => false
  | .item _ begun => hasChild || begun != line
  | .table _ _ rows => rows.isEmpty
  | _ => true

/-- Takes note of whether the line is blank where it has come to. -/
def Site.noteBlank (s : Site) (line : Nat) (blank : Bool) : Site :=
  let hasChild := !s.left.isEmpty || !s.frame.done.isEmpty
  let s :=
    if blank then
      match s.left with
      | f :: left => { s with left := { f with blank := true } :: left }
      | [] => { s with frame := s.frame.markChild }
    else s
  { s with
    frame := { s.frame with blank := blank && s.frame.takesBlank line hasChild }
    outer := s.outer.map fun f => { f with blank := false } }

def Site.addText (s : Site) (t : Text) : Site :=
  { s with frame := { s.frame with text := s.frame.text ++ t } }

/-- Whether a line of text continues the paragraph that is open in a block that the line is not
in. -/
def Site.isLazy (s : Site) : Bool :=
  s.left.getLast?.any isParagraph

/-- The open blocks, the innermost first. -/
def Site.frames (s : Site) : List Frame :=
  s.left.reverse ++ s.frame :: s.outer

/-- Adds a line of text to the paragraph that is open innermost. -/
def addLazily (line : Text) : List Frame → List Frame
  | [] => []
  | f :: outer => { f with text := f.text ++ line } :: outer

/-- Puts the rest of a line into the block that it has come to. -/
def Site.addRest (s : Site) (c : Cursor) : Site :=
  let line := c.text ++ ['\n']
  match s.frame.kind with
  | .fence _ _ _ | .indented => s.addText line
  | .html kind =>
    let s := s.addText line
    if kind.endsOn c.content then s.pop else s
  | .heading _ => if c.isBlank then s else s.addText (chopNumberSigns c.content)
  | .paragraph _ => if c.isBlank then s else s.addText (c.content ++ ['\n'])
  | _ => if c.isBlank then s else (s.push (.paragraph false)).addText (c.content ++ ['\n'])

/-! ### Reading -/

/-- What has been read: the open blocks, the innermost first, and the definitions. -/
structure Reading where
  frame : Frame := { kind := .document }
  outer : List Frame := []
  defs : Definitions := {}

/-- The reading of which these are the open blocks, if there are any. -/
def Reading.ofFrames (frames : List Frame) (defs : Definitions) : Reading :=
  match frames with
  | f :: outer => ⟨f, outer, defs⟩
  | [] => { defs }

/-- Reads the line with the number `number`. -/
def Reading.addLine (r : Reading) (number : Nat) (line : Text) : Reading :=
  let m := continueFrames line.isEmpty [] ⟨line, 0, false⟩ (r.frame :: r.outer).reverse
  match m.matched with
  | [] => r
  | frame :: outer =>
    let site : Site := ⟨frame, outer, m.left, r.defs⟩
    if m.closed then
      let s := site.pop
      ⟨s.frame, s.outer, s.defs⟩
    else
      let situation : Situation := ⟨number, isParagraph r.frame, m.left.isEmpty, 1⟩
      let o := openBlocks situation (line.length + 2) ⟨site, m.cursor⟩
      let blank := o.cursor.isBlank
      let s := o.site.noteBlank number blank
      if s.isLazy && !blank then .ofFrames (addLazily (o.cursor.text ++ ['\n']) s.frames) s.defs
      else
        let s := s.settle.addRest o.cursor
        ⟨s.frame, s.outer, s.defs⟩

/-- Reads lines, the first of which has the number `number`. -/
def Reading.addLines (r : Reading) (number : Nat) : List Text → Reading
  | [] => r
  | line :: rest => (r.addLine number line).addLines (number + 1) rest

/-- A line without the byte order mark that a source may begin with. -/
def dropByteOrderMark : List Text → List Text
  | (c :: line) :: rest => if c.toNat == 0xFEFF then line :: rest else (c :: line) :: rest
  | lines => lines

def readBlocks (source : Text) : List (Block Text) × Definitions :=
  let r := ({} : Reading).addLines 1 (dropByteOrderMark (sourceLines source))
  match (r.frame :: r.outer).reverse with
  | [] => ([], r.defs)
  | document :: inner =>
    let (child, defs) := closeFrames false r.defs inner
    (blocksOf (document.add child).done, defs)

end TidyMark.Markdown
