import TidyMark.Markdown.Autolink
import TidyMark.Markdown.Emphasis
import TidyMark.Markdown.Tag
import TidyMark.Markdown.Target

/-!
# Inline content

The text of a block is read from left to right into pieces. An opening bracket sets the pieces
before it aside until its closing bracket tells whether the two make a link; if they do not, the
pieces are put together again around the bracket as text.
-/

namespace TidyMark.Markdown

/-- An opening bracket that is not closed yet. -/
structure OpenBracket where
  image : Bool
  /-- Whether another bracket has been opened after it. -/
  followed : Bool := false
  /-- The text after it. -/
  after : Text
  /-- The pieces before it, the last one first. -/
  before : List Piece

/-- What has been read of the text of a block. -/
structure Reader where
  /-- The pieces since the innermost open bracket, the last one first. -/
  pieces : List Piece := []
  /-- The open brackets, the innermost first. -/
  brackets : List OpenBracket := []
  /-- Whether no bracket has been opened since the last link, so that none may close one. -/
  noLinks : Bool := true
  /-- Whether a bracket was opened more recently than one was closed. -/
  inBrackets : Bool := false
  /-- The forms of raw HTML of which one has begun that does not end. -/
  unended : List RawForm := []
  /-- The runs of backticks that the search for the end of a code span has come by, the latest
  first: how long each is, and how much text there is from its start on. -/
  ticks : List (Nat × Nat) := []
  /-- Whether such a search has come to the end of the text. -/
  ticksSearched : Bool := false

namespace Reader

def add (r : Reader) (x : Inline) : Reader :=
  { r with pieces := .node x :: r.pieces }

/-- Adds text, unless it is empty. -/
def addText (r : Reader) (t : Text) : Reader :=
  if t.isEmpty then r else r.add (.text t)

def openBracket (r : Reader) (image : Bool) (after : Text) : Reader :=
  let brackets :=
    match r.brackets with
    | b :: rest => { b with followed := true } :: rest
    | [] => []
  { r with
    pieces := []
    brackets := { image, after, before := r.pieces } :: brackets
    noLinks := r.noLinks && image
    inBrackets := true }

/-- The pieces with an open bracket as text among them, the last one first. -/
def merge (pieces : List Piece) (b : OpenBracket) : List Piece :=
  pieces ++ .node (.text (if b.image then ['!', '['] else ['['])) :: b.before

/-- Gives up the innermost open bracket. -/
def giveUp (r : Reader) (b : OpenBracket) (rest : List OpenBracket) : Reader :=
  { r with pieces := merge r.pieces b, brackets := rest }.add (.text [']'])

def finish (r : Reader) : List Inline :=
  Piece.resolve (r.brackets.foldl merge r.pieces).reverse

end Reader

/-! ### Links -/

/-- Reads the destination in parentheses that may follow a closing bracket: the address, the title
and the text after it. -/
def inlineTarget? (after : Text) : Option (Text × Text × Text) := do
  let rest ← Text.strip? "(" after
  let (url, rest) ← url? (rest.dropWhile isSpace)
  let spaced := rest.dropWhile isSpace
  let (title, rest) :=
    if spaced.length < rest.length then (title? spaced).getD ([], spaced) else ([], spaced)
  let rest ← Text.strip? ")" (rest.dropWhile isSpace)
  return (cleanUrl url, plainText title, rest)

/-- The target that a reference names: by the label after the closing bracket or, where there is
none, by the text between the brackets. -/
def referenceTarget? (defs : Definitions) (b : OpenBracket) (after : Text) :
    Option (Text × Text × Text) :=
  let own := b.after.take (b.after.length - after.length - 1)
  let withOwn (rest : Text) := if b.followed then none else some (own, rest)
  let found :=
    match label? after with
    | none => withOwn after
    | some ([], rest) => withOwn rest
    | some (label, rest) => some (label, rest)
  found.bind fun (label, rest) => (defs.find? label).map fun (url, title) => (url, title, rest)

/-- The text of a piece that is text or raw HTML. -/
def Piece.literal? : Piece → Option Text
  | .node (.text t) | .node (.html t) => some t
  | .node _ => none
  | .run r => some r.text

def Piece.isText : Piece → Bool
  | .node (.text _) | .run _ => true
  | .node _ => false

/-- The name of the footnote that pieces between brackets refer to. -/
def footnoteName? (pieces : List Piece) : Option Text :=
  match pieces with
  | [] => none
  | first :: _ =>
    let literal := pieces.flatMap fun p => p.literal?.getD []
    match first.isText, first.literal?, literal with
    | true, some ('^' :: _), '^' :: c :: name => some (c :: name)
    | _, _, _ => none

/-- Reads a closing bracket before `after`; returns the number of characters that it takes. -/
def closeBracket (defs : Definitions) (r : Reader) (after : Text) : Nat × Reader :=
  let r := { r with inBrackets := false }
  match r.brackets with
  | [] => (1, r.add (.text [']']))
  | b :: rest =>
    if !b.image && r.noLinks then (1, r.giveUp b rest)
    else
      match (inlineTarget? after).or (referenceTarget? defs b after) with
      | some (url, title, tail) =>
        let content := Piece.resolve r.pieces.reverse
        let node : Inline := if b.image then .image url title content else .link url title content
        (1 + (after.length - tail.length),
          { r with
            pieces := .node node :: b.before
            brackets := rest
            noLinks := r.noLinks || !b.image })
      | none =>
        match footnoteName? r.pieces.reverse with
        | some name =>
          (1,
            { r with
              pieces := r.pieces.filter (·.literal?.isNone) ++
                .node (.footnoteRef name 0 0) :: b.before
              brackets := rest })
        | none => (1, r.giveUp b rest)

/-! ### Characters -/

/-- The most backticks that can open a code span. -/
def maxTicks : Nat := 80

/-- The runs of backticks in a text that follows `run` backticks: how long each is, and how much
text there is from its start on. -/
def tickRuns (run : Nat) : Text → List (Nat × Nat)
  | [] => if run == 0 then [] else [(run, run)]
  | c :: rest =>
    if c == '`' then tickRuns (run + 1) rest
    else if run == 0 then tickRuns 0 rest
    else (run, run + 1 + rest.length) :: tickRuns 0 rest

/-- Whether a run of `width` backticks is known to open nothing when `left` characters follow it:
a search has come to the end of the text, and the last run of that width that any search has come
by stands before. -/
def Reader.opensNothing (r : Reader) (width left : Nat) : Bool :=
  r.ticksSearched && (r.ticks.lookup width).all (left ≤ ·)

/-- The content of a code span: line ends are spaces, and a space at both ends is taken off where
there is anything else. -/
def codeContent (t : Text) : Text :=
  let t := t.map fun c => if c == '\n' then ' ' else c
  if t.any (· != ' ') && t.head? == some ' ' && t.getLast? == some ' ' then t.tail.dropLast else t

/-- Reads a run of `width` backticks before `after`. -/
def readTicks (r : Reader) (width : Nat) (after : Text) : Nat × Reader :=
  let literal : Inline := .text (List.replicate width '`')
  if maxTicks < width || r.opensNothing width after.length then (width, r.add literal)
  else
    let runs := tickRuns 0 after
    let passed := runs.takeWhile (·.1 != width)
    let r := { r with ticks := passed.reverse ++ r.ticks }
    match runs.drop passed.length with
    | [] => (width, { r with ticksSearched := true }.add literal)
    | (_, left) :: _ =>
      let n := after.length - left
      (width + n + width,
        { r with ticks := (width, left) :: r.ticks }.add (.code (codeContent (after.take n))))

/-- Reads a line end that `before`, in reverse, precedes. Two spaces before it make it a break. -/
def readLineEnd (r : Reader) (before rest : Text) : Nat × Reader :=
  let hard := before.head? == some ' ' && before[1]? == some ' '
  (1 + (rest.takeWhile isIndent).length, r.add (if hard then .lineBreak else .softBreak))

/-- Reads a backslash before `rest`. -/
def readBackslash (r : Reader) (rest : Text) : Nat × Reader :=
  match rest with
  | c :: _ =>
    if isAsciiPunctuation c then (2, r.add (.text [c]))
    else if c == '\n' then (2, r.add .lineBreak)
    else (1, r.add (.text ['\\']))
  | [] => (1, r.add (.text ['\\']))

/-- Reads a less-than sign before `rest`: an address, raw HTML or nothing but the sign. -/
def readAngle (r : Reader) (rest : Text) : Nat × Reader :=
  match autolinkUrl? rest, autolinkMail? rest with
  | some url, _ => (url.length + 2, r.add (.link (decodeEntities 0 url) [] [shown url]))
  | none, some mail =>
    (mail.length + 2, r.add (.link ("mailto:" ++ decodeEntities 0 mail) [] [shown mail]))
  | none, none =>
    match rawHtml r.unended rest with
    | .found tail =>
      let length := rest.length - tail.length
      (length + 1, r.add (.html ('<' :: rest.take length)))
    | .unended form => (1, { r with unended := form :: r.unended }.add (.text ['<']))
    | .nothing => (1, r.add (.text ['<']))
where
  shown (t : Text) : Inline := .text (decodeEntities 0 t)

/-- Whether a character may begin anything but text. -/
def isSpecial (inBrackets : Bool) (c : Char) : Bool :=
  match c with
  | '\n' | '_' | '*' | '`' | '\\' | '&' | '<' | '[' | ']' | '!' | '~' => true
  | '^' => !inBrackets
  | _ => false

/-- Reads text up to the next special character. White space is left out before a line end and
after a break. -/
def readText (r : Reader) (c : Char) (rest : Text) : Nat × Reader :=
  let more := rest.takeWhile fun d => !isSpecial r.inBrackets d
  let text := c :: more
  let text :=
    if (rest.drop more.length).head? == some '\n' then Text.trimSpaceEnd text else text
  let text :=
    match r.pieces with
    | .node .lineBreak :: _ => text.dropWhile isSpace
    | _ => text
  (1 + more.length, r.addText text)

def readRun (r : Reader) (c : Char) (before rest : Text) : Nat × Reader :=
  let n := (rest.takeWhile (· == c)).length + 1
  (n, { r with pieces := (Run.read c n before (rest.drop (n - 1))).piece :: r.pieces })

/-- Reads what begins with the character `c` between `before`, which is given in reverse, and
`rest`. Returns the number of characters that it takes, `c` included. -/
def Reader.step (defs : Definitions) (r : Reader) (before : Text) (c : Char) (rest : Text) :
    Nat × Reader :=
  if !isSpecial r.inBrackets c then readText r c rest
  else
    match c with
    | '\n' => readLineEnd r before rest
    | '`' =>
      let more := (rest.takeWhile (· == '`')).length
      readTicks r (more + 1) (rest.drop more)
    | '\\' => readBackslash r rest
    | '&' =>
      match entity? rest with
      | some (t, n) => (n + 1, r.add (.text t))
      | none => (1, r.add (.text ['&']))
    | '<' => readAngle r rest
    | '[' => (1, r.openBracket false rest)
    | ']' => closeBracket defs r rest
    | '!' =>
      match rest with
      | '[' :: after =>
        if after.head? == some '^' then (1, r.add (.text ['!'])) else (2, r.openBracket true after)
      | _ => (1, r.add (.text ['!']))
    | c => readRun r c before rest

/-- Reads a text that follows `before`, which is given in reverse. Its first `skip` characters have
been read already. -/
def Reader.read (defs : Definitions) (r : Reader) (before : Text) (skip : Nat) : Text → Reader
  | [] => r
  | c :: rest =>
    match skip with
    | skip + 1 => r.read defs (c :: before) skip rest
    | 0 =>
      let (n, r) := r.step defs before c rest
      r.read defs (c :: before) (n - 1) rest

/-- The inline content of a block, read from its text. -/
def Inline.ofText (defs : Definitions) (t : Text) : List Inline :=
  (({} : Reader).read defs [] 0 (Text.trimSpaceEnd t)).finish

end TidyMark.Markdown
