import TidyMark.Markdown.Tag

/-!
# Blocks of raw HTML

The seven ways in which a line begins a block of raw HTML, and how such a block ends.
-/

namespace TidyMark.Markdown

/-- How a block of raw HTML began, which decides how it ends. -/
inductive HtmlBlock where
  /-- A tag whose content is not markup; it ends with a closing tag. -/
  | verbatim
  | comment
  | instruction
  | declaration
  | section
  /-- A tag of a block; it ends before a blank line. -/
  | blockTag
  /-- Any other tag alone on its line; it ends before a blank line. -/
  | anyTag
deriving DecidableEq

/-- Names of tags whose content is not markup. -/
def verbatimNames : List Text :=
  ["script", "pre", "textarea", "style"]

/-- Names of tags that stand for blocks. -/
def blockNames : List Text :=
  Text.words "address article aside base basefont blockquote body caption center col colgroup dd
    details dialog dir div dl dt fieldset figcaption figure footer form frame frameset h1 h2 h3 h4
    h5 h6 head header hr html iframe legend li link main menu menuitem nav noframes ol optgroup
    option p param search section summary table tbody td tfoot th thead title tr track ul"

def lowerAscii (t : Text) : Text :=
  t.map Char.toLower

/-- Splits off the letters and digits at the start, in lower case. -/
def htmlName (t : Text) : Text × Text :=
  (lowerAscii (t.takeWhile Char.isAlphanum), t.dropWhile Char.isAlphanum)

def endsVerbatimName (rest : Text) : Bool :=
  rest.isEmpty || rest.head?.any fun c => isSpace c || c == '>'

def endsBlockName (rest : Text) : Bool :=
  endsVerbatimName rest || Text.startsWith "/>" rest

/-- The block of raw HTML that a line begins. A tag of no special name begins one only where it is
allowed to interrupt what stands before. -/
def HtmlBlock.ofLine? (interrupts : Bool) (line : Text) : Option HtmlBlock := do
  let t ← Text.strip? "<" line
  let (name, rest) := htmlName t
  let (innerName, innerRest) := htmlName ((Text.strip? "/" t).getD t)
  if verbatimNames.contains name && endsVerbatimName rest then some .verbatim
  else if Text.startsWith "!--" t then some .comment
  else if Text.startsWith "?" t then some .instruction
  else if Text.startsWith "!" t && (t.drop 1).head?.any Char.isAlpha then some .declaration
  else if Text.startsWith "![cdata[" (lowerAscii (t.take 8)) then some .section
  else if blockNames.contains innerName && endsBlockName innerRest then some .blockTag
  else if interrupts then none
  else
    match tag? t with
    | some rest =>
      if rest.all fun c => c == ' ' || c == '\t' || c == '\x0c' then some .anyTag else none
    | none => none

def HtmlBlock.endsAtBlank : HtmlBlock → Bool
  | .blockTag | .anyTag => true
  | _ => false

def HtmlBlock.endsOn (kind : HtmlBlock) (line : Text) : Bool :=
  match kind with
  | .verbatim =>
    verbatimNames.any fun name => Text.includes ("</" ++ name ++ ">") (lowerAscii line)
  | .comment => Text.includes "-->" line
  | .instruction => Text.includes "?>" line
  | .declaration => Text.includes ">" line
  | .section => Text.includes "]]>" line
  | .blockTag | .anyTag => false

end TidyMark.Markdown
