import TidyMark.Render.Sight
import TidyMark.Render.Spacing
import TidyMark.Text.Blank

/-!
# Rules for blocks

What headings, paragraphs, code, raw HTML and footnotes write.
-/

namespace TidyMark.Render

/-- The number signs of a heading, at least one. -/
def headingOpen (t : Token) : Text :=
  List.replicate (max t.headingLevel 1) '#' ++ [' ']

/-- A paragraph opens with nothing, unless it has no content. -/
def paragraphOpen (s : Sight) : Text :=
  if preceding? s.before == some (.opening .blockquote) then []
  else if following? s.after == some (.leaf .inline) then []
  else if s.token.tight then []
  else ['\n']

/-- A loose paragraph ends its line and is followed by a blank line; a tight one leaves both to
what follows it. -/
def paragraphClose (s : Sight) : Text :=
  let gap := breakBefore s.after
  match following? s.after with
  | some k =>
    if k.isParagraph then closed gap
    else if s.token.tight then [] else '\n' :: gap
  | none => closed gap
where
  closed (gap : Text) : Text :=
    let shown :=
      match s.before with
      | p :: _ => !(p.kind == .leaf .inline && p.content.isEmpty)
      | [] => true
    (if s.token.tight then [] else ['\n']) ++ (if s.token.tight && !shown then [] else gap)

/-- The length of the longest run of backticks, when `run` of them stand before the text. -/
def longestTicks (run : Nat) : Text → Nat
  | [] => run
  | c :: rest =>
    if c == '`' then longestTicks (run + 1) rest else max run (longestTicks 0 rest)

def ticks (n : Nat) : Text :=
  List.replicate n '`'

/-- A fence that no run of backticks in the body can close. -/
def fenceFor (body : Text) : Text :=
  ticks (max 3 (longestTicks 0 body + 1))

/-- The text without the line feeds at its ends. -/
def trimLineFeeds (t : Text) : Text :=
  Text.dropEndWhile (· == '\n') (t.dropWhile (· == '\n'))

def fenced (lang content : Text) (after : List Token) : Text :=
  let body := trimLineFeeds content
  let fence := fenceFor body
  "\n" ++ fence ++ lang ++ "\n" ++ body ++ "\n" ++ fence ++ "\n" ++ breakBefore after

/-- A code span. Its delimiters are longer than any run of backticks inside, and a backtick at an
end is kept apart from them by a space. -/
def codeSpan (content : Text) : Text :=
  let delimiter := ticks (longestTicks 0 content + 1)
  let pad : Text :=
    if content.head? == some '`' || content.getLast? == some '`' then [' '] else []
  delimiter ++ pad ++ content ++ pad ++ delimiter

/-- In a row of a table a bar is written after a backslash. -/
def escapeBars (inside : Inside) (t : Text) : Text :=
  if inside.row then Text.replaceChar '|' "\\|" t else t

/-- Code: a block is fenced without a language, anything else is a code span. -/
def code (inside : Inside) (s : Sight) : Text :=
  if s.token.block then fenced [] s.token.content s.after
  else codeSpan (escapeBars inside s.token.content)

/-- A fenced code block whose language is the first word after the fence. -/
def fence (s : Sight) : Text :=
  fenced ((Text.words s.token.params).headD []) s.token.content s.after

/-- Raw HTML on lines of its own. -/
def htmlBlock (s : Sight) : Text :=
  Text.trimEnd s.token.content ++ "\n" ++ breakBefore s.after

def footnoteAnchorName (t : Token) : Text :=
  let name := "fnref" ++ Text.ofNat (t.id + 1)
  if 0 < t.subId then name ++ ":" ++ Text.ofNat t.subId else name

def footnoteRef (t : Token) : Text :=
  let n := Text.ofNat (t.id + 1)
  "<sup class=\"footnote-ref\"><a href=\"#fn" ++ n ++ "\" id=\"" ++ footnoteAnchorName t ++ "\">[" ++
    n ++ "]</a></sup>"

/-- A line and the opening of the list of footnotes. -/
def footnoteBlockOpen (options : Options) : Text :=
  (if options.xhtml then "<hr class=\"footnotes-sep\" />\n" else "<hr class=\"footnotes-sep\">\n") ++
    "<section class=\"footnotes\">\n<ol class=\"footnotes-list\">\n"

def footnoteOpen (t : Token) : Text :=
  "<li id=\"fn" ++ Text.ofNat (t.id + 1) ++ "\"  class=\"footnote-item\">"

/-- The way back from a footnote to its reference. -/
def footnoteAnchor (t : Token) : Text :=
  " <a href=\"#" ++ footnoteAnchorName t ++ "\" class=\"footnote-backref\">↩</a>"

end TidyMark.Render
