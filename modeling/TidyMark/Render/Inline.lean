import TidyMark.Render.Address
import TidyMark.Render.Block
import TidyMark.Render.Escape

/-!
# Rules for inline content

What texts, marks, links and images write, and what links and images add to the report.
-/

namespace TidyMark.Render

/-- Whether what stands here begins a line. -/
def atLineStart (before : List Token) : Bool :=
  match preceding? before with
  | none | some (.leaf .softBreak) | some (.leaf .hardBreak) => true
  | _ => false

/-- A literal text: escaped, its references resolved, and its bars escaped inside a row. -/
def text (setting : Setting) (inside : Inside) (s : Sight) : Text :=
  let escaped := Escape.escape (atLineStart s.before) s.token.content
  let resolved :=
    if !setting.reflinks.isEmpty && escaped.contains '[' then setting.reflinks.expandLenient escaped
    else escaped
  escapeBars inside resolved

/-- The end of a mark. Outside tables it ends the line where the line ends. -/
def closeMark (inside : Inside) (after : List Token) (marker : Text) : Text :=
  if inside.table then marker
  else
    match following? after with
    | none | some (.leaf .softBreak) => marker ++ ['\n']
    | some _ => marker

/-- The start of a strong run. After a line break it begins a block of its own. -/
def strongOpen (state : State) (s : Sight) : State × Text :=
  let previous := preceding? s.before
  ({ state with strong := some (previous == some (.leaf .text)) },
    if previous == some (.leaf .softBreak) then "\n**" else "**")

/-- The end of a strong run. It stays on its line after text and in the cell of a header. -/
def strongClose (state : State) (s : Sight) : State × Text :=
  ({ state with strong := none },
    if state.strong.getD false || state.inside.headerCell then "**"
    else closeMark state.inside s.after "**")

/-- Whether a fragment put into the address lets the text before the link run into it. -/
def collides (s : Sight) : Bool :=
  (linkFragment? s.after).isSome &&
    match s.before with
    | p :: _ => p.kind == .leaf .text && p.content.getLast?.any isWordChar
    | [] => false

/-- The start of a link, whose token has its final address. The image that a link begins with
writes the link itself. -/
def linkOpen (state : State) (s : Sight) : State × Text :=
  let space : Text := if collides s then [' '] else []
  let { href, title, .. } := s.token
  if following? s.after == some (.leaf .image) then
    ({ state with links := .badge :: state.links }, space)
  else
    ({ state with
        links := .link href title :: state.links
        report := state.report.addLink ⟨href, title⟩ },
      space ++ ['['])

def linkClose (state : State) : State × Text :=
  match state.links with
  | .link href title :: links => ({ state with links }, "](" ++ destination href title ++ ")")
  | .badge :: links => ({ state with links }, [])
  | [] => (state, [])

/-- The extensions of images, in lower case. -/
def imageExtensions : List Text :=
  ["svg", "png", "jpg", "jpeg", "gif"]

/-- Whether a character is another one up to case. -/
def sameUpToCase (c d : Char) : Bool :=
  c.toLower == d || c == 'ſ' && d == 's'

def isImageExtension (t : Text) : Bool :=
  imageExtensions.any fun e => e.length == t.length && (t.zip e).all fun (c, d) => sameUpToCase c d

/-- An address without the extension of an image at its end. -/
def stripImageExtension : Text → Text
  | [] => []
  | c :: rest =>
    if c == '.' && isImageExtension rest then [] else c :: stripImageExtension rest

/-- Where a badge leads, if the image is one: where the link leads that it is the first part of,
or, for an address that speaks of a badge, to that address without its extension. -/
def badgeHref? (s : Sight) : Option Text :=
  let plain :=
    if Text.includes "badge" s.token.src then some (stripImageExtension s.token.src) else none
  match s.before with
  | p :: _ =>
    if p.kind == .opening .link then some (if p.href.isEmpty then s.token.src else p.href)
    else plain
  | [] => plain

/-- An image, whose token has its final address, or a badge. -/
def image (state : State) (s : Sight) : State × Text :=
  let { alt, src, title, .. } := s.token
  let written : Text := "![" ++ alt ++ "](" ++ destination src title ++ ")"
  match badgeHref? s with
  | some href =>
    ({ state with report := state.report.addBadge ⟨alt, src, href⟩ },
      "[" ++ written ++ "](" ++ href ++ ")")
  | none => ({ state with report := state.report.addImage ⟨alt, src, title⟩ }, written)

end TidyMark.Render
