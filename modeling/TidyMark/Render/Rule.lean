import TidyMark.Render.Inline
import TidyMark.Render.Item
import TidyMark.Render.Table

/-!
# The rule table

`rule` says for every kind of token what it writes and what it changes in the state. An `inline`
token writes what its children write, which is not the rule's business but that of the walk.
-/

namespace TidyMark.Render

def openRule (setting : Setting) (state : State) (s : Sight) : Construct → State × Text
  | .blockquote => (state, ['\n'])
  | .heading => (state, headingOpen s.token)
  | .bulletList => listOpen state s false
  | .orderedList => listOpen state s true
  | .listItem => listItemOpen setting.options state s
  | .paragraph => (state, paragraphOpen s)
  | .link => linkOpen state s
  | .strong => strongOpen state s
  | .emphasis => (state, "_")
  | .deleted => (state, "~~")
  | .inserted => (state, "<ins>")
  | .marked => (state, "<mark>")
  | .abbreviation => (state, "<abbr title=\"" ++ s.token.title ++ "\">")
  | .footnoteBlock => (state, footnoteBlockOpen setting.options)
  | .footnote => (state, footnoteOpen s.token)
  | .descriptionList => (state, "<dl>\n")
  | .descriptionTerm => (state, "<dt>")
  | .descriptionDetails => (state, "<dd>")
  | .table => openTable state
  | .tableHead => openTableHead state
  | .tableBody => (state, alignmentRow state.aligns)
  | .tableRow => openTableRow state
  | .headerCell => openHeaderCell state s
  | .dataCell => (state, openDataCell s)

def closeRule (state : State) (s : Sight) : Construct → State × Text
  | .blockquote | .heading => (state, '\n' :: breakBefore s.after)
  | .bulletList | .orderedList => listClose state s
  | .listItem => (state, listItemClose s)
  | .paragraph => (state, paragraphClose s)
  | .link => linkClose state
  | .strong => strongClose state s
  | .emphasis => (state, closeMark state.inside s.after "_")
  | .deleted => (state, closeMark state.inside s.after "~~")
  | .inserted => (state, "</ins>")
  | .marked => (state, "</mark>")
  | .abbreviation => (state, "</abbr>")
  | .footnoteBlock => (state, "</ol>\n</section>\n")
  | .footnote => (state, "</li>\n")
  | .descriptionList => (state, "</dl>\n" ++ breakBefore s.after)
  | .descriptionTerm => (state, "</dt>\n")
  | .descriptionDetails => (state, "</dd>\n")
  | .table => closeTable state
  | .tableHead => closeTableHead state s
  | .tableBody => (state, [])
  | .tableRow => closeTableRow state
  | .headerCell => closeHeaderCell state s
  | .dataCell => (state, cellEnd [] s.after)

def leafRule (setting : Setting) (state : State) (s : Sight) : Leaf → State × Text
  | .inline => (state, [])
  | .code => (state, code state.inside s)
  | .fence => (state, fence s)
  | .rule => (state, "***\n" ++ breakBefore s.after)
  | .image => image state s
  | .sub => (state, "<sub>" ++ s.token.content ++ "</sub>")
  | .sup => (state, "<sup>" ++ s.token.content ++ "</sup>")
  | .hardBreak => (state, "\n\n")
  | .softBreak => (state, "\n")
  | .text => (state, text setting state.inside s)
  | .htmlBlock => (state, htmlBlock s)
  | .htmlTag => (state, s.token.content)
  | .footnoteRef => (state, footnoteRef s.token)
  | .footnoteAnchor => (state, footnoteAnchor s.token)

/-- What a token writes, and the state after it. A token of an unknown kind passes through. -/
def rule (setting : Setting) (state : State) (s : Sight) : State × Text :=
  match s.token.kind with
  | .opening c => openRule setting state s c
  | .closing c => closeRule state s c
  | .leaf l => leafRule setting state s l
  | .unknown _ => (state, s.token.content)

end TidyMark.Render
