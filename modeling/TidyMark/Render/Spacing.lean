import TidyMark.Token.Basic

/-!
# Space after blocks

A block ends with a line feed of its own and, unless the list item around it ends there, one more.
Paragraphs that show nothing do not count.
-/

namespace TidyMark.Render

/-- Whether three tokens are a tight paragraph without content. -/
def isEmptyParagraph (opening content closing : Token) : Bool :=
  opening.kind == .opening .paragraph && opening.tight &&
    content.kind == .leaf .inline && content.content.isEmpty &&
    closing.kind == .closing .paragraph && closing.tight

/-- What is left after the paragraphs that show nothing. -/
def skipEmptyParagraphs : List Token → List Token
  | a :: b :: c :: rest =>
    if isEmptyParagraph a b c then skipEmptyParagraphs rest else a :: b :: c :: rest
  | ts => ts

/-- What separates a block from the tokens after it. -/
def breakBefore (after : List Token) : Text :=
  match skipEmptyParagraphs after with
  | t :: _ => if t.kind == .closing .listItem then [] else ['\n']
  | [] => ['\n']

end TidyMark.Render
