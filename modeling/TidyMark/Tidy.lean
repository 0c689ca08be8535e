import TidyMark.Html.Basic
import TidyMark.Markdown.Basic
import TidyMark.Reflink.Basic
import TidyMark.Render.Basic
import TidyMark.Token.Stream

/-!
# Tidying documents

The way from a Markdown source to a tidy one: references are expanded, the result is read as a
document, the document is taken apart into tokens, and the tokens are rendered. The way to HTML
leaves it at the document.
-/

namespace TidyMark

/-- The token stream of a source, references as they are. -/
def tokenize (source : Text) : List Token :=
  Token.ofDocument (Markdown.Document.ofText source)

/-- Renders a source as tidy Markdown. -/
def tidy (options : Options) (source : Text) : Except Failure Rendered := do
  let expanded ← Reflink.expand options source
  (render options (tokenize expanded)).result

/-- Renders bytes, which have to be UTF-8. -/
def tidyBytes (options : Options) (bytes : List UInt8) : Except Failure Rendered :=
  match Utf8.decode bytes with
  | .ok source => tidy options source
  | .error fault => .error (.notUtf8 fault)

def toHtml (options : Options) (source : Text) : Except Failure Text := do
  let expanded ← Reflink.expand options source
  return Html.ofDocument options (Markdown.Document.ofText expanded)

end TidyMark
