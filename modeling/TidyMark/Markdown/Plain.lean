import TidyMark.Markdown.Document

/-!
# Plain text

What is left of inline content when all markup is taken away. It stands for an image where no image
can be shown.
-/

namespace TidyMark.Markdown

mutual

/-- The literal text in inline content. -/
def Inline.plain : Inline → Text
  | .text t | .code t | .html t => t
  | .softBreak | .lineBreak => [' ']
  | .emphasis xs | .strong xs | .strikethrough xs | .superscript xs => plainInlines xs
  | .link _ _ xs | .image _ _ xs => plainInlines xs
  | .footnoteRef _ _ _ => []

def plainInlines : List Inline → Text
  | [] => []
  | x :: rest => x.plain ++ plainInlines rest

end

end TidyMark.Markdown
