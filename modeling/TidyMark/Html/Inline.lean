import TidyMark.Html.Escape
import TidyMark.Markdown.Plain
import TidyMark.Options

/-!
# Inline content as HTML
-/

namespace TidyMark.Html

open Markdown

/-- An attribute of a tag, its value already escaped. -/
def attr (name value : Text) : Text :=
  " " ++ name ++ "=\"" ++ value ++ "\""

def titleAttr (title : Text) : Text :=
  if title.isEmpty then [] else attr "title" (escape title)

/-- The end of a tag that encloses nothing. -/
def voidEnd (options : Options) : Text :=
  if options.xhtml then " />" else ">"

def element (tag content : Text) : Text :=
  "<" ++ tag ++ ">" ++ content ++ "</" ++ tag ++ ">"

/-- What the name of the `nth` reference to a footnote ends with. -/
def nthSuffix (nth : Nat) : Text :=
  if nth ≤ 1 then [] else "-" ++ Text.ofNat nth

/-- A reference to a footnote leads to it by its number. -/
def footnoteRef (name : Text) (index nth : Nat) : Text :=
  let link := "<a" ++ attr "href" ("#fn-" ++ escapeAddress name) ++
    attr "id" ("fnref-" ++ escapeAddress name ++ nthSuffix nth) ++ " data-footnote-ref>" ++
    Text.ofNat index ++ "</a>"
  "<sup class=\"footnote-ref\">" ++ link ++ "</sup>"

mutual

def ofInline (options : Options) : Inline → Text
  | .text t => escape t
  | .softBreak => ['\n']
  | .lineBreak => "<br" ++ voidEnd options ++ "\n"
  | .code t => element "code" (escape t)
  | .html t => t
  | .emphasis xs => element "em" (ofInlines options xs)
  | .strong xs => element "strong" (ofInlines options xs)
  | .strikethrough xs => element "del" (ofInlines options xs)
  | .superscript xs => element "sup" (ofInlines options xs)
  | .link url title xs =>
    "<a" ++ attr "href" (escapeAddress url) ++ titleAttr title ++ ">" ++ ofInlines options xs ++
      "</a>"
  | .image url title xs =>
    "<img" ++ attr "src" (escapeAddress url) ++ attr "alt" (escape (plainInlines xs)) ++
      titleAttr title ++ voidEnd options
  | .footnoteRef name index nth => footnoteRef name index nth

def ofInlines (options : Options) : List Inline → Text
  | [] => []
  | x :: rest => ofInline options x ++ ofInlines options rest

end

end TidyMark.Html
