import TidyMark.Html.Note
import TidyMark.Text.Blank

/-!
# Blocks as HTML
-/

namespace TidyMark.Html

open Markdown

/-- Content on lines between those of an opening and a closing tag. -/
def container (tag attrs : Text) (content : List Piece) : List Piece :=
  [.freshLine, .verbatim ("<" ++ tag ++ attrs ++ ">\n")] ++ content ++
    [.freshLine, .verbatim ("</" ++ tag ++ ">\n")]

def codeBlock (codeAttrs literal : Text) : List Piece :=
  [.freshLine, .verbatim ("<pre><code" ++ codeAttrs ++ ">" ++ escape literal ++ "</code></pre>\n")]

/-- The attributes that fenced code has by the information after its fence. Its class names the
language, the first word of that; formulas alone have a class that no option changes. -/
def fenceAttrs (options : Options) (info : Text) : Text :=
  if info.isEmpty then []
  else if info == "math".toList then
    attr "class" "language-math" ++ attr "data-math-style" "display"
  else attr "class" (escape (options.langPrefix ++ info.takeWhile (!isSpace ·)))

def listTag : ListKind → Text
  | .bullet => "ul"
  | .ordered _ => "ol"

/-- An ordered list says where it starts, unless that is at one. -/
def listAttrs : ListKind → Text
  | .bullet => []
  | .ordered start => if start == 1 then [] else attr "start" (Text.ofNat start)

/-- The attribute of a cell that is aligned. -/
def alignAttr : Option Align → Text
  | some .left => attr "align" "left"
  | some .center => attr "align" "center"
  | some .right => attr "align" "right"
  | none => []

def cell (options : Options) (tag : Text) (align : Option Align) (xs : List Inline) : Text :=
  "<" ++ tag ++ alignAttr align ++ ">" ++ ofInlines options xs ++ "</" ++ tag ++ ">\n"

def row (options : Options) (tag : Text) (aligns : List (Option Align))
    (cells : List (List Inline)) : Text :=
  let content := cells.zipIdx.flatMap fun (xs, i) => cell options tag aligns[i]?.join xs
  "<tr>\n" ++ content ++ "</tr>\n"

def tableHead (options : Options) (aligns : List (Option Align)) (header : List (List Inline)) :
    Text :=
  "<thead>\n" ++ row options "th" aligns header ++ "</thead>\n"

def tableBody (options : Options) (aligns : List (Option Align))
    (rows : List (List (List Inline))) : Text :=
  if rows.isEmpty then []
  else "<tbody>\n" ++ rows.flatMap (row options "td" aligns) ++ "</tbody>\n"

mutual

/-- The pieces of a block. A tight paragraph is its content alone, any other ends with `back`. -/
def ofBlock (options : Options) (tight : Bool) (back : Text) : Block (List Inline) → List Piece
  | .paragraph xs =>
    if tight then [.verbatim (ofInlines options xs)]
    else [.freshLine, .verbatim ("<p>" ++ ofInlines options xs ++ back ++ "</p>\n")]
  | .heading level xs =>
    [.freshLine, .verbatim (element ("h" ++ Text.ofNat level) (ofInlines options xs) ++ "\n")]
  | .quote body => container "blockquote" [] (ofBlocks options false [] body)
  | .list kind tight items =>
    container (listTag kind) (listAttrs kind) (ofItems options tight items)
  | .fence info literal => codeBlock (fenceAttrs options info) literal
  | .indented literal => codeBlock [] literal
  | .html literal => [.freshLine, .verbatim literal, .freshLine]
  | .rule => [.freshLine, .verbatim ("<hr" ++ voidEnd options ++ "\n")]
  | .table aligns header rows =>
    container "table" []
      [.verbatim (tableHead options aligns header ++ tableBody options aligns rows)]
  | .footnote name body =>
    noteItem name (ofBlocks options false (paragraphBack [] body) body) (blockBack [] body)
  | .descriptions items => container "dl" [] (ofDescriptions options items)

/-- The pieces of a sequence of blocks; `back` is what the last one ends with if it is a
paragraph. -/
def ofBlocks (options : Options) (tight : Bool) (back : Text) :
    List (Block (List Inline)) → List Piece
  | [] => []
  | b :: rest =>
    ofBlock options tight (if rest.isEmpty then back else []) b ++
      ofBlocks options tight back rest

def ofItems (options : Options) (tight : Bool) : List (Item (List Inline)) → List Piece
  | [] => []
  | .mk body :: rest =>
    [.freshLine, .verbatim "<li>"] ++ ofBlocks options tight [] body ++ [.verbatim "</li>\n"] ++
      ofItems options tight rest

def ofDescriptions (options : Options) : List (Description (List Inline)) → List Piece
  | [] => []
  | .mk tight term details :: rest =>
    (match term with
      | some xs => [.verbatim (element "dt" (ofInlines options xs) ++ "\n")]
      | none => []) ++
    [.verbatim "<dd>"] ++ ofBlocks options tight [] details ++ [.verbatim "</dd>\n"] ++
    ofDescriptions options rest

end

end TidyMark.Html
