import TidyMark.Html.Inline
import TidyMark.Html.Piece

/-!
# Footnotes as HTML

The footnotes stand in a list at the end of the document. A footnote leads back to each of its
references, in its last paragraph if it ends with one. A footnote that is defined inside another
one is never referred to: it stays where it is, counts as one of the footnotes, and keeps the
footnote around it from leading back.
-/

namespace TidyMark.Html

open Markdown

mutual

/-- How many footnotes are defined in a block. -/
def blockNotes {α : Type} : Block α → Nat
  | .footnote _ body => notesIn body + 1
  | .quote body => notesIn body
  | .list _ _ items => itemNotes items
  | .descriptions items => detailNotes items
  | _ => 0

def notesIn {α : Type} : List (Block α) → Nat
  | [] => 0
  | b :: rest => blockNotes b + notesIn rest

def itemNotes {α : Type} : List (Item α) → Nat
  | [] => 0
  | .mk body :: rest => notesIn body + itemNotes rest

def detailNotes {α : Type} : List (Description α) → Nat
  | [] => 0
  | .mk _ _ details :: rest => notesIn details + detailNotes rest

end

/-- What shows at the way back to the `nth` reference to a footnote. -/
def nthMark (nth : Nat) : Text :=
  if nth ≤ 1 then "↩" else "↩<sup class=\"footnote-ref\">" ++ Text.ofNat nth ++ "</sup>"

/-- The way back from the footnote with a number to the `nth` reference to it. -/
def backref (name : Text) (number nth : Nat) : Text :=
  let place := Text.ofNat number ++ nthSuffix nth
  "<a" ++ attr "href" ("#fnref-" ++ escapeAddress name ++ nthSuffix nth) ++
    attr "class" "footnote-backref" ++ " data-footnote-backref" ++
    attr "data-footnote-backref-idx" place ++
    attr "aria-label" ("Back to reference " ++ place) ++ ">" ++ nthMark nth ++ "</a>"

def backrefs (name : Text) (number references : Nat) : Text :=
  Text.join [' '] ((List.range references).map fun i => backref name number (i + 1))

def endsWithParagraph {α : Type} (body : List (Block α)) : Bool :=
  match body.getLast? with
  | some (.paragraph _) => true
  | _ => false

/-- What the last paragraph of a footnote ends with; `back` are the ways back. -/
def paragraphBack {α : Type} (back : Text) (body : List (Block α)) : Text :=
  " " ++ (if notesIn body == 0 then back else [])

/-- What stands after the last block of a footnote. -/
def blockBack {α : Type} (back : Text) (body : List (Block α)) : Text :=
  if notesIn body == 0 && !endsWithParagraph body then back ++ "\n" else []

/-- A footnote around its content. -/
def noteItem (name : Text) (content : List Piece) (back : Text) : List Piece :=
  .verbatim ("<li" ++ attr "id" ("fn-" ++ escapeAddress name) ++ ">") ::
    (content ++ [.verbatim (back ++ "</li>\n")])

end TidyMark.Html
