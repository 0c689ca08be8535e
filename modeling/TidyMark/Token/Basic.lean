import TidyMark.Token.Kind

/-!
# Tokens

A document is a flat sequence of tokens in which blocks stand as pairs of an opening and a closing
token. The inline content of a block is the list of children of one `inline` token, again a flat
sequence.
-/

namespace TidyMark

/-- Where the text of a table column stands. -/
inductive Align where
  | left
  | center
  | right
deriving DecidableEq

/-- One token. Only what belongs to its kind is set; everything else keeps its default. -/
structure Token where
  kind : Kind := .leaf .text
  content : Text := []
  children : List Token := []
  /-- How many constructs are open around the token. -/
  level : Option Nat := none
  href : Text := []
  src : Text := []
  title : Text := []
  alt : Text := []
  align : Option Align := none
  /-- The level of a heading, from 1 to 6. -/
  headingLevel : Nat := 0
  /-- Whether a paragraph stands in a list whose items are not separated by blank lines. -/
  tight : Bool := false
  /-- Whether code is an indented block. -/
  block : Bool := false
  /-- The information after an opening fence. -/
  params : Text := []
  /-- The place of a footnote among the footnotes, from zero. -/
  id : Nat := 0
  /-- The place of a reference among the references to its footnote, from zero. -/
  subId : Nat := 0

namespace Token

instance : Inhabited Token := ⟨{}⟩

/-- The part of the visible text that one token carries. -/
def plain (t : Token) : Text :=
  match t.kind with
  | .leaf .text | .leaf .code | .leaf .sub | .leaf .sup => t.content
  | .leaf .image => t.alt
  | .leaf .softBreak | .leaf .hardBreak => [' ']
  | _ => []

/-- The visible text of a sequence of tokens. -/
def plainText (ts : List Token) : Text :=
  ts.flatMap plain

/-- The inline content of a block; its content is the visible text of its children. -/
def inline (children : List Token) : Token :=
  { kind := .leaf .inline, content := plainText children, children }

end Token

end TidyMark
