import TidyMark.Markdown.Document
import TidyMark.Unicode.Class

/-!
# Emphasis

A line of inline content is first read as pieces: content that is finished, and runs of delimiters
of which it is not yet known what they delimit. `Piece.resolve` pairs the runs, from left to right
by their closing run, and makes text of what is left.
-/

namespace TidyMark.Markdown

/-- A run of delimiters. -/
structure Run where
  char : Char
  /-- How many delimiters the run had when it was read. -/
  length : Nat
  /-- How many of them are left. -/
  count : Nat
  canOpen : Bool
  canClose : Bool

/-- A piece of inline content. -/
inductive Piece where
  | node (x : Inline)
  | run (r : Run)

/-- The delimiters that are left of a run, as text. -/
def Run.text (r : Run) : Text :=
  List.replicate r.count r.char

/-- A piece as content, delimiters as text. -/
def Piece.inline : Piece → Inline
  | .node x => x
  | .run r => .text r.text

/-- Whether the lengths of an opening and a closing run keep them from being paired: where one of
them could do both, the sum of their lengths must not be a multiple of three unless both are. -/
def oddMatch (opener closer : Run) : Bool :=
  (closer.canOpen || opener.canClose) && (opener.length + closer.length) % 3 == 0 &&
    !(opener.length % 3 == 0 && closer.length % 3 == 0)

/-- Whether a run can open what another one closes. -/
def Run.opens (opener closer : Run) : Bool :=
  opener.canOpen && opener.char == closer.char && !oddMatch opener closer

/-- Looks back for the run that opens what `closer` closes. The pieces before are given in
reverse; returns the pieces between the two in order, the run and the pieces before it. -/
def findOpener? (closer : Run) (between : List Piece) : List Piece →
    Option (List Piece × Run × List Piece)
  | [] => none
  | .run r :: before =>
    if r.opens closer then some (between, r, before)
    else findOpener? closer (.run r :: between) before
  | .node x :: before => findOpener? closer (.node x :: between) before

/-- What `n` delimiters on each side make of the content between them. -/
def delimited (char : Char) (n : Nat) (content : List Inline) : Inline :=
  if char == '~' then .strikethrough content
  else if char == '^' then .superscript content
  else if n == 1 then .emphasis content
  else .strong content

/-- A run with `n` delimiters less, unless nothing is left of it. -/
def Run.less (r : Run) (n : Nat) : List Piece :=
  if n < r.count then [.run { r with count := r.count - n }] else []

/-- What comes of pairing a closing run. -/
inductive Pairing where
  /-- The pieces up to and with what is left of the run, in reverse. -/
  | done (before : List Piece)
  /-- Two runs that would strike text out differ in length: nothing more is paired. -/
  | mismatch (before : List Piece) (closer : Run)

/-- Pairs a closing run with runs before it, given in reverse, at most `n` times; that is often
enough when the run has `n` delimiters. -/
def pair (closer : Run) (before : List Piece) : Nat → Pairing
  | 0 => .done before
  | n + 1 =>
    if closer.count == 0 then .done before
    else
      match findOpener? closer [] before with
      | none =>
        .done (if closer.canOpen then .run closer :: before else .node (.text closer.text) :: before)
      | some (between, opener, earlier) =>
        if closer.char == '~' && opener.count != closer.count then .mismatch before closer
        else
          let used := if 2 ≤ opener.count && 2 ≤ closer.count then 2 else 1
          let content := delimited closer.char used (between.map Piece.inline)
          pair { closer with count := closer.count - used }
            (.node content :: (opener.less used ++ earlier)) n

/-- Pairs the runs of the pieces that follow `before`, which is given in reverse. -/
def pairAll (before : List Piece) : List Piece → List Piece
  | [] => before
  | .node x :: rest => pairAll (.node x :: before) rest
  | .run r :: rest =>
    if r.canClose then
      match pair r before r.count with
      | .done before => pairAll before rest
      | .mismatch before closer => rest.reverse ++ .run closer :: before
    else pairAll (.run r :: before) rest

def Piece.resolve (pieces : List Piece) : List Inline :=
  (pairAll [] pieces).reverse.map Piece.inline

/-! ### Runs -/

/-- The character next to a run that decides what the run can do. Tildes are looked through, and
the start and the end of the content count as line feeds. -/
def flank (t : Text) : Char :=
  (t.dropWhile (· == '~')).headD '\n'

/-- Reads a run of `n` delimiters between the text before it, given in reverse, and the text after
it. -/
def Run.read (char : Char) (n : Nat) (before after : Text) : Run :=
  let b := flank before
  let a := flank after
  let left := !isBlank a && (!isPunctuation a || isBlank b || isPunctuation b)
  let right := !isBlank b && (!isPunctuation b || isBlank a || isPunctuation a)
  if char == '_' then
    ⟨char, n, n, left && (!right || isPunctuation b), right && (!left || isPunctuation a)⟩
  else ⟨char, n, n, left, right⟩

/-- A run as a piece. A run that can do nothing and tildes in threes or more are text. -/
def Run.piece (r : Run) : Piece :=
  if (r.canOpen || r.canClose) && !(r.char == '~' && 2 < r.length) then .run r
  else .node (.text r.text)

end TidyMark.Markdown
