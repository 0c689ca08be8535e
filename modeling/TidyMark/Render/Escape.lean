import TidyMark.Unicode.Class

/-!
# Escaping literal text

`escape` puts a backslash before the characters of a text that would be read back as markup.
Emphasis markers stay bare where they can neither open nor close a run, a bracket is escaped only
where it would begin an inline link, and a less-than sign only where it reads like a tag. At the
start of a line, what would open a block is escaped as well.
-/

namespace TidyMark.Escape

/-- Whether the text ends, or white space of a line follows. -/
def endsOpener (t : Text) : Bool :=
  t.isEmpty || t.head?.any isIndent

/-- The place of the character to escape in a text that begins like an ordered list item. It is
the place of the delimiter where each digit takes one byte. -/
def ordinalPlace? (t : Text) : Option Nat :=
  let digits := t.takeWhile isDigit
  match t.dropWhile isDigit with
  | d :: rest =>
    if 1 ≤ digits.length && digits.length ≤ 9 && (d == '.' || d == ')') && endsOpener rest then
      some (Text.byteLength digits)
    else none
  | [] => none

/-- Whether a text begins like a heading, quote, bullet list item, setext underline or tilde
fence. -/
def opensBlock (t : Text) : Bool :=
  let run (c : Char) := (t.takeWhile (· == c)).length
  let afterRun (c : Char) := t.dropWhile (· == c)
  match t with
  | [] => false
  | '#' :: _ => run '#' ≤ 6 && endsOpener (afterRun '#')
  | '>' :: _ => true
  | '-' :: rest => endsOpener rest || (afterRun '-').all isIndent
  | '+' :: rest => endsOpener rest
  | '=' :: _ => (afterRun '=').all isIndent
  | '~' :: _ => 3 ≤ run '~'
  | _ => false

/-- What the start of a line makes of the text after it. -/
inductive Start where
  /-- Nothing; also the start of a text inside a line. -/
  | plain
  /-- The first character opens a block. -/
  | opener
  /-- An ordinal opens a list item; this is the place to escape. -/
  | ordinal (place : Nat)
deriving DecidableEq

/-- What a text at the start of a line opens. -/
def Start.ofLine (t : Text) : Start :=
  match ordinalPlace? t with
  | some place => .ordinal place
  | none => if opensBlock t then .opener else .plain

/-- Whether the character at a place is to be escaped for what the line opens. -/
def Start.escapes (start : Start) (place : Nat) : Bool :=
  match start with
  | .plain => false
  | .opener => place == 0
  | .ordinal p => p == place

/-- Whether the next closing bracket is followed by a parenthesis. -/
def opensLink (after : Text) : Bool :=
  match after.dropWhile (· != ']') with
  | _ :: '(' :: _ => true
  | _ => false

/-- Whether the character `c` at `place`, between `before` and `after`, is to be escaped. -/
def needsEscape (start : Start) (place : Nat) (before : Option Char) (c : Char) (after : Text) :
    Bool :=
  let next := after.head?
  let spaced := before.any isBlank && next.any isBlank
  if c == '\\' then next.all isAsciiPunctuation
  else if c == '`' then true
  else if c == '*' then !spaced
  else if c == '_' then !(spaced || before.any isAlphanumeric && next.any isAlphanumeric)
  else if c == '[' then opensLink after
  else if c == '<' then
    next.any fun n => n.isAlpha || n == '/' || n == '!' || n == '?'
  else start.escapes place

/-- Escapes the text at `place`, which follows the character `before`. -/
def escapeFrom (start : Start) (place : Nat) (before : Option Char) : Text → Text
  | [] => []
  | c :: rest =>
    let more := c :: escapeFrom start (place + 1) (some c) rest
    if needsEscape start place before c rest then '\\' :: more else more

/-- Escapes a literal text, at the start of a line or inside one. -/
def escape (lineStart : Bool) (t : Text) : Text :=
  escapeFrom (if lineStart then .ofLine t else .plain) 0 none t

end TidyMark.Escape
