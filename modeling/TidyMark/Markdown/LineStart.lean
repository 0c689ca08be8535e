import TidyMark.Markdown.Cursor

/-!
# How lines begin

The beginnings of lines that open, continue or close a block. All functions take what follows the
indentation of a line.
-/

namespace TidyMark.Markdown

/-- The length of the run of `c` that a text begins with. -/
def runLength (c : Char) (t : Text) : Nat :=
  (t.takeWhile (· == c)).length

/-- Whether a line is a thematic break: three or more of one of three marks, with nothing but
spaces and tabs between them. -/
def isRule (t : Text) : Bool :=
  match t with
  | [] => false
  | c :: _ =>
    (c == '*' || c == '_' || c == '-') && t.all (fun d => d == c || isIndent d) &&
      3 ≤ (t.filter (· == c)).length

/-- The level of a heading that begins with number signs, and the number of characters before its
text. -/
def numberSigns? (t : Text) : Option (Nat × Nat) :=
  let level := runLength '#' t
  let rest := t.drop level
  if 1 ≤ level && level ≤ 6 && (rest.isEmpty || rest.head?.any isIndent) then
    some (level, level + (rest.takeWhile isIndent).length)
  else none

/-- The level of the heading that a line of equals signs or dashes makes of the paragraph before
it. -/
def underline? (t : Text) : Option Nat :=
  let underlines (c : Char) := t.head? == some c && (t.dropWhile (· == c)).all isIndent
  if underlines '=' then some 1 else if underlines '-' then some 2 else none

/-- The text of a heading without the number signs that close it. -/
def chopNumberSigns (t : Text) : Text :=
  let t := Text.trimSpaceEnd t
  let body := Text.dropEndWhile (· == '#') t
  match body.getLast? with
  | none => []
  | some c => if body.length < t.length && isIndent c then Text.trimSpaceEnd body else t

/-- The mark and the length of a fence that opens a code block. A line with a backtick after its
backticks opens none. -/
def fence? (t : Text) : Option (Char × Nat) :=
  match t with
  | '`' :: _ =>
    let n := runLength '`' t
    if 3 ≤ n && !(t.drop n).contains '`' then some ('`', n) else none
  | '~' :: _ =>
    let n := runLength '~' t
    if 3 ≤ n then some ('~', n) else none
  | _ => none

/-- Whether a line closes a fence of `length` marks. -/
def closesFence (mark : Char) (length : Nat) (t : Text) : Bool :=
  3 ≤ runLength mark t && length ≤ runLength mark t && (t.dropWhile (· == mark)).all isIndent

/-- The marker of a list item. -/
inductive ListMarker where
  | bullet (c : Char)
  | ordinal (start : Nat) (delimiter : Char)
deriving DecidableEq

/-- Whether items with these markers can stand in one list. -/
def ListMarker.matches : ListMarker → ListMarker → Bool
  | .bullet c, .bullet d => c == d
  | .ordinal _ d, .ordinal _ e => d == e
  | _, _ => false

def decimal (digits : Text) : Nat :=
  digits.foldl (fun n d => 10 * n + (d.toNat - 48)) 0

/-- Whether a marker may end before this text. Where it interrupts a paragraph, the item must not
begin with a blank line. -/
def endsListMarker (interrupts : Bool) (rest : Text) : Bool :=
  (rest.isEmpty || rest.head?.any isSpace) && !(interrupts && rest.all isIndent)

/-- Reads the marker of a list item, with its length. A list that interrupts a paragraph is
numbered from one. -/
def listMarker? (interrupts : Bool) (t : Text) : Option (ListMarker × Nat) :=
  match t with
  | [] => none
  | c :: rest =>
    if c == '*' || c == '-' || c == '+' then
      if endsListMarker interrupts rest then some (.bullet c, 1) else none
    else
      let digits := (t.takeWhile Char.isDigit).take 9
      match t.drop digits.length with
      | d :: rest =>
        if !digits.isEmpty && (d == '.' || d == ')') && endsListMarker interrupts rest &&
            !(interrupts && decimal digits != 1) then
          some (.ordinal (decimal digits) d, digits.length + 1)
        else none
      | [] => none

/-- Reads the label of a footnote definition, with the number of characters before its content. -/
def footnoteLabel? (t : Text) : Option (Text × Nat) :=
  match t with
  | '[' :: '^' :: rest =>
    let label := rest.takeWhile fun c => c != ']' && !isIndent c
    match rest.drop label.length with
    | ']' :: ':' :: after =>
      if label.isEmpty then none
      else some (label, 2 + label.length + 2 + (after.takeWhile isIndent).length)
    | _ => none
  | _ => none

/-- The number of characters before the content of details: a colon or tilde and white space. -/
def detailsMarker? (t : Text) : Option Nat :=
  match t with
  | c :: rest =>
    let n := (rest.takeWhile isIndent).length
    if (c == ':' || c == '~') && 0 < n then some (1 + n) else none
  | [] => none

end TidyMark.Markdown
