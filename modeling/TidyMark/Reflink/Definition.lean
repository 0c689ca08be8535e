import TidyMark.Reflink.Table

/-!
# Definition lines

A definition stands alone on its line: at most three spaces, a label in brackets, a colon, an
address, which may be in angle brackets, and perhaps a title in quotes or parentheses.
-/

namespace TidyMark.Reflink

/-- A label with the target that a line gives it. -/
structure Definition where
  label : Text
  target : Target
deriving DecidableEq

/-- What follows at most `n` spaces. -/
def dropSpaces : Nat → Text → Text
  | n + 1, ' ' :: rest => dropSpaces n rest
  | _, t => t

/-- A character that can stand in the address of a definition. -/
def isAddressChar (c : Char) : Bool :=
  !isBlank c && c != '>'

/-- Reads an address, one or more characters, and an angle bracket after it. -/
def address? (t : Text) : Option (Text × Text) :=
  match t.takeWhile isAddressChar with
  | [] => none
  | c :: cs =>
    let rest := t.dropWhile isAddressChar
    some (c :: cs, (Text.strip? ">" rest).getD rest)

/-- Reads an address with an angle bracket before it. The bracket belongs to the address where
nothing else would be left of it. -/
def bracketedAddress? (t : Text) : Option (Text × Text) :=
  match t with
  | '<' :: rest => (address? rest).or (address? t)
  | _ => address? t

/-- Reads a title up to its closing mark, when nothing but spaces and tabs follows. -/
def titleUpTo? (close : Char) (t : Text) : Option Text :=
  match t.dropWhile (· != close) with
  | [] => none
  | _ :: rest => if rest.all isIndent then some (t.takeWhile (· != close)) else none

/-- Reads what may follow the address up to the end of the line: nothing or a title. -/
def title? (t : Text) : Option (Option Text) :=
  match t.dropWhile isIndent with
  | [] => some none
  | c :: rest =>
    if t.head?.any isIndent then
      match c with
      | '"' => (titleUpTo? '"' rest).map some
      | '\'' => (titleUpTo? '\'' rest).map some
      | '(' => (titleUpTo? ')' rest).map some
      | _ => none
    else none

/-- Reads the definition that makes up a whole line. -/
def Definition.ofLine? (line : Text) : Option Definition := do
  let rest ← Text.strip? "[" (dropSpaces 3 line)
  let label := rest.takeWhile (· != ']')
  if label.isEmpty then none
  let rest ← Text.strip? "]:" (rest.dropWhile (· != ']'))
  let (url, rest) ← bracketedAddress? (rest.dropWhile isIndent)
  let title ← title? rest
  return ⟨label, ⟨url, title⟩⟩

def isDefinition (line : Text) : Bool :=
  (Definition.ofLine? line).isSome

end TidyMark.Reflink
