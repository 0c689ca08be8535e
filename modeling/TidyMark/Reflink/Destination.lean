import TidyMark.Reflink.Table

/-!
# Inline destinations

`Target.destination` writes a target as the parenthesised part of an inline link, and
`destinationLength?` finds where such a part ends.
-/

namespace TidyMark.Reflink

/-- The target in parentheses, the fragment added to its address. A title stands in quotes, or in
parentheses when there is a quote in it. -/
def Target.destination (target : Target) (fragment : Text) : Text :=
  let address : Text := '(' :: target.url ++ fragment
  match target.title with
  | none => address ++ ")"
  | some title =>
    if title.contains '"' then address ++ " (" ++ title ++ "))"
    else address ++ " \"" ++ title ++ "\")"

/-- A character after which a quote opens a title. -/
def opensTitleAfter (c : Char) : Bool :=
  c == ' ' || c == '\t' || c == '\n' || c == '\x0c' || c == '\r'

/-- Counts the characters up to the parenthesis that closes the last open one. `depth` tells how
many are open, `quote` which quote is, and `last` is the character before the text. -/
def destinationFrom (depth : Nat) (quote : Option Char) (last : Option Char) : Text → Option Nat
  | [] => none
  | ['\\'] => none
  | '\\' :: c :: rest => (destinationFrom depth quote (some c) rest).map (· + 2)
  | c :: rest =>
    let more (depth : Nat) (quote : Option Char) :=
      (destinationFrom depth quote (some c) rest).map (· + 1)
    match quote with
    | some q => more depth (if c == q then none else some q)
    | none =>
      if (c == '"' || c == '\'') && depth == 1 && last.any opensTitleAfter then more depth (some c)
      else if c == '(' then more (depth + 1) none
      else if c == ')' then if depth ≤ 1 then some 1 else more (depth - 1) none
      else more depth none

/-- The length of the inline destination that a text begins with, in characters, title included;
`none` when its parentheses do not close. -/
def destinationLength? (t : Text) : Option Nat :=
  destinationFrom 0 none none t

end TidyMark.Reflink
