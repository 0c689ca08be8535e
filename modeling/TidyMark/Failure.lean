import TidyMark.Text.Utf8

/-!
# Failures

Why a text cannot be expanded or rendered. Apart from input that is no text, a failure arises in
strict mode only, with one exception: a stream of tokens whose quotes and list items cross each
other may close one of them inside a character.
-/

namespace TidyMark

inductive Failure where
  /-- The input is not UTF-8. -/
  | notUtf8 (fault : Utf8.Fault)
  /-- No rule knows the kind of a token. -/
  | unknownKind (name : Text)
  /-- A reference is followed by a brace that its line does not close. -/
  | unclosedFragment (line column : Nat)
  /-- A quote or list item would begin inside a character. -/
  | splitCharacter

def Failure.message : Failure → String
  | .notUtf8 fault => "invalid argument: input is not valid UTF-8: " ++ fault.message
  | .unknownKind name => s!"unknown token type `{String.ofList name}`"
  | .unclosedFragment line column =>
    s!"malformed reflink syntax at line {line}, column {column}: unclosed `\x7b`"
  | .splitCharacter => "a character would be cut in two"

end TidyMark
