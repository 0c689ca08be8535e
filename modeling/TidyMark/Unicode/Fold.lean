import TidyMark.Unicode.CaseFold
import TidyMark.Unicode.Casing
import TidyMark.Unicode.Lowercase
import TidyMark.Unicode.Ranges
import TidyMark.Text.Basic

/-!
# Case mappings of texts

`toLower` is the full lower case of a text and `fold` its full case folding. They differ in the
sharp s, which only folding expands, and in the capital sigma, whose lower case depends on whether
it ends a word.
-/

namespace TidyMark.Text

open Unicode

/-- Whether the next character that counts for case, if there is one, has a case. -/
def meetsCased (t : Text) : Bool :=
  match t.dropWhile caseIgnorable.has with
  | [] => false
  | c :: _ => cased.has c

/-- The lower case of a character: one character, except for the capital I with a dot. -/
def lowerChar (c : Char) : Text :=
  if c.toNat < 128 then [c.toLower]
  else if c.toNat == 0x130 then ['i', Char.ofNat 0x307]
  else [(sendRuns? lowercaseRuns c).getD c]

/-- The lower case of a text that follows `before`, which is given in reverse. -/
def lowerAfter (before : Text) : Text → Text
  | [] => []
  | c :: rest =>
    let lower :=
      if c == 'Σ' then if meetsCased before && !meetsCased rest then ['ς'] else ['σ']
      else lowerChar c
    lower ++ lowerAfter (c :: before) rest

/-- The lower case of a text. A capital sigma at the end of a word becomes a final sigma. -/
def toLower (t : Text) : Text :=
  lowerAfter [] t

/-- The case folding of a character. -/
def foldChar (c : Char) : Text :=
  if c.toNat < 128 then [c.toLower] else
  match foldExpansions.lookup c.toNat with
  | some codes => codes.map Char.ofNat
  | none => [(sendRuns? foldRuns c).getD c]

/-- The case folding of a text: texts that differ in case only have the same one. -/
def fold (t : Text) : Text :=
  t.flatMap foldChar

end TidyMark.Text
