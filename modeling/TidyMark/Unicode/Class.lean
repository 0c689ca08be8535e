import TidyMark.Unicode.Alphabetic
import TidyMark.Unicode.Mark
import TidyMark.Unicode.Number
import TidyMark.Unicode.Punctuation
import TidyMark.Text.Blank

/-!
# Character classes

The classes of characters that the rules ask for. Each is decided for ASCII directly and looked up
in the tables otherwise.
-/

namespace TidyMark

open Unicode

/-- The ASCII punctuation characters, those that a backslash can escape. -/
def isAsciiPunctuation (c : Char) : Bool :=
  let n := c.toNat
  (33 ≤ n && n ≤ 47) || (58 ≤ n && n ≤ 64) || (91 ≤ n && n ≤ 96) || (123 ≤ n && n ≤ 126)

/-- A character below U+0080. -/
def isAscii (c : Char) : Bool :=
  c.toNat < 128

/-- A letter or number of any script. -/
def isAlphanumeric (c : Char) : Bool :=
  if isAscii c then c.isAlphanum else alphabetic.has c || number.has c

/-- A letter or number of any script, or an underscore. -/
def isWordChar (c : Char) : Bool :=
  c == '_' || isAlphanumeric c

/-- A character that words are made of where a word boundary is looked for. -/
def inWord (c : Char) : Bool :=
  if isAscii c then c == '_' || c.isAlphanum
  else alphabetic.has c || mark.has c || decimalDigit.has c || connector.has c

/-- A decimal digit of any script. -/
def isDigit (c : Char) : Bool :=
  if isAscii c then c.isDigit else decimalDigit.has c

/-- Punctuation or a symbol of any script. -/
def isPunctuation (c : Char) : Bool :=
  if isAscii c then isAsciiPunctuation c else punctuation.has c

end TidyMark
