import TidyMark.Markdown.EntityName
import TidyMark.Text.Line
import TidyMark.Unicode.Class

/-!
# Character references and backslash escapes

A character reference stands for a character by its name or its number. `plainText` undoes
references and then backslash escapes, the way addresses, titles and info strings are read.
-/

namespace TidyMark.Markdown

def hexValue? (c : Char) : Option Nat :=
  let n := c.toNat
  if c.isDigit then some (n - 48)
  else if 97 ≤ n && n ≤ 102 then some (n - 87)
  else if 65 ≤ n && n ≤ 70 then some (n - 55)
  else none

def hexadecimal (t : Text) : Nat :=
  t.foldl (fun n c => 16 * n + (hexValue? c).getD 0) 0

def charOfCode (code : Text) : Char :=
  Char.ofNat (hexadecimal code)

/-- The one or two characters of every named character reference, by name. -/
def entities : List (Text × Text) :=
  (Text.lines entityNames).filterMap fun line =>
    match Text.words line with
    | [name, code] => some (name, [charOfCode code])
    | [name, code, next] => some (name, [charOfCode code, charOfCode next])
    | _ => none

/-- The character with a number. Zero, surrogates and numbers past the last character give the
replacement character. -/
def charOfReference (n : Nat) : Char :=
  if n == 0 || (0xD800 ≤ n && n ≤ 0xE000) || 0x110000 ≤ n then Char.ofNat 0xFFFD else Char.ofNat n

/-- Reads the digits of a numeric reference, at most seven of them, and its semicolon. -/
def numeric? (digit : Char → Bool) (value : Text → Nat) (t : Text) : Option (Text × Nat) :=
  let digits := t.takeWhile digit
  if 1 ≤ digits.length && digits.length ≤ 7 && (t.drop digits.length).head? == some ';' then
    some ([charOfReference (value digits)], digits.length + 1)
  else none

/-- Reads a character reference after its ampersand, with its length. -/
def entity? (t : Text) : Option (Text × Nat) :=
  match t with
  | '#' :: rest =>
    match rest with
    | 'x' :: digits | 'X' :: digits =>
      (numeric? (fun c => (hexValue? c).isSome) hexadecimal digits).map fun (s, n) => (s, n + 2)
    | _ =>
      (numeric? Char.isDigit (·.foldl (fun n c => 10 * n + (c.toNat - 48)) 0) rest).map
        fun (s, n) => (s, n + 1)
  | _ =>
    let name := t.takeWhile fun c => c != ';' && c != ' '
    if 2 ≤ name.length && (t.drop name.length).head? == some ';' then
      (entities.lookup name).map fun s => (s, name.length + 1)
    else none

/-- Replaces character references; the first `skip` characters belong to one already replaced. -/
def decodeEntities (skip : Nat) : Text → Text
  | [] => []
  | c :: rest =>
    match skip with
    | skip + 1 => decodeEntities skip rest
    | 0 =>
      if c == '&' then
        match entity? rest with
        | some (s, n) => s ++ decodeEntities n rest
        | none => c :: decodeEntities 0 rest
      else c :: decodeEntities 0 rest

/-- Takes away the backslashes that escape a character. -/
def unescape : Text → Text
  | '\\' :: c :: rest =>
    if isAsciiPunctuation c then c :: unescape rest else '\\' :: unescape (c :: rest)
  | c :: rest => c :: unescape rest
  | [] => []

/-- The text that is meant by one with references and escapes. -/
def plainText (t : Text) : Text :=
  unescape (decodeEntities 0 t)

end TidyMark.Markdown
