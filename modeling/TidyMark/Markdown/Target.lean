import TidyMark.Markdown.Entity
import TidyMark.Unicode.Fold

/-!
# Labels, addresses and titles

The parts of links, and the definitions at the start of a paragraph, which are made of them.
Readers return what they have read together with the text after it.
-/

namespace TidyMark.Markdown

/-- The most bytes that a label can have. -/
def maxLabel : Nat := 1000

/-- Whether a backslash before this text escapes the character after it. -/
def escapesNext (c : Char) (rest : Text) : Bool :=
  c == '\\' && rest.head?.any isAsciiPunctuation

/-- Reads the rest of a label up to its closing bracket. `used` bytes have been read, and
`escaped` tells whether the first character is escaped. -/
def labelRest? (used : Nat) (escaped : Bool) : Text → Option (Text × Text)
  | [] => none
  | c :: rest =>
    if !escaped && c == ']' then some ([], rest)
    else if !escaped && c == '[' || maxLabel < used + c.utf8Size then none
    else
      (labelRest? (used + c.utf8Size) (!escaped && escapesNext c rest) rest).map
        fun (label, rest) => (c :: label, rest)

/-- Reads a label in brackets. Brackets inside it have to be escaped. -/
def label? : Text → Option (Text × Text)
  | '[' :: rest => (labelRest? 0 false rest).map fun (label, rest) => (Text.trimSpace label, rest)
  | _ => none

/-- Joins runs of white space into one space. -/
def collapseBlanks (afterBlank : Bool) : Text → Text
  | [] => []
  | c :: rest =>
    if isBlank c then
      if afterBlank then collapseBlanks true rest else ' ' :: collapseBlanks true rest
    else c :: collapseBlanks false rest

/-- A label with its white space made regular. -/
def tidyLabel (label : Text) : Text :=
  collapseBlanks false (Text.trimSpace label)

/-- The form in which labels are compared. -/
def labelKey (label : Text) : Text :=
  Text.fold (tidyLabel label)

/-- Reads the rest of an address in angle brackets. -/
def bracketedUrl? : Text → Option (Text × Text)
  | [] | ['\\'] => none
  | '>' :: rest => some ([], rest)
  | '\\' :: c :: rest => (bracketedUrl? rest).map fun (url, rest) => ('\\' :: c :: url, rest)
  | c :: rest =>
    if c == '\n' || c == '<' then none
    else (bracketedUrl? rest).map fun (url, rest) => (c :: url, rest)

/-- The most parentheses that may be open in an address. -/
def maxParentheses : Nat := 32

/-- A character that an address without angle brackets cannot have. -/
def endsUrl (c : Char) : Bool :=
  isSpace c || c.toNat < 32 || c.toNat == 127

/-- Reads an address without angle brackets in which `depth` parentheses are open; `escaped` tells
whether the first character is escaped. -/
def bareUrl? (depth : Nat) (escaped : Bool) : Text → Option (Text × Text)
  | [] => none
  | c :: rest =>
    let more (depth : Nat) :=
      (bareUrl? depth (!escaped && escapesNext c rest) rest).map fun (url, rest) => (c :: url, rest)
    if escaped then more depth
    else if c == '(' then if depth < maxParentheses then more (depth + 1) else none
    else if c == ')' then if depth == 0 then some ([], c :: rest) else more (depth - 1)
    else if endsUrl c then if depth == 0 then some ([], c :: rest) else none
    else more depth

/-- Reads an address, which does not end the text. -/
def url? (t : Text) : Option (Text × Text) :=
  match t with
  | '<' :: rest =>
    match bracketedUrl? rest with
    | some (url, c :: rest) => some (url, c :: rest)
    | _ => none
  | _ => bareUrl? 0 false t

/-- What an address means. -/
def cleanUrl (url : Text) : Text :=
  plainText (Text.trimSpace url)

/-- Reads the rest of a title that is closed by `close`. A closing mark after a backslash counts
only where no later one closes the title; so does every character of `barred`, except that it
never closes it. -/
def titleRest? (close : Char) (barred : Char) (escaped : Bool) : Text → Option (Text × Text)
  | [] => none
  | c :: rest =>
    let more := (titleRest? close barred (c == '\\') rest).map fun (t, rest) => (c :: t, rest)
    if c == close then if escaped then more.or (some ([], rest)) else some ([], rest)
    else if c == barred && !escaped then none
    else more

/-- Reads a title in quotes or parentheses. -/
def title? : Text → Option (Text × Text)
  | '"' :: rest => titleRest? '"' '"' false rest
  | '\'' :: rest => titleRest? '\'' '\'' false rest
  | '(' :: rest => titleRest? ')' '(' false rest
  | _ => none

/-- Where references lead, by the key of their label, first definitions first. -/
structure Definitions where
  entries : List (Text × Text × Text) := []

namespace Definitions

def find? (defs : Definitions) (label : Text) : Option (Text × Text) :=
  defs.entries.lookup (labelKey label)

/-- Adds a definition unless its label is taken or empty. -/
def add (defs : Definitions) (label url title : Text) : Definitions :=
  let key := labelKey label
  if key.isEmpty || (defs.entries.lookup key).isSome then defs
  else ⟨defs.entries ++ [(key, url, title)]⟩

end Definitions

/-- What follows spaces, tabs and at most one line end. -/
def skipLineEnd (t : Text) : Text :=
  match t.dropWhile isIndent with
  | '\n' :: rest => rest.dropWhile isIndent
  | rest => rest

/-- What follows when nothing else is on the line. -/
def restOfLine? (t : Text) : Option Text :=
  match t.dropWhile isIndent with
  | [] => some []
  | '\n' :: rest => some rest
  | _ => none

/-- Reads the title that may follow the address of a definition, up to the end of the line. A title
on a line of its own with other text after it counts, but it also stays where it is. -/
def definitionTitle? (t : Text) : Option (Text × Text) :=
  let rest := skipLineEnd t
  match if rest.length < t.length then title? rest else none with
  | some (title, rest) => ((restOfLine? rest).or (restOfLine? t)).map fun rest => (title, rest)
  | none => (restOfLine? t).map fun rest => ([], rest)

/-- Reads the definition that a paragraph begins with. -/
def Definitions.read? (defs : Definitions) (t : Text) : Option (Definitions × Text) := do
  let (label, rest) ← label? t
  if label.isEmpty then none
  let rest ← Text.strip? ":" rest
  let (url, rest) ← url? (skipLineEnd rest)
  let (title, rest) ← definitionTitle? rest
  return (defs.add label (cleanUrl url) (plainText title), rest)

/-- Reads definitions off the start of a paragraph, at most `n`. -/
def Definitions.readAll (defs : Definitions) : Nat → Text → Definitions × Text
  | 0, t => (defs, t)
  | n + 1, t =>
    match defs.read? t with
    | some (defs, rest) => defs.readAll n rest
    | none => (defs, t)

end TidyMark.Markdown
