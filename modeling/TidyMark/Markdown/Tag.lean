import TidyMark.Text.Blank

/-!
# Tags and other raw HTML

The forms of raw HTML that may stand in a line. Each function takes the text after the less-than
sign and returns what follows the form.
-/

namespace TidyMark.Markdown

/-- A character that a tag name can continue with. -/
def isTagNameChar (c : Char) : Bool :=
  c.isAlphanum || c == '-'

def tagName? (t : Text) : Option Text :=
  if t.head?.any Char.isAlpha then some (t.dropWhile isTagNameChar) else none

def attributeName? (t : Text) : Option Text :=
  if t.head?.any fun c => c.isAlpha || c == '_' || c == ':' then
    some (t.dropWhile fun c => c.isAlphanum || c == ':' || c == '.' || c == '_' || c == '-')
  else none

/-- A character of an attribute value without quotes. -/
def isBareValueChar (c : Char) : Bool :=
  !(isSpace c || "\"'=<>`".toList.contains c)

def quoted? (q : Char) (t : Text) : Option Text :=
  match t.dropWhile (· != q) with
  | _ :: rest => some rest
  | [] => none

def attributeValue? : Text → Option Text
  | '"' :: rest => quoted? '"' rest
  | '\'' :: rest => quoted? '\'' rest
  | t => if t.head?.any isBareValueChar then some (t.dropWhile isBareValueChar) else none

/-- Reads the equals sign and the value that may follow the name of an attribute. -/
def valuePart? (t : Text) : Option Text :=
  match t.dropWhile isSpace with
  | '=' :: rest => attributeValue? (rest.dropWhile isSpace)
  | _ => some t

/-- Reads attributes and the end of an opening tag; at most `n` attributes. -/
def attributes? : Nat → Text → Option Text
  | n, t =>
    let rest := t.dropWhile isSpace
    match rest with
    | '>' :: rest => some rest
    | '/' :: '>' :: rest => some rest
    | _ =>
      match n with
      | 0 => none
      | n + 1 =>
        if t.head?.any isSpace then ((attributeName? rest).bind valuePart?).bind (attributes? n)
        else none

def openTag? (t : Text) : Option Text :=
  (tagName? t).bind fun rest => attributes? rest.length rest

def closeTag? : Text → Option Text
  | '/' :: t =>
    (tagName? t).bind fun rest =>
      match rest.dropWhile isSpace with
      | '>' :: rest => some rest
      | _ => none
  | _ => none

def tag? (t : Text) : Option Text :=
  (openTag? t).or (closeTag? t)

/-- Reads the rest of a comment. Two dashes end it before a greater-than sign; of three dashes or
more, three at a time belong to the comment. -/
def commentEnd? : Text → Option Text
  | '-' :: '-' :: '>' :: rest => some rest
  | '-' :: '-' :: _ :: rest => commentEnd? rest
  | '-' :: '-' :: [] => none
  | _ :: rest => commentEnd? rest
  | [] => none

/-- Reads a comment after its exclamation mark. -/
def comment? : Text → Option Text
  | '-' :: '-' :: '>' :: rest => some rest
  | '-' :: '-' :: '-' :: '>' :: rest => some rest
  | '-' :: '-' :: rest => commentEnd? rest
  | _ => none

/-- Reads the rest of a character data section. Of three brackets or more, three at a time belong
to the section. -/
def sectionEnd? : Text → Option Text
  | ']' :: ']' :: '>' :: rest => some rest
  | ']' :: ']' :: _ :: rest => sectionEnd? rest
  | ']' :: ']' :: [] => none
  | _ :: rest => sectionEnd? rest
  | [] => none

/-- Reads the rest of a processing instruction. A question mark takes the character after it
along, unless the two end the instruction. -/
def instructionEnd? : Text → Option Text
  | '?' :: '>' :: rest => some rest
  | '?' :: _ :: rest => instructionEnd? rest
  | _ :: rest => instructionEnd? rest
  | [] => none

/-- Reads a declaration after its exclamation mark. -/
def declaration? (t : Text) : Option Text :=
  if t.head?.any Char.isAlpha then quoted? '>' t else none

/-- A form of raw HTML that ends with more than a greater-than sign. -/
inductive RawForm where
  | comment
  | section
  | instruction
deriving DecidableEq

/-- What comes of looking for raw HTML. -/
inductive RawHtml where
  /-- Raw HTML, with what follows it. -/
  | found (rest : Text)
  /-- The start of a form that never ends. -/
  | unended (form : RawForm)
  | nothing

/-- What comes of reading a form whose start has been read. -/
def RawHtml.ofEnd (form : RawForm) : Option Text → RawHtml
  | some rest => .found rest
  | none => .unended form

/-- What comes of reading a form that may not be there. -/
def RawHtml.ofOption : Option Text → RawHtml
  | some rest => .found rest
  | none => .nothing

/-- Reads any form of raw HTML. Forms of which one has turned out not to end are not looked for
again; after a comment that does not end nothing is that begins with an exclamation mark. -/
def rawHtml (unended : List RawForm) : Text → RawHtml
  | '!' :: t =>
    if unended.contains .comment then .nothing
    else
      match t with
      | '-' :: '-' :: _ => .ofEnd .comment (comment? t)
      | '[' :: rest =>
        match Text.strip? "CDATA[" rest with
        | some rest =>
          if unended.contains .section then .nothing else .ofEnd .section (sectionEnd? rest)
        | none => .nothing
      | _ => .ofOption (declaration? t)
  | '?' :: t =>
    if unended.contains .instruction then .nothing else .ofEnd .instruction (instructionEnd? t)
  | t => .ofOption (tag? t)

end TidyMark.Markdown
