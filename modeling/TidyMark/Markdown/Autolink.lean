import TidyMark.Markdown.Entity

/-!
# Addresses in angle brackets

An address or a mail address between angle brackets is a link to itself.
-/

namespace TidyMark.Markdown

def isSchemeChar (c : Char) : Bool :=
  c.isAlphanum || c == '.' || c == '+' || c == '-'

/-- Reads an address with a scheme of 2 to 32 characters up to the closing bracket. -/
def autolinkUrl? (t : Text) : Option Text :=
  let scheme := t.takeWhile isSchemeChar
  let rest := t.drop scheme.length
  let target := (rest.drop 1).takeWhile fun c => 32 < c.toNat && c != '<' && c != '>'
  if t.head?.any Char.isAlpha && 2 ≤ scheme.length && scheme.length ≤ 32 &&
      rest.head? == some ':' && (rest.drop (1 + target.length)).head? == some '>' then
    some (scheme ++ ':' :: target)
  else none

def isMailNameChar (c : Char) : Bool :=
  c.isAlphanum || (".!#$%&'*+/=?^_`\x7b|\x7d~-" : Text).contains c

/-- Whether a part of a domain is well formed: 1 to 63 letters, digits and inner dashes. -/
def isDomainLabel (t : Text) : Bool :=
  t.length ≤ 63 && t.all (fun c => c.isAlphanum || c == '-') &&
    t.head?.any Char.isAlphanum && t.getLast?.any Char.isAlphanum

/-- Reads a mail address up to the closing bracket. -/
def autolinkMail? (t : Text) : Option Text :=
  let name := t.takeWhile isMailNameChar
  match t.drop name.length with
  | '@' :: rest =>
    let domain := rest.takeWhile fun c => c.isAlphanum || c == '-' || c == '.'
    if !name.isEmpty && (rest.drop domain.length).head? == some '>' &&
        (Text.split '.' domain).all isDomainLabel then
      some (name ++ '@' :: domain)
    else none
  | _ => none

end TidyMark.Markdown
