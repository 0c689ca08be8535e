import TidyMark.Render.Sight
import TidyMark.Unicode.Class

/-!
# Addresses of links and images

A text directly after a link or an image may begin with a fragment in braces. The fragment goes
into the address before it and out of the text, and braces around a part of an address are taken
off. The functions here say what becomes of the tokens; what is written goes by the tokens as they
are then.
-/

namespace TidyMark.Render

/-- Takes a fragment in braces off the start of a text. A space stays where the rest would run into
what the fragment belonged to. -/
def takeFragment? : Text → Option (Text × Text)
  | '\x7b' :: t =>
    match t.takeWhile (· != '\x7d'), t.dropWhile (· != '\x7d') with
    | c :: fragment, _ :: rest =>
      some (c :: fragment, if rest.head?.any isWordChar then ' ' :: rest else rest)
    | _, _ => none
  | _ => none

/-- The fragment that the first of the tokens begins with, if it is a text. -/
def fragmentOf? : List Token → Option Text
  | t :: _ => if t.kind == .leaf .text then (takeFragment? t.content).map (·.1) else none
  | [] => none

/-- A text without the fragment that it begins with; any other token as it is. -/
def withoutFragment (t : Token) : Token :=
  if t.kind == .leaf .text then
    match takeFragment? t.content with
    | some (_, rest) => { t with content := rest }
    | none => t
  else t

/-- What follows the closing token of the link that is open, when `depth` links are open in it. -/
def afterLink? (depth : Nat) : List Token → Option (List Token)
  | [] => none
  | t :: rest =>
    match t.kind, depth with
    | .opening .link, _ => afterLink? (depth + 1) rest
    | .closing .link, 0 => some rest
    | .closing .link, depth + 1 => afterLink? depth rest
    | _, _ => afterLink? depth rest

/-- The fragment after the link that opens before these tokens. -/
def linkFragment? (after : List Token) : Option Text :=
  (afterLink? 0 after).bind fragmentOf?

/-- Takes the first pair of braces with something between them out of an address. -/
def unwrapBraces : Text → Text
  | [] => []
  | c :: rest =>
    if c == '\x7b' then
      match rest.takeWhile (· != '\x7d'), rest.dropWhile (· != '\x7d') with
      | d :: inner, _ :: tail => d :: inner ++ tail
      | _, _ => c :: unwrapBraces rest
    else c :: unwrapBraces rest

/-- The address of a link that has none: it leads to the anchor that its text names. -/
def anchorOf (after : List Token) : Text :=
  match after with
  | next :: _ => if next.content.isEmpty then [] else '#' :: next.content
  | [] => []

def settleLink (t : Token) (after : List Token) : Token :=
  let href := if t.href.isEmpty then anchorOf after else t.href
  { t with href := unwrapBraces (href ++ (linkFragment? after).getD []) }

def settleImage (t : Token) (after : List Token) : Token :=
  { t with src := unwrapBraces (t.src ++ (fragmentOf? after).getD []) }

/-- An address with its title in quotes. -/
def destination (url title : Text) : Text :=
  if title.isEmpty then url
  else url ++ " \"" ++ Text.replaceChar '"' "\\\"" title ++ "\""

end TidyMark.Render
