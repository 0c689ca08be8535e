import TidyMark.Text.Basic

/-!
# Kinds of tokens

A token opens or closes a construct, or stands for itself. The vocabulary is closed; a token of a
kind outside it carries the name of its kind.
-/

namespace TidyMark

/-- What lies between an opening and a closing token. -/
inductive Construct where
  | blockquote
  | heading
  | bulletList
  | orderedList
  | listItem
  | paragraph
  | link
  | table
  | tableHead
  | tableBody
  | tableRow
  | headerCell
  | dataCell
  | strong
  | emphasis
  | deleted
  | inserted
  | marked
  | abbreviation
  | footnoteBlock
  | footnote
  | descriptionList
  | descriptionTerm
  | descriptionDetails
deriving DecidableEq

/-- A token that stands for itself. -/
inductive Leaf where
  /-- The inline content of a block; its own children are the content. -/
  | inline
  | code
  | fence
  | rule
  | image
  | sub
  | sup
  | hardBreak
  | softBreak
  | text
  | htmlBlock
  | htmlTag
  | footnoteRef
  | footnoteAnchor
deriving DecidableEq

/-- The kind of a token. -/
inductive Kind where
  | opening (c : Construct)
  | closing (c : Construct)
  | leaf (l : Leaf)
  | unknown (name : Text)
deriving DecidableEq

def Construct.name : Construct → Text
  | .blockquote => "blockquote"
  | .heading => "heading"
  | .bulletList => "bullet_list"
  | .orderedList => "ordered_list"
  | .listItem => "list_item"
  | .paragraph => "paragraph"
  | .link => "link"
  | .table => "table"
  | .tableHead => "thead"
  | .tableBody => "tbody"
  | .tableRow => "tr"
  | .headerCell => "th"
  | .dataCell => "td"
  | .strong => "strong"
  | .emphasis => "em"
  | .deleted => "del"
  | .inserted => "ins"
  | .marked => "mark"
  | .abbreviation => "abbr"
  | .footnoteBlock => "footnote_block"
  | .footnote => "footnote"
  | .descriptionList => "dl"
  | .descriptionTerm => "dt"
  | .descriptionDetails => "dd"

def Leaf.name : Leaf → Text
  | .inline => "inline"
  | .code => "code"
  | .fence => "fence"
  | .rule => "hr"
  | .image => "image"
  | .sub => "sub"
  | .sup => "sup"
  | .hardBreak => "hardbreak"
  | .softBreak => "softbreak"
  | .text => "text"
  | .htmlBlock => "htmlblock"
  | .htmlTag => "htmltag"
  | .footnoteRef => "footnote_ref"
  | .footnoteAnchor => "footnote_anchor"

/-- The name of a kind in the vocabulary. -/
def Kind.name : Kind → Text
  | .opening c => c.name ++ "_open"
  | .closing c => c.name ++ "_close"
  | .leaf l => l.name
  | .unknown name => name

def Kind.isParagraph (k : Kind) : Bool :=
  k == .opening .paragraph || k == .closing .paragraph

def Construct.all : List Construct :=
  [.blockquote, .heading, .bulletList, .orderedList, .listItem, .paragraph, .link, .table,
    .tableHead, .tableBody, .tableRow, .headerCell, .dataCell, .strong, .emphasis, .deleted,
    .inserted, .marked, .abbreviation, .footnoteBlock, .footnote, .descriptionList,
    .descriptionTerm, .descriptionDetails]

def Leaf.all : List Leaf :=
  [.inline, .code, .fence, .rule, .image, .sub, .sup, .hardBreak, .softBreak, .text, .htmlBlock,
    .htmlTag, .footnoteRef, .footnoteAnchor]

/-- Every kind of the vocabulary. -/
def Kind.vocabulary : List Kind :=
  Construct.all.flatMap (fun c => [.opening c, .closing c]) ++ Leaf.all.map .leaf

/-- The kind of the vocabulary that has this name. -/
def Kind.ofName? (name : Text) : Option Kind :=
  vocabulary.find? fun k => k.name == name

end TidyMark
