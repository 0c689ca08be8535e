import TidyMark.Text.Basic

/-!
# Options

What a rendering can be told.
-/

namespace TidyMark

inductive Newline where
  | lineFeed
  | nothing
  | literal (t : Text)
deriving DecidableEq

def Newline.text : Newline → Text
  | .lineFeed => ['\n']
  | .nothing => []
  | .literal t => t

/-- How to render. -/
structure Options where
  /-- Write runs of blank lines as one blank line. -/
  condense : Bool := true
  newline : Newline := .lineFeed
  /-- Targets for labels that the document does not define, ordered by label. -/
  reflinks : List (Text × Text) := []
  /-- Close empty elements of HTML themselves. -/
  xhtml : Bool := false
  /-- What the class of a fenced code block begins with, before its language. -/
  langPrefix : Text := "language-"
  /-- The user name of the author, by which bylines are told. -/
  username : Option Text := none
  /-- The name of the author, by which bylines are told. -/
  name : Option Text := none
  /-- Refuse unknown tokens and malformed references. -/
  strict : Bool := false

namespace Options

/-- Adds a target under its label, in the place of an earlier one. -/
def insertTarget (label url : Text) : List (Text × Text) → List (Text × Text)
  | [] => [(label, url)]
  | (l, u) :: rest =>
    if l == label then (label, url) :: rest
    else if label < l then (label, url) :: (l, u) :: rest
    else (l, u) :: insertTarget label url rest

def withReflink (options : Options) (label url : Text) : Options :=
  { options with reflinks := insertTarget label url options.reflinks }

/-- Names the author; an empty name is none. -/
def withAuthor (options : Options) (username name : Option Text) : Options :=
  { options with
    username := username.filter (!·.isEmpty)
    name := name.filter (!·.isEmpty) }

end Options

end TidyMark
