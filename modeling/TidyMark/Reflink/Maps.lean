import Mathlib.Data.List.Basic
import TidyMark.Reflink.Basic

/-!
# The two maps of link targets

The targets of labels can be kept in two maps: under the labels as they are written, and under what
they are up to case and white space. Under either key the target that came first stays.
-/

namespace TidyMark.Reflink

/-- A text is hashed as the string that it is. -/
instance : Hashable Text where
  hash t := hash (String.ofList t)

/-- Targets under their labels, and under what the labels are up to case and white space. -/
structure Maps where
  exact : Std.HashMap Text Target := {}
  folded : Std.HashMap Text Target := {}

namespace Maps

/-- Adds a target unless its label is taken, and tells whether the label was new. -/
def insert (maps : Maps) (label : Text) (target : Target) : Bool × Maps :=
  if maps.exact.contains label then (false, maps)
  else
    (true, ⟨maps.exact.insert label target, maps.folded.insertIfNew (normalize label) target⟩)

def resolve (maps : Maps) (label : Text) : Option Target :=
  maps.exact[label]?.or maps.folded[normalize label]?

def size (maps : Maps) : Nat :=
  maps.exact.size

def isEmpty (maps : Maps) : Bool :=
  maps.exact.isEmpty

def withContext (maps : Maps) (context : List (Text × Text)) : Maps :=
  context.foldl (fun maps (label, url) => (maps.insert label ⟨Text.trim url, none⟩).2) maps

/-- Maps with the definition that a line makes, if it makes one. -/
def takeUp (maps : Maps) (line : Line) : Maps :=
  if line.inCode then maps
  else
    match Definition.ofLine? line.text with
    | some d => if d.label.head? == some '^' then maps else (maps.insert d.label d.target).2
    | none => maps

def ofDocument (source : Text) : Maps :=
  (Line.ofSource source).foldl takeUp {}

def forSource (options : Options) (source : Text) : Maps :=
  (ofDocument source).withContext options.reflinks

end Maps

end TidyMark.Reflink
