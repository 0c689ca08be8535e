import TidyMark.Text.Blank
import TidyMark.Unicode.Fold

/-!
# The table of link targets

A table keeps one target for each label, in the order in which the labels came. A label resolves
to the target under exactly that label, or else to the first target whose label is the same up to
case and white space. A later target for a label that is already there is not taken up.
-/

namespace TidyMark.Reflink

/-- Where a reference link goes. -/
structure Target where
  url : Text
  title : Option Text := none
deriving DecidableEq

/-- The form in which labels are compared up to case and white space. -/
def normalize (label : Text) : Text :=
  Text.toLower (Text.join " " (Text.words label))

/-- Labels with their targets, oldest first. -/
structure Table where
  entries : List (Text × Target) := []

namespace Table

/-- Whether the table has a target under exactly this label. -/
def has (table : Table) (label : Text) : Bool :=
  table.entries.any fun (l, _) => l == label

/-- Adds a target unless its label is taken. -/
def insert (table : Table) (label : Text) (target : Target) : Table :=
  if table.has label then table else ⟨table.entries ++ [(label, target)]⟩

/-- Adds a target as `insert` does and tells whether the label was new. -/
def insertNew (table : Table) (label : Text) (target : Target) : Bool × Table :=
  (!table.has label, table.insert label target)

/-- The target under exactly this label, or else the first one under an equivalent label. -/
def resolve (table : Table) (label : Text) : Option Target :=
  match table.entries.find? fun (l, _) => l == label with
  | some (_, target) => some target
  | none =>
    let key := normalize label
    (table.entries.find? fun (l, _) => normalize l == key).map (·.2)

def size (table : Table) : Nat :=
  table.entries.length

def isEmpty (table : Table) : Bool :=
  table.entries.isEmpty

/-- Adds the targets of labels that the table does not have yet. White space around an address
does not count. -/
def withContext (table : Table) (context : List (Text × Text)) : Table :=
  context.foldl (fun table (label, url) => table.insert label ⟨Text.trim url, none⟩) table

end Table

end TidyMark.Reflink
