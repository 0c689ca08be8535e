import TidyMark.Failure
import TidyMark.Reflink.Bracket
import TidyMark.Reflink.CodeSpan
import TidyMark.Reflink.Definition
import TidyMark.Reflink.Destination
import TidyMark.Reflink.Region

/-!
# Expanding references

The expander turns references whose label is in a table into inline links and leaves every other
character as it is. It works line by line: a line of code and a definition stay as they are, and on
any other line each bracket is judged by what stands around it (`Table.judge`). The result of a
line is a list of edits, which are the line when read as it was (`before_edits`) and the expanded
line when read as it becomes.
-/

namespace TidyMark.Reflink

/-- A piece of an expanded line. -/
inductive Edit where
  | keep (t : Text)
  | link (b : Bracket) (target : Target)
deriving DecidableEq

/-- A bracket as a link to a target: its first brackets followed by the destination. -/
def Bracket.linked (b : Bracket) (target : Target) : Text :=
  b.head ++ target.destination (b.fragment.getD [])

def Edit.before : Edit → Text
  | .keep t => t
  | .link b _ => b.written

def Edit.after : Edit → Text
  | .keep t => t
  | .link b target => b.linked target

/-- What is to be done with a bracket. -/
inductive Verdict where
  | keep
  /-- It is an inline link whose destination, the next `n` characters, is to be kept as well. -/
  | protect (n : Nat)
  /-- A brace follows it that nothing closes. -/
  | malformed
  | link (target : Target)

/-- The label that a bracket is looked up under. -/
def Bracket.key (b : Bracket) : Text :=
  match b.reference with
  | some r => if r.allBlank then b.label else r
  | none => b.label

/-- Judges a bracket by the text before it, given in reverse, and the text after it. -/
def Table.judge (table : Table) (before : Text) (b : Bracket) (after : Text) : Verdict :=
  let bare := b.reference.isNone && b.fragment.isNone
  if before.head? == some '\\' || b.label.head? == some '^' then .keep
  else if bare && after.head? == some '(' then
    match destinationLength? after with
    | some n => .protect n
    | none => .keep
  else if bare && after.head? == some ':' && before.allBlank then .keep
  else if b.fragment.isNone && after.head? == some '\x7b' && !after.contains '\x7d' then .malformed
  else
    match table.resolve b.key with
    | some target => .link target
    | none => .keep

/-- What becomes of a bracket: its edit, the place up to which brackets are kept from then on,
and the place after the bracket where it is malformed. -/
structure Decision where
  edit : Edit
  kept : Nat
  malformed : Option Nat := none

/-- Decides on a bracket that `before`, in reverse, precedes and `after` follows. Nothing is done
to a bracket that meets a code span or begins before the place `kept`. -/
def Table.decide (table : Table) (spans : List Span) (kept : Nat) (before : Text) (b : Bracket)
    (after : Text) : Decision :=
  let start := before.length
  let stop := start + b.written.length
  if start < kept || spans.any (·.meets start stop) then ⟨.keep b.written, kept, none⟩
  else
    match table.judge before b after with
    | .keep => ⟨.keep b.written, kept, none⟩
    | .protect n => ⟨.keep b.written, stop + n, none⟩
    | .malformed => ⟨.keep b.written, kept, some stop⟩
    | .link target => ⟨.link b target, kept, none⟩

/-- An expanded line, and the place after the first malformed bracket on it. -/
structure LineExpansion where
  edits : List Edit
  malformed : Option Nat

/-- Expands the segments that follow `before`, which is given in reverse. -/
def Table.edit (table : Table) (spans : List Span) (kept : Nat) (before : Text) :
    List Segment → LineExpansion
  | [] => ⟨[], none⟩
  | .char c :: rest =>
    let more := table.edit spans kept (c :: before) rest
    ⟨.keep [c] :: more.edits, more.malformed⟩
  | .bracket b :: rest =>
    let here := table.decide spans kept before b (rest.flatMap Segment.written)
    let more := table.edit spans here.kept (b.written.reverse ++ before) rest
    ⟨here.edit :: more.edits, here.malformed.or more.malformed⟩

/-- Expands a line that is neither code nor a definition. -/
def Table.expandLine (table : Table) (line : Text) : LineExpansion :=
  table.edit (codeSpans line) 0 [] (segments line)

def Line.isFixed (line : Line) : Bool :=
  line.inCode || isDefinition line.text

/-- Expands a line, unless it is to be left as it is. -/
def Table.expandIn (table : Table) (line : Line) : LineExpansion :=
  if line.isFixed then ⟨[.keep line.text], none⟩ else table.expandLine line.text

/-- An expanded source, and the line and column of the first brace that nothing closes. -/
structure Expansion where
  text : Text
  malformed : Option (Nat × Nat)

/-- Expands lines, the first of which has the number `number`. -/
def Table.expandLines (table : Table) (number : Nat) : List Line → Expansion
  | [] => ⟨[], none⟩
  | line :: rest =>
    let here := table.expandIn line
    let rest := table.expandLines (number + 1) rest
    ⟨here.edits.flatMap Edit.after ++ line.ending ++ rest.text,
      match here.malformed with
      | some place => some (number, place + 1)
      | none => rest.malformed⟩

/-- Expands the references of a source, with the place of the first malformed one. -/
def Table.expansion (table : Table) (source : Text) : Expansion :=
  table.expandLines 1 (Line.ofSource source)

/-- Expands the references of a source and leaves malformed ones alone. -/
def Table.expandLenient (table : Table) (source : Text) : Text :=
  (table.expansion source).text

/-- Expands the references of a source; in strict mode it must have no malformed ones. -/
def Table.expand (table : Table) (strict : Bool) (source : Text) : Except Failure Text :=
  let result := table.expansion source
  match strict, result.malformed with
  | true, some (line, column) => .error (.unclosedFragment line column)
  | _, _ => .ok result.text

/-- The definitions of a document, outside code. The definition of a footnote is none. -/
def Table.ofDocument (source : Text) : Table :=
  (Line.ofSource source).foldl (fun table line =>
    if line.inCode then table
    else
      match Definition.ofLine? line.text with
      | some d => if d.label.head? == some '^' then table else table.insert d.label d.target
      | none => table) {}

theorem before_decide (table : Table) (spans : List Span) (kept : Nat) (before : Text)
    (b : Bracket) (after : Text) :
    (table.decide spans kept before b after).edit.before = b.written := by
  grind [Table.decide, Edit.before]

theorem before_edit (table : Table) (spans : List Span) (kept : Nat) (before : Text)
    (segs : List Segment) :
    (table.edit spans kept before segs).edits.flatMap Edit.before =
      segs.flatMap Segment.written := by
  induction segs generalizing kept before with
  | nil => rfl
  | cons seg rest ih =>
    cases seg with
    | char c => simpa [Table.edit, Segment.written, Edit.before] using ih _ _
    | bracket b => simp [Table.edit, Segment.written, before_decide, ih]

/-- The edits of a line, read as they were, are the line. -/
theorem before_edits (table : Table) (line : Line) :
    (table.expandIn line).edits.flatMap Edit.before = line.text := by
  unfold Table.expandIn
  split
  · simp [Edit.before]
  · rw [Table.expandLine, before_edit, written_segments]

end TidyMark.Reflink
