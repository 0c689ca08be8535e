import TidyMark.Reflink.Expansion

/-!
# Expansion in one pass

The pass over a source counts the bytes before each line. It collects the stretches of the source
that are to be replaced and the place of the first brace that nothing closes, and then copies the
source with the replacements in their places.
-/

namespace TidyMark.Reflink

open Text

/-- A stretch of a source, in bytes, and what takes its place. -/
structure Replacement where
  start : Nat
  stop : Nat
  text : Text
deriving DecidableEq

/-- Copies a source from byte `pos` on, with each replacement in the place of its stretch. It fails
where the stretch between two replacements is none that the source could be cut at. -/
def splice? (source : Text) (pos : Nat) : List Replacement → Option Text
  | [] => source.slice? pos source.byteLength
  | r :: rest =>
    (source.slice? pos r.start).bind fun kept =>
      (splice? source r.stop rest).map fun more => kept ++ r.text ++ more

/-- What a pass has come across: the replacements, in their order, and the line and column of the
first brace that nothing closes. -/
structure Pass where
  replacements : List Replacement := []
  malformed : Option (Nat × Nat) := none

def Pass.replace (pass : Pass) (r : Replacement) : Pass :=
  { pass with replacements := pass.replacements ++ [r] }

def Pass.note (pass : Pass) (line column : Nat) : Pass :=
  { pass with malformed := pass.malformed.or (some (line, column)) }

/-- Goes through the segments behind `before`, which is given in reverse, of the line `number`,
whose first byte is `base`. Brackets that begin before the place `kept` are passed over. -/
def Table.passLine (table : Table) (spans : List Span) (number base kept : Nat) (before : Text)
    (pass : Pass) : List Segment → Pass
  | [] => pass
  | .char c :: rest => table.passLine spans number base kept (c :: before) pass rest
  | .bracket b :: rest =>
    let start := before.length
    let stop := start + b.written.length
    let next := b.written.reverse ++ before
    if start < kept || spans.any (·.meets start stop) then
      table.passLine spans number base kept next pass rest
    else
      match table.judge before b (rest.flatMap Segment.written) with
      | .keep => table.passLine spans number base kept next pass rest
      | .protect n => table.passLine spans number base (stop + n) next pass rest
      | .malformed =>
        table.passLine spans number base kept next (pass.note number (stop + 1)) rest
      | .link target =>
        let r := ⟨base + byteLength before, base + byteLength next, b.linked target⟩
        table.passLine spans number base kept next (pass.replace r) rest

/-- Goes through lines, the first of which is the line `number` and begins at the byte `base`. -/
def Table.passLines (table : Table) (number base : Nat) (pass : Pass) : List Line → Pass
  | [] => pass
  | line :: rest =>
    let next := base + byteLength (line.text ++ line.ending)
    if line.isFixed then table.passLines (number + 1) next pass rest
    else
      let spans := codeSpans line.text
      table.passLines (number + 1) next
        (table.passLine spans number base 0 [] pass (segments line.text)) rest

/-- Expands the references of a source, with the place of the first malformed one. It fails where
the source cannot be cut as the replacements say. -/
def Table.rewrite? (table : Table) (source : Text) : Option (Text × Option (Nat × Nat)) :=
  let pass := table.passLines 1 0 {} (Line.ofSource source)
  (splice? source 0 pass.replacements).map fun text => (text, pass.malformed)

end TidyMark.Reflink
