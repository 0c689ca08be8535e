import TidyMark.Proofs.Splice

/-!
# One pass makes the expansion

The pass over a source collects the replacements that its edits say (`passLines_eq`), since the
bytes that it counts are those of the edits before. Copying the source with them in their places
never fails and gives the expanded source, with the same malformed reference (`rewrite?_eq`).
-/

namespace TidyMark.Reflink

open Text

/-- What a pass comes to when it meets edits from the byte `start` on, and then what may be
malformed. -/
def Pass.extend (pass : Pass) (start : Nat) (es : List Edit) (malformed : Option (Nat × Nat)) :
    Pass :=
  ⟨pass.replacements ++ Edit.replacements start es, pass.malformed.or malformed⟩

section Passing

variable {table : Table}

theorem Pass.extend_keep (pass : Pass) (start : Nat) (t : Text) (es : List Edit)
    (malformed : Option (Nat × Nat)) : pass.extend start (.keep t :: es) malformed =
      pass.extend (start + byteLength t) es malformed := rfl

theorem Pass.extend_link (pass : Pass) (start : Nat) (b : Bracket) (target : Target)
    (es : List Edit) (malformed : Option (Nat × Nat)) :
    pass.extend start (.link b target :: es) malformed =
      (pass.replace ⟨start, start + byteLength b.written, b.linked target⟩).extend
        (start + byteLength b.written) es malformed := by
  simp only [extend, replace, Edit.replacements, List.append_assoc, List.singleton_append]

theorem Pass.extend_note (pass : Pass) (start line column : Nat) (es : List Edit)
    (malformed : Option (Nat × Nat)) :
    pass.extend start es ((some (line, column)).or malformed) =
      (pass.note line column).extend start es malformed := by
  simp only [extend, note, Option.or_assoc]

theorem Pass.extend_append (pass : Pass) (start : Nat) (es es' : List Edit)
    (malformed malformed' : Option (Nat × Nat)) :
    (pass.extend start es malformed).extend (start + byteLength (es.flatMap Edit.before)) es'
      malformed' = pass.extend start (es ++ es') (malformed.or malformed') := by
  simp only [extend, replacements_append, List.append_assoc, Option.or_assoc]

theorem Pass.extend_concat_keep (pass : Pass) (start : Nat) (es : List Edit) (t : Text)
    (malformed : Option (Nat × Nat)) :
    pass.extend start (es ++ [.keep t]) malformed = pass.extend start es malformed := by
  simp only [extend, replacements_append, Edit.replacements, List.append_nil]

/-- The pass over a line meets the edits of the line. -/
theorem passLine_eq (spans : List Span) (number base : Nat) (segs : List Segment) :
    ∀ (kept : Nat) (before : Text) (pass : Pass),
      table.passLine spans number base kept before pass segs =
        pass.extend (base + byteLength before) (table.edit spans kept before segs).edits
          ((table.edit spans kept before segs).malformed.map fun place => (number, place + 1)) := by
  induction segs with
  | nil =>
    intro kept before pass
    simp [Table.passLine, Table.edit, Pass.extend, Edit.replacements]
  | cons seg rest ih =>
    intro kept before pass
    cases seg with
    | char c =>
      rw [Table.passLine, ih, Table.edit, Pass.extend_keep, byteLength_cons, byteLength_cons,
        byteLength_nil, Nat.add_zero, Nat.add_comm c.utf8Size, Nat.add_assoc]
    | bracket b =>
      have hnext : base + byteLength (b.written.reverse ++ before) =
          base + byteLength before + byteLength b.written := by
        rw [byteLength_append, byteLength_reverse, Nat.add_comm (byteLength b.written),
          Nat.add_assoc]
      rw [Table.passLine, Table.edit, Table.decide]
      dsimp only
      split_ifs
      · rw [ih, hnext, Pass.extend_keep, Option.none_or]
      · cases table.judge before b (rest.flatMap Segment.written) with
        | keep =>
          dsimp only
          rw [ih, hnext, Pass.extend_keep, Option.none_or]
        | protect n =>
          dsimp only
          rw [ih, hnext, Pass.extend_keep, Option.none_or]
        | malformed =>
          dsimp only
          rw [ih, hnext, Pass.extend_keep, Option.map_or, Option.map_some, Pass.extend_note]
        | link target =>
          dsimp only
          rw [ih, hnext, Pass.extend_link, Option.none_or]

theorem passLines_cons (number base : Nat) (pass : Pass) (line : Line) (lines : List Line) :
    table.passLines number base pass (line :: lines) =
      table.passLines (number + 1) (base + byteLength (line.text ++ line.ending))
        (pass.extend base (table.editsIn line)
          ((table.expandIn line).malformed.map fun place => (number, place + 1))) lines := by
  rw [Table.editsIn, Pass.extend_concat_keep, Table.passLines, Table.expandIn]
  split_ifs
  · rw [Pass.extend_keep, Option.map_none, Pass.extend, Edit.replacements, List.append_nil,
      Option.or_none]
  · dsimp only
    rw [passLine_eq, byteLength_nil, Nat.add_zero base, Table.expandLine]

/-- The pass over lines meets the edits of all of them. -/
theorem passLines_eq (lines : List Line) : ∀ (number base : Nat) (pass : Pass),
    table.passLines number base pass lines =
      pass.extend base (lines.flatMap table.editsIn) (table.expandLines number lines).malformed := by
  induction lines with
  | nil =>
    intro number base pass
    simp [Table.passLines, Table.expandLines, Pass.extend, Edit.replacements]
  | cons line lines ih =>
    intro number base pass
    rw [passLines_cons, ih, ← flatMap_before_editsIn table, Pass.extend_append,
      List.flatMap_cons, Table.expandLines]
    congr 1
    cases (table.expandIn line).malformed <;> rfl

end Passing

/-- One pass and one copy give the expanded source with the place of the first malformed reference;
the copy never fails. -/
theorem rewrite?_eq (table : Table) (source : Text) : table.rewrite? source =
    some ((table.expansion source).text, (table.expansion source).malformed) := by
  have hpass : table.passLines 1 0 {} (Line.ofSource source) =
      ⟨table.replacements source, (table.expansion source).malformed⟩ := passLines_eq _ 1 0 {}
  rw [Table.rewrite?, hpass]
  dsimp only
  rw [splice?_source]
  rfl

end TidyMark.Reflink
