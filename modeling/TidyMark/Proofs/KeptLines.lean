import TidyMark.Proofs.Marks

/-!
# The lines of an expanded source

An expanded source has a line for each line of the source, and expansion works on each of them by
itself (`Line.Kept`). A target with a backtick can still change which code spans are found behind
it: the backtick pairs up with one that opened a code span before
(`not_forall_codeTexts_expandLenient`).
-/

namespace TidyMark.Reflink

/-- What a line and the line in its place in the expanded source have in common. -/
structure Line.Kept (table : Table) (line line' : Line) : Prop where
  inCode : line'.inCode = line.inCode
  ending : line'.ending = line.ending
  fixed : line.inCode = true ∨ isDefinition line.text = true → line'.text = line.text
  /-- Only brackets that meet no code span have become something else. -/
  relinked : table.Relinks (codeSpans line.text) 0 line.text line'.text
  spans : (∀ b target, .link b target ∈ (table.expandIn line).edits → target.Avoids '`') →
    codeTexts line'.text = codeTexts line.text

theorem codeTexts_expandedText {table : Table} {line : Line}
    (h : ∀ b target, .link b target ∈ (table.expandIn line).edits → target.Avoids '`') :
    codeTexts (table.expandedText line) = codeTexts line.text := by
  rw [Table.expandedText]
  unfold Table.expandIn at h ⊢
  split_ifs at h ⊢
  · rw [List.flatMap_singleton, Edit.after]
  · exact codeTexts_edits h

theorem kept_expandedText (table : Table) (line : Line) :
    line.Kept table (line.withText (table.expandedText line)) where
  inCode := rfl
  ending := rfl
  fixed := expandedText_of_fixed
  relinked := relinks_expandedText table line
  spans := codeTexts_expandedText

/-- With targets that have no line feed, an expanded source has a line for each line of the source:
it is code exactly where that is, and as it was where that is code or a definition. On any other
line only brackets outside code spans have changed, and the code spans of the new line are those of
the old one unless a target that was linked on it has a backtick. -/
theorem expandLenient_keepsCode (table : Table) (ht : table.Avoids '\n') (source : Text) :
    List.Forall₂ (Line.Kept table) (Line.ofSource source)
      (Line.ofSource (table.expandLenient source)) := by
  rw [ofSource_expandLenient ht, List.forall₂_map_right_iff, List.forall₂_same]
  exact fun line _ => kept_expandedText table line

theorem expandLenient_keepsCode_reference :
    Table.expandLenient ⟨[("a", ⟨"/u", some "t"⟩)]⟩ "`[a]` [a]\n\n    [a]\n\n[b]: [a]\n" =
      "`[a]` [a](/u \"t\")\n\n    [a]\n\n[b]: [a]\n".toList ∧
    List.Forall₂ (Line.Kept ⟨[("a", ⟨"/u", some "t"⟩)]⟩)
      (Line.ofSource "`[a]` [a]\n\n    [a]\n\n[b]: [a]\n")
      (Line.ofSource (Table.expandLenient ⟨[("a", ⟨"/u", some "t"⟩)]⟩
        "`[a]` [a]\n\n    [a]\n\n[b]: [a]\n")) := by
  refine ⟨by decide +kernel, expandLenient_keepsCode _ ?_ _⟩
  simp [Table.Avoids, Target.Avoids]

/-- The address ends in a backtick, and what is found is no longer `c` between backticks. -/
theorem not_forall_codeTexts_expandLenient :
    ¬ ∀ (table : Table) (source : Text), table.Avoids '\n' →
      List.Forall₂ (fun line line' => line.inCode = false → isDefinition line.text = false →
          (codeTexts line.text).Sublist (codeTexts line'.text))
        (Line.ofSource source) (Line.ofSource (table.expandLenient source)) := by
  intro h
  have hkept := h ⟨[("a", ⟨"x`", none⟩)]⟩ "[a] `c` d\n\n[a]: x`\n"
    (by simp [Table.Avoids, Target.Avoids])
  exact absurd hkept (by decide +kernel)

end TidyMark.Reflink
