import Mathlib.Algebra.Ring.Nat
import Mathlib.Tactic.SplitIfs
import TidyMark.Render.Layout

/-!
# Items in items

An item that ends inside another one has its lines indented twice, first by its own width and then
by that of the item around it. Both go by the same lines, since indenting moves no line feed and
leaves a line that shows nothing as it is (`splitLines_indentContinuations`): the widths add up
(`indentContinuations_indentContinuations`), however deep the items are nested
(`foldl_indentContinuations`).
-/

namespace TidyMark

open Text

namespace Render

/-- A line moved in; a line that shows nothing stays where it is. -/
def shiftLine (width : Nat) (line : Text) : Text :=
  if line.allBlank then line else List.replicate width ' ' ++ line

/-- The lines of an item: all but the first are moved in. -/
def shiftLines (width : Nat) : List Text → List Text
  | [] => []
  | first :: rest => first :: rest.map (shiftLine width)

/-- Whether a text is another one with all of its lines but the first behind `n` spaces, where lines
that show nothing are left as they are. -/
structure IsIndented (n : Nat) (body t : Text) : Prop where
  count : t.count '\n' = body.count '\n'
  first : (splitLines t).head? = (splitLines body).head?
  /-- The lines that show nothing are the same, at the same places. -/
  blank : ∀ (i : Nat) (line : Text), line.allBlank = true →
    ((splitLines t)[i]? = some line ↔ (splitLines body)[i]? = some line)
  later : ∀ (i : Nat) (line : Text), 0 < i → (splitLines body)[i]? = some line →
    line.allBlank = false → (splitLines t)[i]? = some (List.replicate n ' ' ++ line)

section Lines

variable {width : Nat} {line : Text}

theorem shiftLine_of_allBlank (h : line.allBlank = true) : shiftLine width line = line :=
  if_pos h

theorem shiftLine_of_not_allBlank (h : line.allBlank = false) :
    shiftLine width line = List.replicate width ' ' ++ line :=
  if_neg (by simp [h])

theorem allBlank_replicate (n : Nat) : allBlank (List.replicate n ' ') = true :=
  List.all_eq_true.2 fun _ hc => List.eq_of_mem_replicate hc ▸ rfl

theorem allBlank_shiftLine (width : Nat) (line : Text) :
    (shiftLine width line).allBlank = line.allBlank := by
  unfold shiftLine
  split_ifs
  · rfl
  · rw [allBlank_append, allBlank_replicate, Bool.true_and]

theorem newline_not_mem_shiftLine (h : '\n' ∉ line) : '\n' ∉ shiftLine width line := by
  unfold shiftLine
  split_ifs
  · exact h
  · simp [h]

theorem shiftLine_zero (line : Text) : shiftLine 0 line = line :=
  ite_self line

/-- A line that has been moved in is moved further, and one that shows nothing still shows
nothing. -/
theorem shiftLine_shiftLine (n width : Nat) (line : Text) :
    shiftLine width (shiftLine n line) = shiftLine (n + width) line := by
  rcases h : line.allBlank
  · have hshifted := (allBlank_shiftLine n line).trans h
    rw [shiftLine_of_not_allBlank hshifted, shiftLine_of_not_allBlank h,
      shiftLine_of_not_allBlank h, ← List.append_assoc, List.replicate_append_replicate,
      Nat.add_comm]
  · rw [shiftLine_of_allBlank h, shiftLine_of_allBlank h, shiftLine_of_allBlank h]

theorem getElem?_shiftLines_succ (ls : List Text) (i : Nat) :
    (shiftLines width ls)[i + 1]? = ls[i + 1]?.map (shiftLine width) := by
  rcases ls with _ | ⟨first, rest⟩
  · rfl
  · exact List.getElem?_map

theorem length_shiftLines (ls : List Text) : (shiftLines width ls).length = ls.length := by
  rcases ls with _ | ⟨first, rest⟩
  · rfl
  · simp [shiftLines]

end Lines

section Items

theorem indentContinuations_eq {width : Nat} {body first : Text} {rest : List Text}
    (h : splitLines body = first :: rest) : indentContinuations width body =
      first ++ (rest.map (shiftLine width)).flatMap ('\n' :: ·) := by
  rw [indentContinuations, h, List.flatMap_map]
  rfl

/-- Indenting an item moves its lines in, one by one. -/
theorem splitLines_indentContinuations (width : Nat) (body : Text) :
    splitLines (indentContinuations width body) = shiftLines width (splitLines body) := by
  obtain ⟨first, rest, h⟩ := List.exists_cons_of_ne_nil (splitLines_ne_nil body)
  have hlines : ∀ l ∈ first :: rest, '\n' ∉ l := fun l hl =>
    newline_not_mem_of_mem_splitLines (h ▸ hl)
  obtain ⟨hfirst, hrest⟩ := List.forall_mem_cons.1 hlines
  rw [indentContinuations_eq h, h, shiftLines]
  refine splitLines_append_flatMap hfirst (List.forall_mem_map.2 fun l hl => ?_)
  exact newline_not_mem_shiftLine (hrest l hl)

theorem indentContinuations_zero (body : Text) : indentContinuations 0 body = body := by
  obtain ⟨first, rest, h⟩ := List.exists_cons_of_ne_nil (splitLines_ne_nil body)
  have hmap : rest.map (shiftLine 0) = rest := List.map_id'' shiftLine_zero rest
  rw [indentContinuations_eq h, hmap, ← eq_of_splitLines h]

/-- The item around an item indents the same lines, by its own width. -/
theorem indentContinuations_indentContinuations (n width : Nat) (body : Text) :
    indentContinuations width (indentContinuations n body) =
      indentContinuations (n + width) body := by
  obtain ⟨first, rest, h⟩ := List.exists_cons_of_ne_nil (splitLines_ne_nil body)
  have hinner : splitLines (indentContinuations n body) = first :: rest.map (shiftLine n) := by
    rw [splitLines_indentContinuations, h, shiftLines]
  have hshift : shiftLine width ∘ shiftLine n = shiftLine (n + width) :=
    funext (shiftLine_shiftLine n width)
  rw [indentContinuations_eq hinner, indentContinuations_eq h, List.map_map, hshift]

theorem isIndented_indentContinuations (n : Nat) (body : Text) :
    IsIndented n body (indentContinuations n body) where
  count := by
    have hlength : (shiftLines n (splitLines body)).length = (splitLines body).length :=
      length_shiftLines (splitLines body)
    rw [← splitLines_indentContinuations, length_splitLines, length_splitLines] at hlength
    exact Nat.succ.inj hlength
  first := by
    rw [splitLines_indentContinuations]
    rcases splitLines body with _ | ⟨first, rest⟩ <;> rfl
  blank i line hline := by
    rw [splitLines_indentContinuations]
    rcases i with _ | i
    · rcases splitLines body with _ | ⟨first, rest⟩ <;> rfl
    · rw [getElem?_shiftLines_succ, Option.map_eq_some_iff]
      constructor
      · rintro ⟨l, hl, rfl⟩
        rw [allBlank_shiftLine] at hline
        rwa [shiftLine_of_allBlank hline]
      · exact fun hl => ⟨line, hl, shiftLine_of_allBlank hline⟩
  later i line hi hl hline := by
    obtain ⟨i, rfl⟩ := Nat.exists_eq_succ_of_ne_zero (Nat.pos_iff_ne_zero.1 hi)
    rw [splitLines_indentContinuations, Nat.succ_eq_add_one, getElem?_shiftLines_succ, hl,
      Option.map_some, shiftLine_of_not_allBlank hline]

/-- Items that end one in the other, the innermost first, indent what stands in them as one item
does that is as wide as all of them together. -/
theorem foldl_indentContinuations (widths : List Nat) (body : Text) :
    widths.foldl (fun t width => indentContinuations width t) body =
        indentContinuations widths.sum body ∧
      IsIndented widths.sum body
        (widths.foldl (fun t width => indentContinuations width t) body) := by
  have hsum : widths.foldl (fun t width => indentContinuations width t) body =
      indentContinuations widths.sum body := by
    induction widths generalizing body with
    | nil => exact (indentContinuations_zero body).symm
    | cons width widths ih =>
      rw [List.foldl_cons, ih, indentContinuations_indentContinuations, List.sum_cons]
  exact ⟨hsum, hsum ▸ isIndented_indentContinuations widths.sum body⟩

/-- Lines of blanks, carriage returns and a first line that is indented already. -/
example : [2, 3].foldl (fun t width => indentContinuations width t)
    "  a\n \n\r\nb\r\n\n c".toList = "  a\n \n\r\n     b\r\n\n      c".toList := by
  decide +kernel

end Items

end Render

end TidyMark
