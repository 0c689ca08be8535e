import TidyMark.Proofs.PlainLine
import TidyMark.Proofs.Separation

/-!
# Fences that only the scanner sees

A line opens fenced code with three tildes or more, or with three backticks or more and none behind
them (`opensFence`). The line scanner does not look behind the backticks, so a code span of three
backticks at the beginning of a line opens a fence for it (`isSome_ofLine?`). In a source without
fences and indented lines, the first such line is the first one that is marked as code
(`inCode_mark`). Where there is none, no line is, and the expander takes up the definition of every
line and expands every line (`ofSource_unfenced`).
-/

namespace TidyMark.Reflink

open Text Markdown

/-- Whether a line begins with three backticks or more, behind at most three spaces. -/
def beginsTicks (line : Text) : Bool :=
  (line.takeWhile (· == ' ')).length ≤ 3 && 3 ≤ runLength '`' (line.dropWhile (· == ' '))

/-- Whether a line opens fenced code for the parser, behind at most three spaces. -/
def opensFence (line : Text) : Bool :=
  (line.takeWhile (· == ' ')).length ≤ 3 && (fence? (line.dropWhile (· == ' '))).isSome

section Scanning

variable {line : Text} {region : Region}

theorem runLength_cons_of_ne {c d : Char} (h : d ≠ c) (t : Text) : runLength c (d :: t) = 0 := by
  simp [runLength, h]

/-- What the parser takes for a fence. -/
theorem isSome_fence? (t : Text) : (fence? t).isSome =
    (3 ≤ runLength '~' t || 3 ≤ runLength '`' t && !(t.drop (runLength '`' t)).contains '`') := by
  unfold fence?
  split
  · next rest =>
    have htilde : runLength '~' ('`' :: rest) = 0 := runLength_cons_of_ne (by decide) rest
    dsimp only
    rw [htilde]
    split_ifs with h
    · simpa using h
    · simpa using h
  · next rest =>
    have htick : runLength '`' ('~' :: rest) = 0 := runLength_cons_of_ne (by decide) rest
    dsimp only
    rw [htick]
    split_ifs with h
    · simpa using h
    · simpa using h
  · next htick htilde =>
    rcases t with _ | ⟨c, rest⟩
    · rfl
    · rw [runLength_cons_of_ne fun h => htilde rest (by rw [h]),
        runLength_cons_of_ne fun h => htick rest (by rw [h])]
      rfl

/-- What the scanner takes for a fence. -/
theorem isSome_ofLine?_eq (line : Text) : (FenceMark.ofLine? line).isSome =
    (decide ((line.takeWhile (· == ' ')).length ≤ 3) &&
      (3 ≤ runLength '~' (line.dropWhile (· == ' ')) ||
        3 ≤ runLength '`' (line.dropWhile (· == ' ')))) := by
  unfold FenceMark.ofLine?
  split_ifs with hspaces
  · simp [Nat.not_le.2 hspaces]
  · rw [decide_eq_true (Nat.not_lt.1 hspaces), Bool.true_and]
    rcases line.dropWhile (· == ' ') with _ | ⟨c, rest⟩
    · rfl
    · dsimp only
      by_cases htick : c = '`'
      · subst htick
        rw [runLength_cons_of_ne (c := '~') (by decide), ← runLength]
        split_ifs with h <;> simpa using h
      · rw [runLength_cons_of_ne (c := '`') htick]
        by_cases htilde : c = '~'
        · subst htilde
          rw [← runLength]
          split_ifs with h <;> simpa using h
        · simp [htick, htilde, runLength]

/-- On a line that opens no fence, the scanner sees one where the line begins with backticks. -/
theorem isSome_ofLine? (h : opensFence line = false) :
    (FenceMark.ofLine? line).isSome = beginsTicks line := by
  rw [opensFence, isSome_fence?] at h
  rw [isSome_ofLine?_eq, beginsTicks]
  rcases Bool.eq_false_or_eq_true (decide ((line.takeWhile (· == ' ')).length ≤ 3)) with
    hspaces | hspaces
  · rw [hspaces, Bool.true_and, Bool.or_eq_false_iff] at h
    rw [h.1, Bool.false_or]
  · rw [hspaces, Bool.false_and, Bool.false_and]

/-- Where nothing is open, a line that is not indented is code if it begins like a fence. -/
theorem fst_step (hfence : region.fence = none) (hindented : region.indented = false)
    (hindent : line.allBlank = false → indentWidth line < 4) :
    (region.step line).1 = (FenceMark.ofLine? line).isSome := by
  have hcolumns : (!line.allBlank && decide (4 ≤ indentWidth line)) = false := by
    cases hl : line.allBlank with
    | true => rfl
    | false => simpa using hindent hl
  simp only [Region.step, Region.classify, hfence, hindented, hcolumns, Bool.false_and,
    Bool.false_eq_true, if_false]
  cases FenceMark.ofLine? line <;> rfl

/-- The first line that begins like a fence is the first line that is code. -/
theorem inCode_mark {line : Line} : ∀ {ps : List Text} {region : Region} {above below : List Line},
    region.fence = none → region.indented = false →
    (∀ l ∈ Line.mark region ps, l.text.allBlank = false → indentWidth l.text < 4) →
    Line.mark region ps = above ++ line :: below →
    (∀ l ∈ above, (FenceMark.ofLine? l.text).isSome = false) →
      line.inCode = (FenceMark.ofLine? line.text).isSome
  | [], _, above, _, _, _, _, hsplit, _ => by cases above <;> cases hsplit
  | p :: ps, region, above, below, hfence, hindented, hindent, hsplit, habove => by
    rw [Line.mark, List.forall_mem_cons] at hindent
    rw [Line.mark] at hsplit
    have hfirst := fst_step hfence hindented hindent.1
    rcases above with _ | ⟨first, above⟩
    · obtain ⟨rfl, -⟩ := List.cons.inj hsplit
      exact hfirst
    · obtain ⟨rfl, hrest⟩ := List.cons.inj hsplit
      obtain ⟨hnone, habove⟩ := List.forall_mem_cons.1 habove
      obtain ⟨hfence', hindented', -⟩ := step_of_not_code (hfirst.trans hnone)
      exact inCode_mark hfence' hindented' hindent.2 hrest habove

end Scanning

section Sources

variable {source : Text}

theorem takeUp_of_not_code {line : Line} (h : line.inCode = false) (table : Table) :
    table.takeUp line = table.takeUp (plainLine line.text) := by
  unfold Table.takeUp plainLine
  rw [h]

theorem ofDocument_eq_foldl_plainLine (h : ∀ l ∈ Line.ofSource source, l.inCode = false) :
    Table.ofDocument source =
      (Line.ofSource source).foldl (fun table l => table.takeUp (plainLine l.text)) {} := by
  rw [ofDocument_eq_foldl]
  exact List.foldl_ext _ _ _ fun table l hl => takeUp_of_not_code (h l hl) table

theorem expandedText_of_not_code {line : Line} (h : line.inCode = false) (table : Table) :
    table.expandedText line = table.expanded line.text := by
  unfold Table.expanded Table.expandedText Table.expandIn Line.isFixed plainLine
  rw [h]

theorem expandLenient_eq_flatMap (h : ∀ l ∈ Line.ofSource source, l.inCode = false)
    (table : Table) : table.expandLenient source =
      (Line.ofSource source).flatMap fun l => table.expanded l.text ++ l.ending := by
  rw [expandLenient_eq_flatten, changed, ← List.flatMap_def]
  refine List.flatMap_congr fun l hl => ?_
  rw [expandedText_of_not_code (h l hl)]

/-- In a source without fences and without indented lines, the first line that is code is the first
one that begins with three backticks. Where there is no such line, all definitions are taken up and
all lines are expanded. -/
theorem ofSource_unfenced (hfence : ∀ l ∈ Line.ofSource source, opensFence l.text = false)
    (hindent : ∀ l ∈ Line.ofSource source, l.text.allBlank = false → indentWidth l.text < 4) :
    (∀ above line below, Line.ofSource source = above ++ line :: below →
      (∀ l ∈ above, beginsTicks l.text = false) → line.inCode = beginsTicks line.text) ∧
    ((∀ l ∈ Line.ofSource source, l.inCode = false) ↔
      ∀ l ∈ Line.ofSource source, beginsTicks l.text = false) ∧
    ((∀ l ∈ Line.ofSource source, beginsTicks l.text = false) →
      Table.ofDocument source =
          (Line.ofSource source).foldl (fun table l => table.takeUp (plainLine l.text)) {} ∧
        ∀ table : Table, table.expandLenient source =
          (Line.ofSource source).flatMap fun l => table.expanded l.text ++ l.ending) := by
  have hmark : ∀ l ∈ Line.ofSource source, (FenceMark.ofLine? l.text).isSome = beginsTicks l.text :=
    fun l hl => isSome_ofLine? (hfence l hl)
  have hfirst : ∀ above line below, Line.ofSource source = above ++ line :: below →
      (∀ l ∈ above, beginsTicks l.text = false) → line.inCode = beginsTicks line.text := by
    intro above line below hsplit habove
    rw [← hmark line (by simp [hsplit])]
    refine inCode_mark rfl rfl hindent hsplit fun l hl => ?_
    rw [hmark l (by simp [hsplit, hl]), habove l hl]
  have hnone : (∀ l ∈ Line.ofSource source, beginsTicks l.text = false) →
      ∀ l ∈ Line.ofSource source, l.inCode = false := by
    intro h line hl
    obtain ⟨above, below, hsplit⟩ := List.append_of_mem hl
    rw [hfirst above line below hsplit fun l hl => h l (by simp [hsplit, hl]), h line hl]
  refine ⟨hfirst, ⟨fun h => ?_, hnone⟩, fun h => ?_⟩
  · by_contra hticks
    have hsome : ((Line.ofSource source).find? fun l => beginsTicks l.text).isSome := by
      simpa using hticks
    obtain ⟨line, hline⟩ := Option.isSome_iff_exists.1 hsome
    obtain ⟨hbegins, above, below, hsplit, habove⟩ := List.find?_eq_some_iff_append.1 hline
    have hcode := hfirst above line below hsplit fun l hl => by simpa using habove l hl
    rw [h line (by simp [hsplit]), hbegins] at hcode
    cases hcode
  · exact ⟨ofDocument_eq_foldl_plainLine (hnone h), expandLenient_eq_flatMap (hnone h)⟩

/-- Code spans of one and two backticks hide neither the definition nor the references below. -/
theorem ofSource_unfenced_short_spans :
    (∀ l ∈ Line.ofSource "``a`b`` [x]\n `a` [x]\n\n[x]: /u\n", l.inCode = false) ∧
      (Table.ofDocument "``a`b`` [x]\n `a` [x]\n\n[x]: /u\n").expandLenient
        "``a`b`` [x]\n `a` [x]\n\n[x]: /u\n" =
          "``a`b`` [x](/u)\n `a` [x](/u)\n\n[x]: /u\n".toList := by
  obtain ⟨-, hcode, hlines⟩ := @ofSource_unfenced "``a`b`` [x]\n `a` [x]\n\n[x]: /u\n"
    (by decide +kernel) (by decide +kernel)
  obtain ⟨hdefined, hexpanded⟩ := hlines (by decide +kernel)
  refine ⟨hcode.2 (by decide +kernel), ?_⟩
  rw [hdefined, hexpanded]
  decide +kernel

/-- A code span of three backticks at the beginning of a line makes all that follows code. -/
theorem not_forall_ofSource_unfenced :
    ¬ ∀ source : Text, (∀ l ∈ Line.ofSource source, opensFence l.text = false) →
      (∀ l ∈ Line.ofSource source, indentWidth l.text < 4) →
        ∀ l ∈ Line.ofSource source, l.inCode = false := fun h =>
  absurd (h "```a``` [x]\n\n[x]: u\n" (by decide +kernel) (by decide +kernel)) (by decide +kernel)

end Sources

end TidyMark.Reflink
