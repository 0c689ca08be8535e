import TidyMark.Text.Blank

/-!
# Lines

Three ways to see a text as lines. `splitLines` cuts at every line feed and `join "\n"` puts the
text together again; `lines` leaves out the empty piece after a last line feed and a carriage
return before one; `pieces` keeps each line feed with its line.
-/

namespace TidyMark.Text

/-- The stretches between separators; one more than there are separators. -/
def split (sep : Char) : Text → List Text
  | [] => [[]]
  | c :: rest =>
    if c == sep then [] :: split sep rest
    else
      match split sep rest with
      | [] => [[c]]
      | part :: parts => (c :: part) :: parts

def splitLines (t : Text) : List Text :=
  split '\n' t

/-- Takes one carriage return off the end. -/
def dropReturn (t : Text) : Text :=
  if t.getLast? == some '\r' then t.dropLast else t

/-- The lines of a text, without line feeds and without a carriage return before a line feed. -/
def lines (t : Text) : List Text :=
  let parts := splitLines t
  let ended := parts.dropLast.map dropReturn
  match parts.getLast? with
  | some [] | none => ended
  | some last => ended ++ [last]

/-- The lines of a text, each with its line feed; their concatenation is the text. -/
def pieces : Text → List Text
  | [] => []
  | c :: rest =>
    if c == '\n' then [c] :: pieces rest
    else
      match pieces rest with
      | [] => [[c]]
      | line :: lines => (c :: line) :: lines

theorem splitLines_ne_nil (t : Text) : splitLines t ≠ [] := by
  unfold splitLines
  cases t with
  | nil => simp [split]
  | cons c t =>
    rw [split]
    split
    · simp
    · split <;> simp

theorem splitLines_append_newline (s t : Text) :
    splitLines (s ++ '\n' :: t) = splitLines s ++ splitLines t := by
  induction s with
  | nil => simp [splitLines, split]
  | cons c s ih =>
    obtain ⟨first, rest, h⟩ := List.exists_cons_of_ne_nil (splitLines_ne_nil s)
    unfold splitLines at h ih ⊢
    rw [List.cons_append, split, ih, split, h]
    split <;> rfl

theorem splitLines_append {l : Text} (hl : '\n' ∉ l) (t : Text) :
    ∃ first rest, splitLines t = first :: rest ∧ splitLines (l ++ t) = (l ++ first) :: rest := by
  induction l with
  | nil =>
    obtain ⟨first, rest, h⟩ := List.exists_cons_of_ne_nil (splitLines_ne_nil t)
    exact ⟨first, rest, h, h⟩
  | cons c l ih =>
    simp only [List.mem_cons, not_or] at hl
    obtain ⟨first, rest, h, h'⟩ := ih hl.2
    refine ⟨first, rest, h, ?_⟩
    unfold splitLines at h' ⊢
    rw [List.cons_append, split, h', if_neg (by simpa using Ne.symm hl.1)]
    rfl

theorem splitLines_of_not_mem {t : Text} (ht : '\n' ∉ t) : splitLines t = [t] := by
  obtain ⟨first, rest, hnil, h⟩ := splitLines_append ht []
  cases hnil
  simpa using h

/-- A text is its lines with line feeds between them. -/
theorem eq_of_splitLines : ∀ {t first : Text} {rest : List Text}, splitLines t = first :: rest →
    t = first ++ rest.flatMap ('\n' :: ·)
  | [], first, rest, h => by
    obtain ⟨rfl, rfl⟩ : first = [] ∧ rest = [] := by
      simpa [splitLines, split, eq_comm] using h
    rfl
  | c :: t, first, rest, h => by
    have ih := @eq_of_splitLines t
    unfold splitLines at h ih
    rw [split] at h
    rcases hs : split '\n' t with _ | ⟨part, parts⟩
    · exact absurd hs (splitLines_ne_nil t)
    rw [hs] at h
    split at h
    · next hc =>
      obtain ⟨rfl, rfl⟩ := List.cons.inj h
      rw [ih hs, eq_of_beq hc]
      rfl
    · obtain ⟨rfl, rfl⟩ := List.cons.inj h
      rw [List.cons_append, ← ih hs]

/-- Lines with line feeds between them are read back. -/
theorem splitLines_append_flatMap {first : Text} {rest : List Text} (hfirst : '\n' ∉ first)
    (hrest : ∀ l ∈ rest, '\n' ∉ l) :
    splitLines (first ++ rest.flatMap ('\n' :: ·)) = first :: rest := by
  induction rest generalizing first with
  | nil => simpa using splitLines_of_not_mem hfirst
  | cons l rest ih =>
    obtain ⟨hl, hrest⟩ := List.forall_mem_cons.1 hrest
    rw [List.flatMap_cons, List.cons_append, splitLines_append_newline,
      splitLines_of_not_mem hfirst, ih hl hrest, List.singleton_append]

theorem newline_not_mem_of_mem_splitLines : ∀ {t line : Text}, line ∈ splitLines t → '\n' ∉ line
  | [], line, h => by
    obtain rfl : line = [] := by simpa [splitLines, split] using h
    exact List.not_mem_nil
  | c :: t, line, h => by
    have ih := @newline_not_mem_of_mem_splitLines t
    unfold splitLines at h ih
    rw [split] at h
    split at h
    · rcases List.mem_cons.1 h with rfl | h
      · exact List.not_mem_nil
      · exact ih h
    · next hc =>
      rcases hs : split '\n' t with _ | ⟨part, parts⟩ <;> rw [hs] at h ih
      · obtain rfl : line = [c] := by simpa using h
        exact fun he => hc (beq_iff_eq.2 (List.mem_singleton.1 he).symm)
      · rcases List.mem_cons.1 h with rfl | h
        · have hpart := ih List.mem_cons_self
          simp only [List.mem_cons, hpart, or_false]
          rintro rfl
          exact hc rfl
        · exact ih (List.mem_cons_of_mem _ h)

theorem length_splitLines (t : Text) : (splitLines t).length = t.count '\n' + 1 := by
  induction t with
  | nil => rfl
  | cons c t ih =>
    unfold splitLines at ih ⊢
    rw [split, List.count_cons]
    split
    · rw [List.length_cons, ih]
    · rcases hparts : split '\n' t with _ | ⟨part, parts⟩
      · exact absurd hparts (splitLines_ne_nil t)
      · rw [hparts] at ih
        exact ih

theorem flatten_pieces (t : Text) : (pieces t).flatten = t := by
  induction t with
  | nil => rfl
  | cons c rest ih =>
    simp only [pieces]
    split
    · simp [ih]
    · split
      · next h => simp_all
      · next line lines h =>
        rw [h] at ih
        simpa using ih

end TidyMark.Text
