import TidyMark.Proofs.History
import TidyMark.Reflink.Maps

/-!
# A table as two maps

A table answers two kinds of questions, each of which a map can answer at once. The two maps that
are filled side by side have under each key what the table finds first (`Maps.Mirrors`), so they
give the answers of the table after every history of insertions (`Maps.insertEach_eq`) and for every
source (`Maps.resolve_forSource`).
-/

namespace TidyMark.Reflink

namespace Maps

/-- Makes insertions one after the other and gives the answer to each, with the maps after them. -/
def insertEach (maps : Maps) : List (Text × Target) → List Bool × Maps
  | [] => ([], maps)
  | (label, target) :: entries =>
    let (isNew, next) := maps.insert label target
    let (answers, last) := next.insertEach entries
    (isNew :: answers, last)

/-- Maps have under each key what a table finds first, and as many labels. -/
structure Mirrors (maps : Maps) (table : Table) : Prop where
  exact : ∀ label : Text, maps.exact[label]? = table.exactTarget? label
  folded : ∀ key : Text, maps.folded[key]? = table.firstTarget? (normalize · == key)
  size : maps.size = table.size

section Insertions

variable {maps : Maps} {table : Table}

theorem mirrors_empty : Mirrors {} {} where
  exact _ := Std.HashMap.getElem?_empty
  folded _ := Std.HashMap.getElem?_empty
  size := Std.HashMap.size_empty

theorem Mirrors.contains_eq (h : maps.Mirrors table) (label : Text) :
    maps.exact.contains label = table.has label := by
  rw [Std.HashMap.contains_eq_isSome_getElem?, h.exact, Table.has_eq_isSome]

theorem Mirrors.insert_new (h : maps.Mirrors table) {label : Text} (target : Target)
    (hnew : table.has label = false) :
    Mirrors ⟨maps.exact.insert label target, maps.folded.insertIfNew (normalize label) target⟩
      (table.insert label target) where
  exact l := by
    have hnone : table.exactTarget? label = none := by
      rwa [Table.has_eq_isSome, Option.isSome_eq_false_iff, Option.isNone_iff_eq_none] at hnew
    rw [Std.HashMap.getElem?_insert, Table.exactTarget?, Table.firstTarget?_insert _ (label, target),
      Table.firstTarget?_singleton, h.exact]
    by_cases hl : label = l
    · subst hl
      rw [← Table.exactTarget?, hnone]
      simp
    · simp [hl, Table.exactTarget?]
  folded key := by
    rw [Std.HashMap.getElem?_insertIfNew, Table.firstTarget?_insert _ (label, target),
      Table.firstTarget?_singleton, ← h.folded]
    by_cases hkey : normalize label = key
    · subst hkey
      by_cases hmem : normalize label ∈ maps.folded <;> simp [hmem]
    · simp [hkey]
  size := by
    have hmem : label ∉ maps.exact := by
      rw [← Std.HashMap.contains_iff_mem, h.contains_eq, hnew]
      simp
    have hsize := h.size
    rw [Maps.size, Table.size] at hsize ⊢
    rw [Std.HashMap.size_insert, if_neg hmem, Table.insert, if_neg (by simp [hnew]),
      List.length_append, hsize]
    rfl

/-- Maps answer an insertion as the table does, and mirror it again. -/
theorem Mirrors.insert (h : maps.Mirrors table) (label : Text) (target : Target) :
    (maps.insert label target).1 = (table.insertNew label target).1 ∧
      (maps.insert label target).2.Mirrors (table.insert label target) := by
  rw [Maps.insert, h.contains_eq, Table.insertNew]
  cases hnew : table.has label with
  | true =>
    refine ⟨rfl, ?_⟩
    rwa [Table.insert, if_pos hnew]
  | false => exact ⟨rfl, h.insert_new target hnew⟩

theorem Mirrors.insertEach (h : maps.Mirrors table) (entries : List (Text × Target)) :
    (maps.insertEach entries).1 = (table.insertEach entries).1 ∧
      (maps.insertEach entries).2.Mirrors (table.insertEach entries).2 := by
  induction entries generalizing maps table with
  | nil => exact ⟨rfl, h⟩
  | cons e entries ih =>
    obtain ⟨hanswer, hstep⟩ := h.insert e.1 e.2
    obtain ⟨hanswers, hlast⟩ := ih hstep
    exact ⟨congrArg₂ List.cons hanswer hanswers, hlast⟩

end Insertions

section Sources

variable {maps : Maps} {table : Table}

theorem Mirrors.withContext (h : maps.Mirrors table) (context : List (Text × Text)) :
    (maps.withContext context).Mirrors (table.withContext context) := by
  induction context generalizing maps table with
  | nil => exact h
  | cons e context ih => exact ih (h.insert e.1 ⟨Text.trim e.2, none⟩).2

theorem Mirrors.takeUp (h : maps.Mirrors table) (line : Line) :
    (maps.takeUp line).Mirrors (table.takeUp line) := by
  unfold Maps.takeUp Table.takeUp
  split_ifs
  · exact h
  · cases Definition.ofLine? line.text with
    | none => exact h
    | some d =>
      dsimp only
      split_ifs
      · exact h
      · exact (h.insert d.label d.target).2

theorem Mirrors.foldl_takeUp (h : maps.Mirrors table) (lines : List Line) :
    (lines.foldl Maps.takeUp maps).Mirrors (lines.foldl Table.takeUp table) := by
  induction lines generalizing maps table with
  | nil => exact h
  | cons line lines ih => exact ih (h.takeUp line)

theorem mirrors_ofDocument (source : Text) :
    (ofDocument source).Mirrors (Table.ofDocument source) := by
  rw [ofDocument, ofDocument_eq_foldl]
  exact mirrors_empty.foldl_takeUp (Line.ofSource source)

theorem mirrors_forSource (options : Options) (source : Text) :
    (forSource options source).Mirrors (Table.forSource options source) :=
  (mirrors_ofDocument source).withContext options.reflinks

end Sources

section Answers

variable {maps : Maps} {table : Table}

theorem Mirrors.resolve_eq (h : maps.Mirrors table) (label : Text) :
    maps.resolve label = table.resolve label := by
  rw [resolve, h.exact, h.folded, Table.resolve_eq_or, Table.foldedTarget?]

theorem Mirrors.isEmpty_eq (h : maps.Mirrors table) : maps.isEmpty = table.isEmpty := by
  have hsize := h.size
  rw [Maps.size, Table.size] at hsize
  rw [isEmpty, Table.isEmpty, Std.HashMap.isEmpty_eq_size_eq_zero, hsize]
  cases table.entries <;> rfl

/-- The maps answer every history of insertions as the table does. -/
theorem insertEach_eq (calls : List (Text × Target)) :
    (insertEach {} calls).1 = (Table.insertEach {} calls).1 ∧
      (∀ label, (insertEach {} calls).2.resolve label =
        (Table.insertEach {} calls).2.resolve label) ∧
      (insertEach {} calls).2.size = (Table.insertEach {} calls).2.size ∧
      (insertEach {} calls).2.isEmpty = (Table.insertEach {} calls).2.isEmpty := by
  obtain ⟨hanswers, hlast⟩ := mirrors_empty.insertEach calls
  exact ⟨hanswers, hlast.resolve_eq, hlast.size, hlast.isEmpty_eq⟩

/-- The maps that are filled from a source and its context resolve every label as the table does. -/
theorem resolve_forSource (options : Options) (source label : Text) :
    (forSource options source).resolve label = (Table.forSource options source).resolve label :=
  (mirrors_forSource options source).resolve_eq label

end Answers

end Maps

end TidyMark.Reflink
