import Mathlib.Data.Finset.Card
import TidyMark.Proofs.Resolution

/-!
# Tables after any history of insertions

What a table answers after a history of insertions is said by the list of insertions alone: which
target a label resolves to, which of the insertions were of new labels, and how many labels the
table has (`history_insertEach`). A table has the labels that were inserted
(`mem_labels_insertAll`), none of them twice (`nodup_labels_insertAll`), so that the labels alone
decide on the answers and on the size.
-/

namespace TidyMark.Reflink

namespace Table

variable {table : Table}

/-- Makes insertions one after the other and gives the answer to each, with the table after them. -/
def insertEach (table : Table) : List (Text × Target) → List Bool × Table
  | [] => ([], table)
  | (label, target) :: entries =>
    let (isNew, next) := table.insertNew label target
    let (answers, last) := next.insertEach entries
    (isNew :: answers, last)

/-- The labels of a table, oldest first. -/
def labels (table : Table) : List Text :=
  table.entries.map (·.1)

section Labels

theorem has_iff_mem_labels {label : Text} : table.has label = true ↔ label ∈ table.labels := by
  simp [has, labels]

theorem labels_insert (e : Text × Target) : (table.insert e.1 e.2).labels =
    if e.1 ∈ table.labels then table.labels else table.labels ++ [e.1] := by
  unfold insert
  simp only [has_iff_mem_labels]
  split_ifs
  · rfl
  · exact List.map_append

theorem mem_labels_insertAll {label : Text} : ∀ {entries : List (Text × Target)} {table : Table},
    label ∈ (table.insertAll entries).labels ↔ label ∈ table.labels ∨ label ∈ entries.map (·.1)
  | [], table => by simp [insertAll]
  | e :: entries, table => by
    have ih : label ∈ ((table.insert e.1 e.2).insertAll entries).labels ↔
        label ∈ (table.insert e.1 e.2).labels ∨ label ∈ entries.map (·.1) := mem_labels_insertAll
    have hstep : label ∈ (table.insert e.1 e.2).labels ↔ label ∈ table.labels ∨ label = e.1 := by
      rw [labels_insert]
      split_ifs with he
      · exact (or_iff_left_of_imp fun h => h ▸ he).symm
      · simp
    refine ih.trans ?_
    rw [hstep, or_assoc, List.map_cons, List.mem_cons]

/-- A label that is taken is not added a second time. -/
theorem nodup_labels_insertAll : ∀ {entries : List (Text × Target)} {table : Table},
    table.labels.Nodup → (table.insertAll entries).labels.Nodup
  | [], _, h => h
  | e :: entries, table, h => by
    have hstep : (table.insert e.1 e.2).labels.Nodup := by
      rw [labels_insert]
      split_ifs with he
      · exact h
      · rw [← List.concat_eq_append]
        exact h.concat he
    exact @nodup_labels_insertAll entries _ hstep

end Labels

section Answers

theorem insertEach_snd : ∀ (entries : List (Text × Target)) (table : Table),
    (table.insertEach entries).2 = table.insertAll entries
  | [], _ => rfl
  | e :: entries, table => insertEach_snd entries (table.insert e.1 e.2)

/-- An insertion is answered by the table that the insertions before it have made. -/
theorem insertEach_fst : ∀ (entries : List (Text × Target)) (table : Table),
    (table.insertEach entries).1 = List.ofFn fun k : Fin entries.length =>
      !(table.insertAll (entries.take k)).has entries[k].1
  | [], _ => rfl
  | e :: entries, table => by
    have ih := insertEach_fst entries (table.insert e.1 e.2)
    rw [List.ofFn_succ]
    exact congrArg ((!table.has e.1) :: ·) ih

end Answers

/-- After any history of insertions a label resolves to the first target that came under exactly
this label, or else under an equivalent one; new was each label that had not come before; and there
are as many entries as labels. -/
theorem history_insertEach (calls : List (Text × Target)) :
    (∀ label, (insertEach {} calls).2.resolve label =
      ((calls.find? fun call => call.1 == label).or
        (calls.find? fun call => normalize call.1 == normalize label)).map (·.2)) ∧
    (insertEach {} calls).1 = (List.ofFn fun k : Fin calls.length =>
      !((calls.take k).map (·.1)).contains calls[k].1) ∧
    (insertEach {} calls).2.size = (calls.map (·.1)).toFinset.card := by
  rw [insertEach_snd, insertEach_fst]
  have hlabels : ∀ {label : Text} {entries : List (Text × Target)},
      label ∈ (insertAll {} entries).labels ↔ label ∈ entries.map (·.1) := fun {label entries} =>
    mem_labels_insertAll.trans (or_iff_right List.not_mem_nil)
  refine ⟨fun label => ?_, ?_, ?_⟩
  · have hempty : ∀ p, firstTarget? {} p = none := fun p => rfl
    rw [resolve_eq_or, exactTarget?, foldedTarget?, firstTarget?_insertAll, firstTarget?_insertAll,
      hempty, hempty, Option.none_or, Option.none_or, firstTarget?, firstTarget?, Option.map_or]
  · refine congrArg List.ofFn (funext fun k => congrArg not ?_)
    rw [Bool.eq_iff_iff, has_iff_mem_labels, hlabels, List.contains_iff_mem]
  · have hdistinct : (insertAll {} calls).labels.toFinset = (calls.map (·.1)).toFinset := by
      ext label
      rw [List.mem_toFinset, List.mem_toFinset, hlabels]
    have hnodup : (insertAll {} calls).labels.Nodup :=
      @nodup_labels_insertAll calls {} List.nodup_nil
    rw [← hdistinct, List.toFinset_card_of_nodup hnodup, labels, List.length_map, size]

end Table

end TidyMark.Reflink
