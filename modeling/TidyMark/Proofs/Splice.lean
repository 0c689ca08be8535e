import TidyMark.Proofs.Bracket
import TidyMark.Proofs.Bytes
import TidyMark.Reflink.Rewrite

/-!
# Expansion is a splice

The edits of a source say which stretches of it are replaced and by what (`Table.replacements`).
The expanded source is the source with exactly these stretches replaced (`splice?_replacements`),
they come in order and do not overlap (`pairwise_replacements`), and each of them is a reference on
a line that is neither code nor a definition, with its link in its place (`Table.Expands`).
-/

namespace TidyMark.Reflink

open Text

def Edit.replacements (start : Nat) : List Edit → List Replacement
  | [] => []
  | .keep t :: rest => Edit.replacements (start + t.byteLength) rest
  | .link b target :: rest =>
    let stop := start + b.written.byteLength
    ⟨start, stop, b.linked target⟩ :: Edit.replacements stop rest

def Table.editsIn (table : Table) (line : Line) : List Edit :=
  (table.expandIn line).edits ++ [.keep line.ending]

def Table.edits (table : Table) (source : Text) : List Edit :=
  (Line.ofSource source).flatMap table.editsIn

def Table.replacements (table : Table) (source : Text) : List Replacement :=
  Edit.replacements 0 (table.edits source)

/-- A replacement in a source puts a link in the place of the bracket `b`, which stands between
`before` and `after` on a line that lies between `above` and `below`. -/
structure Table.Expands (table : Table) (source : Text) (r : Replacement) (above : List Line)
    (line : Line) (below : List Line) (before : Text) (b : Bracket) (after : Text)
    (target : Target) : Prop where
  source_eq : Line.ofSource source = above ++ line :: below
  not_code : line.inCode = false
  not_definition : isDefinition line.text = false
  line_eq : line.text = before ++ b.written ++ after
  start_eq : r.start = (Line.source above ++ before).byteLength
  stop_eq : r.stop = r.start + b.written.byteLength
  form : b.WellFormed
  resolves : table.resolve b.key = some target
  text_eq : r.text = b.head ++ target.destination (b.fragment.getD [])

section Edits

variable (table : Table)

theorem flatMap_before_editsIn (line : Line) :
    (table.editsIn line).flatMap Edit.before = line.text ++ line.ending := by
  simp [Table.editsIn, Edit.before, before_edits]

theorem flatMap_before_edits (source : Text) :
    (table.edits source).flatMap Edit.before = source := by
  simp only [Table.edits, List.flatMap_assoc, flatMap_before_editsIn]
  exact source_ofSource source

theorem text_expandLines : ∀ (number : Nat) (lines : List Line),
    (table.expandLines number lines).text = (lines.flatMap table.editsIn).flatMap Edit.after
  | _, [] => rfl
  | number, line :: rest => by
    simp [Table.expandLines, text_expandLines (number + 1) rest, Table.editsIn, Edit.after]

theorem flatMap_after_edits (source : Text) :
    (table.edits source).flatMap Edit.after = table.expandLenient source :=
  (text_expandLines table 1 _).symm

end Edits

section Replacing

theorem replacements_append : ∀ (start : Nat) (es es' : List Edit),
    Edit.replacements start (es ++ es') = Edit.replacements start es ++
      Edit.replacements (start + byteLength (es.flatMap Edit.before)) es'
  | start, [], es' => by simp [Edit.replacements]
  | start, .keep t :: es, es' => by
    simp [Edit.replacements, replacements_append _ es, Edit.before, byteLength_append,
      Nat.add_assoc]
  | start, .link b target :: es, es' => by
    simp [Edit.replacements, replacements_append _ es, Edit.before, byteLength_append,
      Nat.add_assoc]

theorem exists_of_mem_replacements {r : Replacement} : ∀ {start : Nat} {es : List Edit},
    r ∈ Edit.replacements start es → ∃ above b target below,
      es = above ++ .link b target :: below ∧
      r.start = start + byteLength (above.flatMap Edit.before) ∧
      r.stop = r.start + b.written.byteLength ∧ r.text = b.linked target
  | start, [], h => by simp [Edit.replacements] at h
  | start, .keep t :: es, h => by
    simp only [Edit.replacements] at h
    obtain ⟨above, b, target, below, rfl, h1, h2, h3⟩ := exists_of_mem_replacements h
    refine ⟨.keep t :: above, b, target, below, rfl, ?_, h2, h3⟩
    simp [h1, Edit.before, byteLength_append, Nat.add_assoc]
  | start, .link b target :: es, h => by
    rcases List.mem_cons.1 h with rfl | h
    · exact ⟨[], b, target, es, rfl, by simp, rfl, rfl⟩
    · obtain ⟨above, b', target', below, rfl, h1, h2, h3⟩ := exists_of_mem_replacements h
      refine ⟨.link b target :: above, b', target', below, rfl, ?_, h2, h3⟩
      simp [h1, Edit.before, byteLength_append, Nat.add_assoc]

theorem written_byteLength_pos (b : Bracket) : 0 < b.written.byteLength :=
  byteLength_pos b.written_ne_nil

theorem start_lt_stop {r : Replacement} {start : Nat} {es : List Edit}
    (h : r ∈ Edit.replacements start es) : start ≤ r.start ∧ r.start < r.stop := by
  obtain ⟨above, b, target, below, -, h1, h2, -⟩ := exists_of_mem_replacements h
  have := written_byteLength_pos b
  omega

theorem pairwise_replacements : ∀ (start : Nat) (es : List Edit),
    (Edit.replacements start es).Pairwise fun r s => r.start < s.start ∧ r.stop ≤ s.start
  | start, [] => .nil
  | start, .keep t :: es => pairwise_replacements _ es
  | start, .link b target :: es => by
    refine List.pairwise_cons.2 ⟨fun s hs => ?_, pairwise_replacements _ es⟩
    have := start_lt_stop hs
    have := written_byteLength_pos b
    dsimp only
    omega

/-- Putting the replacements of edits into a text gives what the edits make of it. The text has
been copied up to the end of `copied`, and `kept` is what has been read but not copied. -/
theorem splice?_replacements : ∀ (copied kept : Text) (es : List Edit),
    splice? (copied ++ kept ++ es.flatMap Edit.before) copied.byteLength
      (Edit.replacements (copied ++ kept).byteLength es) = some (kept ++ es.flatMap Edit.after)
  | copied, kept, [] => by
    have h := slice?_append copied kept []
    rw [List.append_nil] at h
    simpa [splice?, Edit.replacements] using h
  | copied, kept, .keep t :: es => by
    have ih := splice?_replacements copied (kept ++ t) es
    simp only [List.flatMap_cons, Edit.before, Edit.after, Edit.replacements,
      ← byteLength_append]
    simpa using ih
  | copied, kept, .link b target :: es => by
    have ih := splice?_replacements (copied ++ kept ++ b.written) [] es
    have hs := slice?_append copied kept (b.written ++ es.flatMap Edit.before)
    simp only [List.append_nil, List.nil_append] at ih
    simp only [List.flatMap_cons, Edit.before, Edit.after, Edit.replacements, splice?, hs,
      Option.bind_some, ← byteLength_append]
    simp only [List.append_assoc] at ih ⊢
    simp [ih]

theorem splice?_source (table : Table) (source : Text) :
    splice? source 0 (table.replacements source) = some (table.expandLenient source) := by
  have h := splice?_replacements [] [] (table.edits source)
  rw [Table.replacements]
  simpa only [List.nil_append, byteLength_nil, flatMap_before_edits, flatMap_after_edits] using h

end Replacing

section Lines

variable {table : Table}

theorem exists_line_of_mem_replacements {r : Replacement} :
    ∀ {start : Nat} {lines : List Line},
      r ∈ Edit.replacements start (lines.flatMap table.editsIn) →
        ∃ above line below, lines = above ++ line :: below ∧
          r ∈ Edit.replacements (start + (Line.source above).byteLength) (table.editsIn line)
  | start, [], h => by simp [Edit.replacements] at h
  | start, line :: lines, h => by
    rw [List.flatMap_cons, replacements_append, List.mem_append] at h
    rcases h with h | h
    · exact ⟨[], line, lines, rfl, by simpa [Line.source] using h⟩
    · obtain ⟨above, l, below, rfl, hr⟩ := exists_line_of_mem_replacements h
      refine ⟨line :: above, l, below, rfl, ?_⟩
      simpa [Line.source, flatMap_before_editsIn, byteLength_append, Nat.add_assoc] using hr

theorem exists_of_link_expandIn {line : Line} {b : Bracket} {target : Target}
    {above below : List Edit} (h : (table.expandIn line).edits = above ++ .link b target :: below) :
    line.isFixed = false ∧ b.WellFormed ∧ table.resolve b.key = some target := by
  unfold Table.expandIn at h
  split_ifs at h with hf
  · rcases above with _ | ⟨e, above⟩ <;> simp at h
  · obtain ⟨segs₁, segs₂, kept, hs, -, hd⟩ := exists_of_edit_eq h
    have hm : .bracket b ∈ segments line.text := by simp [hs]
    exact ⟨by simpa using hf, wellFormed_of_mem_segments hm, (decide_eq_link.1 hd).2.2.2.2⟩

theorem expands_of_mem_replacements {source : Text} {r : Replacement}
    (h : r ∈ table.replacements source) : ∃ above line below before b after target,
      table.Expands source r above line below before b after target := by
  obtain ⟨above, line, below, hsource, h⟩ := exists_line_of_mem_replacements h
  obtain ⟨es, b, target, es', hes, hstart, hstop, htext⟩ := exists_of_mem_replacements h
  obtain ⟨rest, hrest⟩ : ∃ rest, (table.expandIn line).edits = es ++ .link b target :: rest := by
    rcases List.eq_nil_or_concat es' with rfl | ⟨rest, e, rfl⟩
    · have := List.append_inj_right' hes (by simp)
      simp at this
    · rw [Table.editsIn, List.concat_eq_append, ← List.cons_append, ← List.append_assoc] at hes
      exact ⟨rest, List.append_inj_left' hes (by simp)⟩
  obtain ⟨hfixed, hform, hresolves⟩ := exists_of_link_expandIn hrest
  simp only [Line.isFixed, Bool.or_eq_false_iff] at hfixed
  refine ⟨above, line, below, es.flatMap Edit.before, b, rest.flatMap Edit.before, target,
    hsource, hfixed.1, hfixed.2, ?_, ?_, hstop, hform, hresolves, htext⟩
  · rw [← before_edits table line, hrest]
    simp [Edit.before]
  · rw [hstart, byteLength_append, Nat.zero_add]

variable {source before after : Text} {r : Replacement} {above below : List Line} {line : Line}
  {b : Bracket} {target : Target}

theorem Table.Expands.source_split
    (h : table.Expands source r above line below before b after target) :
    ∃ rest, source = Line.source above ++ before ++ (b.written ++ rest) := by
  refine ⟨after ++ line.ending ++ Line.source below, ?_⟩
  rw [← source_ofSource source, h.source_eq]
  simp [Line.source, h.line_eq]

theorem Table.Expands.stretch
    (h : table.Expands source r above line below before b after target) :
    r.start < r.stop ∧ r.stop ≤ source.byteLength ∧ source.IsBoundary r.start ∧
      source.IsBoundary r.stop := by
  obtain ⟨rest, hs⟩ := h.source_split
  have hpos := written_byteLength_pos b
  have hstart := h.start_eq
  have hstop := h.stop_eq
  refine ⟨by omega, ?_, ⟨_, _, hs, hstart.symm⟩, ?_⟩
  · rw [hs, byteLength_append, byteLength_append _ rest]
    omega
  · refine ⟨Line.source above ++ before ++ b.written, rest, by simp [hs], ?_⟩
    rw [byteLength_append]
    omega

/-- Expanding a source is one pass over it that copies everything but some stretches: these come
in order without overlap, can be cut out of the source, and each is a reference outside code and
definitions whose link takes its place. -/
theorem expandLenient_isSplice (table : Table) (source : Text) :
    (table.replacements source).Pairwise (fun r s => r.start < s.start ∧ r.stop ≤ s.start) ∧
    (∀ r ∈ table.replacements source,
      (r.start < r.stop ∧ r.stop ≤ source.byteLength ∧ source.IsBoundary r.start ∧
        source.IsBoundary r.stop) ∧
      ∃ above line below before b after target,
        table.Expands source r above line below before b after target) ∧
    splice? source 0 (table.replacements source) = some (table.expandLenient source) := by
  refine ⟨pairwise_replacements 0 _, fun r hr => ?_, splice?_source table source⟩
  obtain ⟨above, line, below, before, b, after, target, h⟩ := expands_of_mem_replacements hr
  exact ⟨h.stretch, above, line, below, before, b, after, target, h⟩

end Lines

end TidyMark.Reflink
