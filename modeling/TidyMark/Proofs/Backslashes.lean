import TidyMark.Proofs.Splice
import TidyMark.Proofs.Unclosed

/-!
# Brackets behind backslashes

On a line that is neither code nor a definition, a bracket is replaced where it is outside code
spans and destinations, is not passed and resolves; otherwise no replacement touches it
(`replaced_or_untouched`). So where nothing else stands against a bracket, the character before it
decides: the bracket is replaced unless that is a backslash (`mem_replacements_iff_backslashes`).
Whether that backslash is itself escaped does not count (`not_forall_mem_replacements_iff_even`).

Which destinations a line has is said by `lineDestinations`, while the expander keeps the place up
to which they reach. `exists_edit` follows both up to the bracket.
-/

namespace TidyMark.Reflink

open Text

/-- The number of backslashes that a text ends with. -/
def backslashes (t : Text) : Nat :=
  (t.reverse.takeWhile (· == '\\')).length

/-- A bracket among the segments of a line that is neither code nor a definition. -/
structure Bracket.StandsIn (b : Bracket) (source : Text) (above : List Line) (line : Line)
    (below : List Line) (front back : List Segment) : Prop where
  source_eq : Line.ofSource source = above ++ line :: below
  not_code : line.inCode = false
  not_definition : isDefinition line.text = false
  segments_eq : segments line.text = front ++ .bracket b :: back

/-- A bracket behind `before` meets none of the code spans and begins in none of the
destinations. -/
structure Bracket.IsOutside (b : Bracket) (codes dests : List Span) (before : Text) : Prop where
  code : ∀ s ∈ codes, s.meets before.length (before.length + b.written.length) = false
  destinations : dests.any (·.covers before.length) = false

/-- A bracket between two texts on a line is to become a link to a target. -/
structure Table.LinksTo (table : Table) (line before : Text) (b : Bracket) (after : Text)
    (target : Target) : Prop where
  outside : b.IsOutside (codeSpans line) (lineDestinations line) before
  not_passed : ¬ Passed before.reverse b after
  resolves : table.resolve b.key = some target

/-- Nothing but a backslash can keep a bracket between two texts on a line from becoming a link to a
target. -/
structure Table.Offers (table : Table) (line before : Text) (b : Bracket) (after : Text)
    (target : Target) : Prop where
  outside : b.IsOutside (codeSpans line) (lineDestinations line) before
  not_note : b.label.head? ≠ some '^'
  not_followed : ∀ c, after.head? = some c → c ≠ '(' ∧ c ≠ ':' ∧ c ≠ '\x7b'
  resolves : table.resolve b.key = some target

section Deciding

variable {table : Table} {kept : Nat} {line before after : Text} {b : Bracket} {target : Target}

theorem backslashes_eq_zero_iff {t : Text} : backslashes t = 0 ↔ t.reverse.head? ≠ some '\\' := by
  rw [backslashes, List.length_eq_zero_iff]
  rcases t.reverse with _ | ⟨c, rest⟩
  · simp
  · simp

theorem passed_iff_of_offers (h : table.Offers line before b after target) :
    Passed before.reverse b after ↔ backslashes before ≠ 0 := by
  rw [ne_eq, backslashes_eq_zero_iff, not_not]
  constructor
  · rintro (h' | h' | ⟨-, ha⟩ | ⟨-, ha, -⟩ | ⟨-, ha, -⟩)
    · exact h'
    · exact absurd h' h.not_note
    · exact absurd rfl (h.not_followed _ ha).1
    · exact absurd rfl (h.not_followed _ ha).2.1
    · exact absurd rfl (h.not_followed _ ha).2.2
  · exact .escaped

theorem linksTo_iff_backslashes (h : table.Offers line before b after target) :
    table.LinksTo line before b after target ↔ backslashes before = 0 := by
  have hpassed := (passed_iff_of_offers h).not_left
  exact ⟨fun hlinks => hpassed.1 hlinks.not_passed,
    fun hzero => ⟨h.outside, hpassed.2 hzero, h.resolves⟩⟩

/-- The expander makes a link of a bracket where it is to become one, if the place up to which
brackets are kept is where the destinations end. -/
theorem decide_eq_link_iff_linksTo
    (hkept : (lineDestinations line).any (·.covers before.length) = decide (before.length < kept)) :
    (table.decide (codeSpans line) kept before.reverse b after).edit = .link b target ↔
      table.LinksTo line before b after target := by
  rw [decide_eq_link, List.length_reverse, ← Nat.not_lt, ← decide_eq_false_iff_not, ← hkept]
  exact ⟨fun ⟨_, hdests, hcode, hpassed, hresolves⟩ => ⟨⟨hcode, hdests⟩, hpassed, hresolves⟩,
    fun ⟨⟨hcode, hdests⟩, hpassed, hresolves⟩ => ⟨rfl, hdests, hcode, hpassed, hresolves⟩⟩

/-- The edits of segments that a bracket stands among: those of the segments before it, what is
decided on the bracket, and the others. The place up to which brackets are kept tells whether the
bracket begins in a destination. -/
theorem exists_edit (table : Table) (codes : List Span) (b : Bracket) (back : List Segment) :
    ∀ (front : List Segment) {found : List Span} {kept : Nat} {before : Text},
      Reaches found kept before.length → ∃ es es' kept',
        (table.edit codes kept before.reverse (front ++ .bracket b :: back)).edits =
          es ++ (table.decide codes kept' (before ++ front.flatMap Segment.written).reverse b
            (back.flatMap Segment.written)).edit :: es' ∧
        es.flatMap Edit.before = front.flatMap Segment.written ∧
        (destinations codes found before (front ++ .bracket b :: back)).any
            (·.covers (before ++ front.flatMap Segment.written).length) =
          decide ((before ++ front.flatMap Segment.written).length < kept')
  | [], found, kept, before, h => by
    have hlt := length_lt_written before b
    rw [List.flatMap_nil, List.append_nil, List.nil_append, destinations,
      any_covers_destinations hlt, any_covers_append hlt]
    exact ⟨[], _, kept, rfl, rfl, h _ le_rfl⟩
  | .char c :: front, found, kept, before, h => by
    have hnext : Reaches found kept (before ++ [c]).length :=
      fun place hplace => h place (le_trans (by simp) hplace)
    obtain ⟨es, es', kept', hedits, hbefore, hkept⟩ := exists_edit table codes b back front hnext
    rw [List.append_assoc] at hedits hkept
    refine ⟨.keep [c] :: es, es', kept', ?_, ?_, hkept⟩
    · rw [List.reverse_append] at hedits
      exact congrArg (.keep [c] :: ·) hedits
    · rw [List.flatMap_cons, hbefore]
      rfl
  | .bracket b' :: front, found, kept, before, h => by
    have hnext := h.bracket table codes b' ((front ++ .bracket b :: back).flatMap Segment.written)
    obtain ⟨es, es', kept', hedits, hbefore, hkept⟩ := exists_edit table codes b back front hnext
    rw [List.append_assoc] at hedits hkept
    refine ⟨(table.decide codes kept before.reverse b'
      ((front ++ .bracket b :: back).flatMap Segment.written)).edit :: es, es', kept', ?_, ?_,
      hkept⟩
    · rw [List.reverse_append] at hedits
      exact congrArg (_ :: ·) hedits
    · rw [List.flatMap_cons, hbefore, before_decide]
      rfl

end Deciding

section Replacing

variable {es es' : List Edit} {start : Nat} {r : Replacement}

theorem stop_le_of_mem_replacements (h : r ∈ Edit.replacements start es) :
    r.stop ≤ start + byteLength (es.flatMap Edit.before) := by
  obtain ⟨above, b, target, below, rfl, hstart, hstop, -⟩ := exists_of_mem_replacements h
  simp only [List.flatMap_append, List.flatMap_cons, Edit.before, byteLength_append]
  omega

/-- Replacements do not touch a text that is kept. -/
theorem untouched_of_keep {t : Text} (h : r ∈ Edit.replacements start (es ++ .keep t :: es')) :
    r.stop ≤ start + byteLength (es.flatMap Edit.before) ∨
      start + byteLength (es.flatMap Edit.before) + t.byteLength ≤ r.start := by
  rw [replacements_append, List.mem_append] at h
  exact h.imp stop_le_of_mem_replacements fun h => (start_lt_stop h).1

theorem mem_replacements_link (start : Nat) (es es' : List Edit) (b : Bracket) (target : Target) :
    ⟨start + byteLength (es.flatMap Edit.before),
      start + byteLength (es.flatMap Edit.before) + b.written.byteLength, b.linked target⟩ ∈
        Edit.replacements start (es ++ .link b target :: es') := by
  rw [replacements_append]
  exact List.mem_append_right _ List.mem_cons_self

end Replacing

section Sources

/-- Where what follows some lines and segments begins, in bytes. -/
def placeBehind (above : List Line) (front : List Segment) : Nat :=
  (Line.source above ++ front.flatMap Segment.written).byteLength

variable {table : Table} {source : Text} {above below : List Line} {line : Line}
  {front back : List Segment} {b : Bracket} {target : Target}

/-- The edits of a source around what is decided on a bracket. -/
theorem Bracket.StandsIn.exists_edits (table : Table)
    (hb : b.StandsIn source above line below front back) : ∃ es es' kept,
      table.edits source = es ++ (table.decide (codeSpans line.text) kept
        (front.flatMap Segment.written).reverse b (back.flatMap Segment.written)).edit :: es' ∧
      byteLength (es.flatMap Edit.before) = placeBehind above front ∧
      (lineDestinations line.text).any (·.covers (front.flatMap Segment.written).length) =
        decide ((front.flatMap Segment.written).length < kept) := by
  have hstart : Reaches [] 0 (List.length ([] : Text)) := fun _ _ => rfl
  obtain ⟨es, es', kept, hedits, hbefore, hkept⟩ :=
    exists_edit table (codeSpans line.text) b back front hstart
  have hline : (table.expandIn line).edits = es ++ (table.decide (codeSpans line.text) kept
      (front.flatMap Segment.written).reverse b (back.flatMap Segment.written)).edit :: es' := by
    rw [Table.expandIn, Line.isFixed, hb.not_code, hb.not_definition, if_neg (by decide),
      Table.expandLine, hb.segments_eq]
    exact hedits
  refine ⟨above.flatMap table.editsIn ++ es,
    es' ++ .keep line.ending :: below.flatMap table.editsIn, kept, ?_, ?_, ?_⟩
  · rw [Table.edits, hb.source_eq, List.flatMap_append, List.flatMap_cons, Table.editsIn, hline]
    simp
  · rw [List.flatMap_append, hbefore, List.flatMap_assoc, placeBehind, Line.source]
    simp only [flatMap_before_editsIn]
  · rw [lineDestinations, hb.segments_eq]
    exact hkept

/-- A bracket is replaced by the link that it is to become. If it is to become none, all
replacements lie before it or behind it. -/
theorem replaced_or_untouched (table : Table)
    (hb : b.StandsIn source above line below front back) :
    (∃ target, table.LinksTo line.text (front.flatMap Segment.written) b
        (back.flatMap Segment.written) target ∧
      ⟨placeBehind above front, placeBehind above front + b.written.byteLength, b.linked target⟩ ∈
        table.replacements source) ∨
    (∀ target, ¬ table.LinksTo line.text (front.flatMap Segment.written) b
        (back.flatMap Segment.written) target) ∧
      ∀ r ∈ table.replacements source, r.stop ≤ placeBehind above front ∨
        placeBehind above front + b.written.byteLength ≤ r.start := by
  obtain ⟨es, es', kept, hedits, hplace, hkept⟩ := hb.exists_edits table
  rw [Table.replacements, hedits]
  cases hedit : (table.decide (codeSpans line.text) kept (front.flatMap Segment.written).reverse b
      (back.flatMap Segment.written)).edit with
  | link b' target =>
    obtain rfl := (decide_eq_link.1 hedit).1
    have hmem := mem_replacements_link 0 es es' b' target
    rw [hplace, Nat.zero_add] at hmem
    exact .inl ⟨target, (decide_eq_link_iff_linksTo hkept).1 hedit, hmem⟩
  | keep t =>
    have ht : t = b.written := by
      have hbefore := before_decide table (codeSpans line.text) kept
        (front.flatMap Segment.written).reverse b (back.flatMap Segment.written)
      rwa [hedit] at hbefore
    refine .inr ⟨fun target hlinks => ?_, fun r hr => ?_⟩
    · cases hedit.symm.trans ((decide_eq_link_iff_linksTo hkept).2 hlinks)
    · have huntouched := untouched_of_keep hr
      rwa [hplace, Nat.zero_add, ht] at huntouched

/-- A bracket that nothing but a backslash can keep from becoming a link is replaced where no
backslash stands before it. Otherwise no replacement touches it. -/
theorem mem_replacements_iff_backslashes (hb : b.StandsIn source above line below front back)
    (h : table.Offers line.text (front.flatMap Segment.written) b (back.flatMap Segment.written)
      target) :
    (⟨placeBehind above front, placeBehind above front + b.written.byteLength, b.linked target⟩ ∈
        table.replacements source ↔ backslashes (front.flatMap Segment.written) = 0) ∧
      (backslashes (front.flatMap Segment.written) ≠ 0 → ∀ r ∈ table.replacements source,
        r.stop ≤ placeBehind above front ∨
          placeBehind above front + b.written.byteLength ≤ r.start) := by
  rcases replaced_or_untouched table hb with ⟨target', hlinks, hmem⟩ | ⟨hnot, huntouched⟩
  · obtain rfl := Option.some.inj (hlinks.resolves.symm.trans h.resolves)
    have hzero := (linksTo_iff_backslashes h).1 hlinks
    exact ⟨iff_of_true hmem hzero, fun hne => absurd hzero hne⟩
  · have hne := mt (linksTo_iff_backslashes h).2 (hnot target)
    refine ⟨iff_of_false (fun hmem => ?_) hne, fun _ => huntouched⟩
    have hpos := written_byteLength_pos b
    have hself := huntouched _ hmem
    dsimp only at hself
    omega

/-- Behind three backslashes a reference stays, and the one after it is replaced. -/
theorem mem_replacements_iff_backslashes_three :
    (∀ r ∈ (⟨[("foo", ⟨"bar", none⟩)]⟩ : Table).replacements "\\\\\\[foo] [foo]",
        r.stop ≤ 3 ∨ 8 ≤ r.start) ∧
      ⟨9, 14, "[foo](bar)"⟩ ∈
        (⟨[("foo", ⟨"bar", none⟩)]⟩ : Table).replacements "\\\\\\[foo] [foo]" := by
  have hsource : Line.ofSource "\\\\\\[foo] [foo]" =
      [] ++ ⟨"\\\\\\[foo] [foo]", [], false⟩ :: [] := by decide +kernel
  have hfirst : Bracket.StandsIn ⟨false, "foo", none, none⟩ "\\\\\\[foo] [foo]" [] _ []
      [.char '\\', .char '\\', .char '\\'] [.char ' ', .bracket ⟨false, "foo", none, none⟩] :=
    ⟨hsource, rfl, by decide +kernel, by with_unfolding_all rfl⟩
  have hsecond : Bracket.StandsIn ⟨false, "foo", none, none⟩ "\\\\\\[foo] [foo]" [] _ []
      [.char '\\', .char '\\', .char '\\', .bracket ⟨false, "foo", none, none⟩, .char ' '] [] :=
    ⟨hsource, rfl, by decide +kernel, by with_unfolding_all rfl⟩
  refine ⟨(@mem_replacements_iff_backslashes ⟨[("foo", ⟨"bar", none⟩)]⟩ _ _ _ _ _ _ _
    ⟨"bar", none⟩ hfirst ?_).2 (by decide), ?_⟩
  · exact ⟨⟨by decide +kernel, by decide +kernel⟩, by decide,
      fun c hc => Option.some.inj hc ▸ by decide, by decide +kernel⟩
  · refine (@mem_replacements_iff_backslashes ⟨[("foo", ⟨"bar", none⟩)]⟩ _ _ _ _ _ _ _
      ⟨"bar", none⟩ hsecond ?_).1.2 (by decide)
    exact ⟨⟨by decide +kernel, by decide +kernel⟩, by decide, fun c hc => (nomatch hc),
      by decide +kernel⟩

/-- Two backslashes escape no bracket, but keep it from being replaced. -/
theorem not_forall_mem_replacements_iff_even :
    ¬ ∀ (table : Table) (source : Text) (above below : List Line) (line : Line)
      (front back : List Segment) (b : Bracket) (target : Target),
      b.StandsIn source above line below front back →
      table.Offers line.text (front.flatMap Segment.written) b (back.flatMap Segment.written)
        target →
      (⟨placeBehind above front, placeBehind above front + b.written.byteLength,
          b.linked target⟩ ∈ table.replacements source ↔
        backslashes (front.flatMap Segment.written) % 2 = 0) := by
  intro h
  have hb : Bracket.StandsIn ⟨false, "foo", none, none⟩ "\\\\[foo]\n\n[foo]: bar\n" []
      ⟨"\\\\[foo]", "\n", false⟩ [⟨"", "\n", false⟩, ⟨"[foo]: bar", "\n", false⟩]
      [.char '\\', .char '\\'] [] :=
    ⟨by decide +kernel, rfl, by decide +kernel, by with_unfolding_all rfl⟩
  have hoffers : (Table.ofDocument "\\\\[foo]\n\n[foo]: bar\n").Offers "\\\\[foo]" "\\\\"
      ⟨false, "foo", none, none⟩ [] ⟨"bar", none⟩ :=
    ⟨⟨by decide +kernel, by decide +kernel⟩, by decide, fun c hc => (nomatch hc),
      by decide +kernel⟩
  have hmem := (h _ _ _ _ _ _ _ _ _ hb hoffers).2 (by decide)
  exact absurd hmem (by decide +kernel)

end Sources

end TidyMark.Reflink
