import TidyMark.Proofs.Reexpansion

/-!
# Unclosed fragments

In strict mode the expander refuses a reference that a brace follows which its line does not close.
`UnclosedAt` says where such references stand, without the table and without the order in which the
expander decides: a reference does not count behind a backslash, with the label of a footnote, in a
code span or in the destination of an inline link (`destinations`). A strict expansion is the
lenient one if there are none, and otherwise it fails with the place of the first one
(`expand_strict_eq_ok_or_error`).

The expander keeps only the place up to which the destinations so far reach. `Reaches` relates it to
the list of these destinations, and each segment keeps this up.
-/

namespace TidyMark.Reflink

open Text

/-- Whether a bracket behind `before` counts as a reference: it stands directly behind no backslash,
its label is not that of a footnote, and it meets no code span. -/
def Bracket.counts (b : Bracket) (codes : List Span) (before : Text) : Bool :=
  before.getLast? != some '\\' && b.label.head? != some '^' &&
    !codes.any (·.meets before.length (before.length + b.written.length))

/-- The length of the destination behind a bracket, where the two are an inline link. -/
def Bracket.destinationBehind? (b : Bracket) (after : Text) : Option Nat :=
  if b.reference.isNone && b.fragment.isNone && after.head? == some '(' then
    destinationLength? after
  else none

/-- Whether a place lies in a span. -/
def Span.covers (s : Span) (place : Nat) : Bool :=
  s.start ≤ place && place < s.stop

/-- The length of the destination behind a bracket that counts. What stands in one of the
destinations `found` is no link. -/
def Bracket.linkLength? (b : Bracket) (codes found : List Span) (before after : Text) : Option Nat :=
  if b.counts codes before && !found.any (·.covers before.length) then b.destinationBehind? after
  else none

def spanBehind (place : Nat) (length? : Option Nat) : List Span :=
  length?.toList.map fun n => ⟨place, place + n⟩

/-- The destinations of the inline links among segments, behind those in `found`. -/
def destinations (codes found : List Span) (before : Text) : List Segment → List Span
  | [] => found
  | .char c :: rest => destinations codes found (before ++ [c]) rest
  | .bracket b :: rest =>
    let length? := b.linkLength? codes found before (rest.flatMap Segment.written)
    destinations codes (found ++ spanBehind (before ++ b.written).length length?)
      (before ++ b.written) rest

/-- The destinations of the inline links of a line. -/
def lineDestinations (line : Text) : List Span :=
  destinations (codeSpans line) [] [] (segments line)

/-- A reference between two texts is followed by a brace that its line does not close. -/
structure IsUnclosed (codes dests : List Span) (before : Text) (b : Bracket) (after : Text) :
    Prop where
  counts : b.counts codes before = true
  outside : dests.any (·.covers before.length) = false
  no_fragment : b.fragment = none
  opened : after.head? = some '\x7b'
  not_closed : '\x7d' ∉ after

/-- The line and the column, both from one, of a brace that no other one closes, directly behind a
reference on a line that is neither code nor a definition. -/
inductive UnclosedAt (source : Text) : Nat → Nat → Prop
  | intro {above below : List Line} {line : Line} {front back : List Segment} {b : Bracket}
      (hsource : Line.ofSource source = above ++ line :: below) (hcode : line.inCode = false)
      (hdefinition : isDefinition line.text = false)
      (hsegments : segments line.text = front ++ .bracket b :: back)
      (h : IsUnclosed (codeSpans line.text) (lineDestinations line.text)
        (front.flatMap Segment.written) b (back.flatMap Segment.written)) :
      UnclosedAt source (above.length + 1) ((front.flatMap Segment.written ++ b.written).length + 1)

section Deciding

variable {table : Table} {codes dests : List Span} {kept : Nat} {before : Text} {b : Bracket}
  {after : Text}

theorem judge_eq_malformed_iff : table.judge before b after = .malformed ↔
    before.head? ≠ some '\\' ∧ b.label.head? ≠ some '^' ∧ b.fragment = none ∧
      after.head? = some '\x7b' ∧ '\x7d' ∉ after := by
  simp only [Table.judge]
  split_ifs with h1 h2 h3 h4
  · simp only [Bool.or_eq_true, beq_iff_eq] at h1
    refine iff_of_false (fun h => by cases h) fun h => ?_
    exact h1.elim h.1 h.2.1
  · simp only [Bool.and_eq_true, beq_iff_eq] at h2
    refine iff_of_false (fun h => by split at h <;> cases h) fun h => ?_
    cases h2.2.symm.trans h.2.2.2.1
  · simp only [Bool.and_eq_true, beq_iff_eq] at h3
    refine iff_of_false (fun h => by cases h) fun h => ?_
    cases h3.1.2.symm.trans h.2.2.2.1
  · simp_all
  · refine iff_of_false (fun h => by split at h <;> cases h) fun h => h4 ?_
    simp [h.2.2.1, h.2.2.2.1, h.2.2.2.2]

theorem protects_judge : (table.judge before b after).protects =
    if before.head? = some '\\' ∨ b.label.head? = some '^' then none
    else b.destinationBehind? after := by
  simp only [Table.judge, Bracket.destinationBehind?]
  by_cases h : before.head? = some '\\' ∨ b.label.head? = some '^'
  · rw [if_pos (by simpa using h), if_pos h]
    rfl
  · rw [if_neg (by simpa using h), if_neg h]
    split_ifs
    · cases destinationLength? after <;> rfl
    · rfl
    · rfl
    · cases table.resolve b.key <;> rfl

theorem counts_iff : b.counts codes before = true ↔
    ¬(before.reverse.head? = some '\\' ∨ b.label.head? = some '^') ∧
      codes.any (·.meets before.length (before.length + b.written.length)) = false := by
  simp [Bracket.counts]

theorem isUnclosed_iff : IsUnclosed codes dests before b after ↔ b.counts codes before = true ∧
    dests.any (·.covers before.length) = false ∧ b.fragment = none ∧ after.head? = some '\x7b' ∧
      '\x7d' ∉ after :=
  ⟨fun ⟨h1, h2, h3, h4, h5⟩ => ⟨h1, h2, h3, h4, h5⟩, fun ⟨h1, h2, h3, h4, h5⟩ => ⟨h1, h2, h3, h4, h5⟩⟩

section Left

variable (hinside : dests.any (·.covers before.length) = decide (before.length < kept))

include hinside

/-- A bracket that is left alone stands in a destination or does not count. -/
theorem of_isLeft (h : IsLeft codes kept before.reverse b.written.length) :
    ¬(b.counts codes before = true ∧ dests.any (·.covers before.length) = false) := by
  rw [IsLeft, List.length_reverse] at h
  rw [counts_iff, hinside, decide_eq_false_iff_not]
  rintro ⟨⟨-, hcode⟩, hkept⟩
  rw [hcode] at h
  exact h.elim hkept (by simp)

theorem of_not_isLeft (h : ¬ IsLeft codes kept before.reverse b.written.length) :
    dests.any (·.covers before.length) = false ∧ (b.counts codes before = true ↔
      ¬(before.reverse.head? = some '\\' ∨ b.label.head? = some '^')) := by
  rw [IsLeft, List.length_reverse, not_or, Bool.not_eq_true] at h
  rw [counts_iff, hinside, decide_eq_false_iff_not]
  exact ⟨h.1, and_iff_left h.2⟩

/-- A bracket is refused where it is unclosed. -/
theorem malformed_decide {place : Nat} :
    (table.decide codes kept before.reverse b after).malformed = some place ↔
      IsUnclosed codes dests before b after ∧ place = (before ++ b.written).length := by
  rw [isUnclosed_iff, List.length_append]
  by_cases hleft : IsLeft codes kept before.reverse b.written.length
  · rw [decide_of_isLeft hleft]
    refine iff_of_false (fun h => by cases h) fun h => of_isLeft hinside hleft ⟨h.1.1, h.1.2.1⟩
  · obtain ⟨houtside, hcounts⟩ := of_not_isLeft (b := b) hinside hleft
    have hmalformed : table.judge before.reverse b after = .malformed ↔ _ := judge_eq_malformed_iff
    rw [← and_assoc, ← not_or, ← hcounts] at hmalformed
    rw [decide_of_not_isLeft hleft, List.length_reverse]
    simp only [houtside, true_and]
    rw [← hmalformed]
    cases table.judge before.reverse b after <;> simp [eq_comm]

/-- A destination begins behind a bracket that counts and stands in no other destination. -/
theorem kept_decide : (table.decide codes kept before.reverse b after).kept =
    ((b.linkLength? codes dests before after).map ((before ++ b.written).length + ·)).getD kept := by
  rw [Bracket.linkLength?, List.length_append]
  by_cases hleft : IsLeft codes kept before.reverse b.written.length
  · have hnot := of_isLeft (b := b) hinside hleft
    rw [decide_of_isLeft hleft, if_neg (by simpa using hnot)]
    rfl
  · obtain ⟨houtside, hcounts⟩ := of_not_isLeft (b := b) hinside hleft
    have hprotects : (table.judge before.reverse b after).protects = _ := protects_judge
    have hif : (if (b.counts codes before && !dests.any (·.covers before.length)) = true then
        b.destinationBehind? after else none) = (table.judge before.reverse b after).protects := by
      rw [hprotects, houtside, Bool.not_false, Bool.and_true]
      split_ifs with h1 h2 h2
      · exact absurd h2 (hcounts.1 h1)
      · rfl
      · rfl
      · exact absurd (hcounts.2 h2) h1
    rw [hif, decide_of_not_isLeft hleft, List.length_reverse]
    cases table.judge before.reverse b after <;> rfl

end Left

end Deciding

section Lines

/-- Where brackets among segments behind `before` are unclosed: the places behind them. -/
def UnclosedIn (codes dests : List Span) (before : Text) (segs : List Segment) (place : Nat) : Prop :=
  ∃ front b back, segs = front ++ .bracket b :: back ∧
    IsUnclosed codes dests (before ++ front.flatMap Segment.written) b
      (back.flatMap Segment.written) ∧
    place = (before ++ front.flatMap Segment.written ++ b.written).length

/-- Whether an answer is the least number with a property, or says that there is none. -/
def IsFirst (p : Nat → Prop) : Option Nat → Prop
  | some n => p n ∧ ∀ m, p m → n ≤ m
  | none => ∀ m, ¬ p m

/-- The destinations `found` reach up to the place `kept`, as far as places from `start` on go. -/
def Reaches (found : List Span) (kept start : Nat) : Prop :=
  ∀ place, start ≤ place → found.any (·.covers place) = decide (place < kept)

variable {codes dests found : List Span} {kept place : Nat} {before : Text} {b : Bracket}
  {segs : List Segment}

theorem unclosedIn_char {c : Char} : UnclosedIn codes dests before (.char c :: segs) place ↔
    UnclosedIn codes dests (before ++ [c]) segs place := by
  constructor
  · rintro ⟨front, b, back, hsegs, h, hplace⟩
    rcases front with _ | ⟨seg, front⟩
    · cases hsegs
    · cases hsegs
      exact ⟨front, b, back, rfl, by simpa [Segment.written] using h,
        by simpa [Segment.written] using hplace⟩
  · rintro ⟨front, b, back, rfl, h, hplace⟩
    exact ⟨.char c :: front, b, back, rfl, by simpa [Segment.written] using h,
      by simpa [Segment.written] using hplace⟩

theorem unclosedIn_bracket : UnclosedIn codes dests before (.bracket b :: segs) place ↔
    (IsUnclosed codes dests before b (segs.flatMap Segment.written) ∧
      place = (before ++ b.written).length) ∨
    UnclosedIn codes dests (before ++ b.written) segs place := by
  constructor
  · rintro ⟨front, b', back, hsegs, h, hplace⟩
    rcases front with _ | ⟨seg, front⟩
    · cases hsegs
      exact .inl ⟨by simpa using h, by simpa using hplace⟩
    · cases hsegs
      exact .inr ⟨front, b', back, rfl, by simpa [Segment.written] using h,
        by simpa [Segment.written] using hplace⟩
  · rintro (⟨h, hplace⟩ | ⟨front, b', back, rfl, h, hplace⟩)
    · exact ⟨[], b, segs, rfl, by simpa using h, by simpa using hplace⟩
    · exact ⟨.bracket b :: front, b', back, rfl, by simpa [Segment.written] using h,
        by simpa [Segment.written] using hplace⟩

theorem length_le_of_unclosedIn (h : UnclosedIn codes dests before segs place) :
    before.length ≤ place := by
  obtain ⟨front, b, back, -, -, rfl⟩ := h
  simp only [List.length_append]
  omega

theorem length_lt_written (before : Text) (b : Bracket) :
    before.length < (before ++ b.written).length := by
  have := List.length_pos_iff.2 b.written_ne_nil
  rw [List.length_append]
  omega

/-- A destination that is found later does not cover an earlier place. -/
theorem any_covers_append {n : Option Nat} {stop : Nat} (h : place < stop) :
    (found ++ spanBehind stop n).any (·.covers place) = found.any (·.covers place) := by
  cases n with
  | none => simp [spanBehind]
  | some n => simp [spanBehind, Span.covers, Nat.not_le.2 h]

theorem any_covers_destinations : ∀ {segs : List Segment} {found : List Span} {before : Text},
    place < before.length →
      (destinations codes found before segs).any (·.covers place) = found.any (·.covers place)
  | [], _, _, _ => rfl
  | .char c :: segs, found, before, h => by
    rw [destinations]
    exact any_covers_destinations (h.trans (by simp))
  | .bracket b :: segs, found, before, h => by
    have hstop := h.trans (length_lt_written before b)
    rw [destinations, any_covers_destinations hstop, any_covers_append hstop]

/-- What the expander keeps behind a bracket is what the destinations up to there reach. -/
theorem Reaches.bracket (table : Table) (codes : List Span) (b : Bracket)
    (h : Reaches found kept before.length) (after : Text) :
    Reaches (found ++ spanBehind (before ++ b.written).length (b.linkLength? codes found before after))
      (table.decide codes kept before.reverse b after).kept (before ++ b.written).length := by
  intro place hplace
  have hlt := length_lt_written before b
  have hfound := h place (hlt.le.trans hplace)
  rw [kept_decide (h _ le_rfl), List.any_append, hfound]
  cases hlength : b.linkLength? codes found before after with
  | none => simp [spanBehind]
  | some n =>
    -- The bracket stands in no destination, so none of those before it reaches beyond it.
    have houtside : found.any (·.covers before.length) = false := by
      unfold Bracket.linkLength? at hlength
      split_ifs at hlength with hif
      simpa using (Bool.and_eq_true_iff.1 hif).2
    rw [h _ le_rfl, decide_eq_false_iff_not] at houtside
    have hkept : ¬ place < kept := by omega
    simp only [spanBehind, Option.toList_some, List.map_cons, List.map_nil, List.any_cons,
      List.any_nil, Span.covers, hkept, hplace, decide_true, decide_false, Bool.true_and,
      Bool.false_or, Bool.or_false, Option.map_some, Option.getD_some]

theorem IsFirst.char {c : Char} {answer : Option Nat}
    (h : IsFirst (UnclosedIn codes dests (before ++ [c]) segs) answer) :
    IsFirst (UnclosedIn codes dests before (.char c :: segs)) answer := by
  have heq : UnclosedIn codes dests before (.char c :: segs) =
      UnclosedIn codes dests (before ++ [c]) segs := funext fun _ => propext unclosedIn_char
  rwa [heq]

theorem IsFirst.bracket {here later : Option Nat}
    (hhere : ∀ place, here = some place ↔
      IsUnclosed codes dests before b (segs.flatMap Segment.written) ∧
        place = (before ++ b.written).length)
    (hlater : IsFirst (UnclosedIn codes dests (before ++ b.written) segs) later) :
    IsFirst (UnclosedIn codes dests before (.bracket b :: segs)) (here.or later) := by
  cases here with
  | some n =>
    obtain ⟨h, rfl⟩ := (hhere n).1 rfl
    refine ⟨unclosedIn_bracket.2 (.inl ⟨h, rfl⟩), fun m hm => ?_⟩
    rcases unclosedIn_bracket.1 hm with ⟨-, rfl⟩ | hm
    · exact le_rfl
    · exact length_le_of_unclosedIn hm
  | none =>
    have hnot : ∀ {m}, UnclosedIn codes dests before (.bracket b :: segs) m →
        UnclosedIn codes dests (before ++ b.written) segs m := fun {m} hm =>
      (unclosedIn_bracket.1 hm).resolve_left fun hm => nomatch (hhere m).2 hm
    cases later with
    | some n => exact ⟨unclosedIn_bracket.2 (.inr hlater.1), fun m hm => hlater.2 m (hnot hm)⟩
    | none => exact fun m hm => hlater m (hnot hm)

theorem isFirst_edit (table : Table) (codes : List Span) : ∀ (segs : List Segment) (kept : Nat)
    (found : List Span) (before : Text), Reaches found kept before.length →
      IsFirst (UnclosedIn codes (destinations codes found before segs) before segs)
        (table.edit codes kept before.reverse segs).malformed
  | [], _, _, _, _ => by
    rintro place ⟨front, b, back, h, -⟩
    cases front <;> cases h
  | .char c :: segs, kept, found, before, h => by
    have hrest := isFirst_edit table codes segs kept found (before ++ [c])
      fun place hplace => h place (le_trans (by simp) hplace)
    rw [List.reverse_append] at hrest
    exact hrest.char
  | .bracket b :: segs, kept, found, before, h => by
    have hrest := isFirst_edit table codes segs _ _ (before ++ b.written)
      (h.bracket table codes b (segs.flatMap Segment.written))
    rw [List.reverse_append] at hrest
    refine IsFirst.bracket (fun place => malformed_decide ?_) hrest
    have hlt := length_lt_written before b
    rw [destinations, any_covers_destinations hlt, any_covers_append hlt, h _ le_rfl]

end Lines

section Sources

variable {table : Table} {source : Text}

theorem isFirst_expandIn (table : Table) {line : Line} (h : line.isFixed = false) :
    IsFirst (UnclosedIn (codeSpans line.text) (lineDestinations line.text) [] (segments line.text))
      (table.expandIn line).malformed := by
  rw [Table.expandIn, h, if_neg Bool.false_ne_true]
  exact isFirst_edit table (codeSpans line.text) (segments line.text) 0 [] [] fun _ _ => rfl

/-- The expander finds a malformed place on each line with an unclosed reference. -/
theorem malformed_expandIn_ne_none (table : Table) {line : Line} {place : Nat}
    (hfixed : line.isFixed = false) (h : UnclosedIn (codeSpans line.text)
      (lineDestinations line.text) [] (segments line.text) place) :
    (table.expandIn line).malformed ≠ none := fun hnone => by
  have hfirst := isFirst_expandIn table hfixed
  rw [hnone] at hfirst
  exact hfirst place h

theorem isFixed_of_malformed {line : Line} {place : Nat}
    (h : (table.expandIn line).malformed = some place) : line.isFixed = false := by
  unfold Table.expandIn at h
  split_ifs at h with hfixed
  simpa using hfixed

/-- The malformed place of lines is that of the first line that has one. -/
theorem malformed_expandLines (table : Table) : ∀ (lines : List Line) (number : Nat),
    match (table.expandLines number lines).malformed with
    | some (l, c) => ∃ above line below place, lines = above ++ line :: below ∧
        l = number + above.length ∧ c = place + 1 ∧
        (table.expandIn line).malformed = some place ∧
        ∀ line' ∈ above, (table.expandIn line').malformed = none
    | none => ∀ line ∈ lines, (table.expandIn line).malformed = none
  | [], _ => by simp [Table.expandLines]
  | line :: lines, number => by
    have ih := malformed_expandLines table lines (number + 1)
    rw [Table.expandLines]
    cases hline : (table.expandIn line).malformed with
    | some place => exact ⟨[], line, lines, place, rfl, rfl, rfl, hline, by simp⟩
    | none =>
      dsimp only
      split at ih
      · next l c hmalformed =>
        obtain ⟨above, line', below, place, rfl, rfl, rfl, hplace, habove⟩ := ih
        refine ⟨line :: above, line', below, place, rfl, ?_, rfl, hplace, ?_⟩
        · rw [List.length_cons]
          omega
        · exact List.forall_mem_cons.2 ⟨hline, habove⟩
      · exact List.forall_mem_cons.2 ⟨hline, ih⟩

/-- The places of unclosed references, line by line. -/
theorem unclosedAt_iff {l c : Nat} : UnclosedAt source l c ↔ ∃ above line below place,
    Line.ofSource source = above ++ line :: below ∧ line.isFixed = false ∧
      UnclosedIn (codeSpans line.text) (lineDestinations line.text) [] (segments line.text) place ∧
      l = above.length + 1 ∧ c = place + 1 := by
  constructor
  · rintro ⟨hsource, hcode, hdefinition, hsegments, h⟩
    exact ⟨_, _, _, _, hsource, by simp [Line.isFixed, hcode, hdefinition],
      ⟨_, _, _, hsegments, h, rfl⟩, rfl, rfl⟩
  · rintro ⟨above, line, below, place, hsource, hfixed, ⟨front, b, back, hsegments, h, rfl⟩, rfl, rfl⟩
    rw [Line.isFixed, Bool.or_eq_false_iff] at hfixed
    exact .intro hsource hfixed.1 hfixed.2 hsegments h

theorem exists_returns {t : Text} (hn : '\n' ∉ t) : ∃ text rs : Text, t = text ++ rs ∧
    (∀ c ∈ rs, c = '\r') ∧ IsLine text rs ∧ IsLine text (rs ++ ['\n']) := by
  obtain ⟨text, rs, rfl, hline, hline'⟩ := exists_isLine hn
  obtain ⟨rs', hrs, rfl | rfl⟩ := hline.ending
  · exact ⟨text, rs, rfl, hrs, hline, hline'⟩
  · simp at hn

/-- The lines that the scanner marks are those between line feeds, without the carriage returns at
their ends. -/
theorem exists_getElem?_splitLines {ps : List Text} (h : ArePieces ps) :
    ∀ {region : Region} {above below : List Line} {line : Line},
      Line.mark region ps = above ++ line :: below →
        ∃ rs : Text, (∀ c ∈ rs, c = '\r') ∧
          (splitLines ps.flatten)[above.length]? = some (line.text ++ rs) := by
  induction h with
  | nil =>
    intro _ above _ _ hmark
    cases above <;> cases hmark
  | last hn ht =>
    intro region above below line hmark
    obtain ⟨text, rs, rfl, hrs, hline, -⟩ := exists_returns hn
    rw [mark_cons hline] at hmark
    rcases above with _ | ⟨first, above⟩
    · cases hmark
      refine ⟨rs, hrs, ?_⟩
      rw [List.flatten_singleton, splitLines_of_not_mem hn]
      rfl
    · simp [Line.mark] at hmark
  | cons hn _ ih =>
    intro region above below line hmark
    obtain ⟨text, rs, rfl, hrs, -, hline⟩ := exists_returns hn
    rw [List.append_assoc, mark_cons hline] at hmark
    rw [List.flatten_cons, List.append_assoc, List.singleton_append, splitLines_append_newline,
      splitLines_of_not_mem hn, List.singleton_append]
    rcases above with _ | ⟨first, above⟩
    · cases hmark
      exact ⟨rs, hrs, rfl⟩
    · rw [List.cons_append, List.cons.injEq] at hmark
      exact ih hmark.2

theorem getLast?_written_of_no_fragment {b : Bracket} (h : b.fragment = none) :
    b.written.getLast? = some ']' := by
  cases hr : b.reference with
  | none =>
    simp only [Bracket.written, Bracket.head, h, hr, Option.elim_none, List.append_nil,
      getLast?_between]
  | some r =>
    simp only [Bracket.written, h, hr, Option.elim_none, Option.elim_some, List.append_nil,
      getLast?_between]

/-- An unclosed reference is there in the source: on its line, counted from one between line feeds,
the character at its column is a brace directly behind a bracket, and no brace closes it. -/
theorem exists_brace {l c : Nat} (h : UnclosedAt source l c) : ∃ u v : Text,
    (splitLines source)[l - 1]? = some (u ++ '\x7b' :: v) ∧ u.length + 1 = c ∧
      u.getLast? = some ']' ∧ '\x7d' ∉ v := by
  obtain @⟨above, below, line, front, back, b, hsource, -, -, hsegments, hb⟩ := h
  obtain ⟨rs, hrs, hline⟩ := exists_getElem?_splitLines (arePieces_pieces source) hsource
  rw [flatten_pieces] at hline
  obtain ⟨v, hv⟩ : ∃ v, back.flatMap Segment.written = '\x7b' :: v :=
    List.head?_eq_some_iff.1 hb.opened
  have htext : line.text = front.flatMap Segment.written ++ b.written ++ '\x7b' :: v := by
    rw [← written_segments line.text, hsegments, ← hv]
    simp [Segment.written]
  refine ⟨front.flatMap Segment.written ++ b.written, v ++ rs, ?_, rfl, ?_, fun hmem => ?_⟩
  · rw [Nat.add_sub_cancel, hline, htext, List.append_assoc _ ('\x7b' :: v), List.cons_append]
  · rw [List.getLast?_append_of_ne_nil _ b.written_ne_nil]
    exact getLast?_written_of_no_fragment hb.no_fragment
  · rcases List.mem_append.1 hmem with hmem | hmem
    · exact hb.not_closed (hv ▸ List.mem_cons_of_mem _ hmem)
    · cases hrs _ hmem

end Sources

/-- A strict expansion is the lenient one where every brace behind a reference is closed. Otherwise
it fails with the place of the first one that is not, which is there in the source. -/
theorem expand_strict_eq_ok_or_error (table : Table) (source : Text) :
    (table.expand true source = .ok (table.expandLenient source) ∧
      ∀ l c, ¬ UnclosedAt source l c) ∨
    ∃ l c, table.expand true source = .error (.unclosedFragment l c) ∧ UnclosedAt source l c ∧
      (∀ l' c', UnclosedAt source l' c' → l < l' ∨ l = l' ∧ c ≤ c') ∧
      ∃ u v : Text, (splitLines source)[l - 1]? = some (u ++ '\x7b' :: v) ∧ u.length + 1 = c ∧
        u.getLast? = some ']' ∧ '\x7d' ∉ v := by
  have hlines := malformed_expandLines table (Line.ofSource source) 1
  rw [← Table.expansion] at hlines
  cases hmalformed : (table.expansion source).malformed with
  | none =>
    rw [hmalformed] at hlines
    refine .inl ⟨by simp [Table.expand, hmalformed, Table.expandLenient], fun l c h => ?_⟩
    obtain ⟨above, line, below, place, hsource, hfixed, hplace, -, -⟩ := unclosedAt_iff.1 h
    exact malformed_expandIn_ne_none table hfixed hplace (hlines line (by simp [hsource]))
  | some found =>
    obtain ⟨l, c⟩ := found
    rw [hmalformed] at hlines
    obtain ⟨above, line, below, place, hsource, rfl, rfl, hplace, habove⟩ := hlines
    have hfixed := isFixed_of_malformed hplace
    have hfirst := isFirst_expandIn table hfixed
    rw [hplace] at hfirst
    have hat : UnclosedAt source (1 + above.length) (place + 1) :=
      unclosedAt_iff.2 ⟨above, line, below, place, hsource, hfixed, hfirst.1, Nat.add_comm _ _, rfl⟩
    refine .inr ⟨_, _, by simp [Table.expand, hmalformed], hat, fun l' c' h => ?_, exists_brace hat⟩
    obtain ⟨above', line', below', place', hsource', hfixed', hplace', rfl, rfl⟩ := unclosedAt_iff.1 h
    rw [hsource] at hsource'
    rcases Nat.lt_trichotomy above'.length above.length with hlt | heq | hgt
    · have hmem : (above ++ line :: below)[above'.length]? = some line' := by
        simp [hsource']
      rw [List.getElem?_append_left hlt] at hmem
      exact absurd (habove line' (List.mem_of_getElem? hmem))
        (malformed_expandIn_ne_none table hfixed' hplace')
    · obtain ⟨rfl, hrest⟩ := List.append_inj hsource' heq.symm
      cases hrest
      exact .inr ⟨Nat.add_comm _ _, Nat.succ_le_succ (hfirst.2 place' hplace')⟩
    · exact .inl (by omega)

end TidyMark.Reflink
