import Mathlib.Tactic.SplitIfs
import TidyMark.Reflink.Expansion

/-!
# Which brackets become links

What a reader of brackets finds has the form of a reference and stands on one line
(`Bracket.wellFormed_of_read?`). Of the brackets of a line the expander turns those into links
that its judgement lets pass and whose key is in the table (`judge_eq_link`); a link in the edits
of a line is such a bracket at its place in the line (`exists_of_edit_eq`).
-/

namespace TidyMark.Reflink

def IsPlain (c : Char) : Prop :=
  c ≠ '[' ∧ c ≠ ']' ∧ c ≠ '\n'

/-- What may stand between the first brackets: brackets only in pairs, none in another one. -/
inductive IsLabel : Text → Prop
  | nil : IsLabel []
  | char {c : Char} {t : Text} (hc : IsPlain c) (ht : IsLabel t) : IsLabel (c :: t)
  | pair {inside t : Text} (hi : ∀ c ∈ inside, IsPlain c) (ht : IsLabel t) :
      IsLabel (between '[' inside ']' ++ t)

/-- The form of a reference: `[label]`, perhaps `[reference]` and perhaps a fragment in braces. -/
structure Bracket.WellFormed (b : Bracket) : Prop where
  label_ne_nil : b.label ≠ []
  label : IsLabel b.label
  reference : ∀ r ∈ b.reference, ∀ c ∈ r, IsPlain c
  fragment : ∀ f ∈ b.fragment, (f.head? = some '#' ∨ f.head? = some '/') ∧
    ∀ c ∈ f, c ≠ '\x7d' ∧ c ≠ '\n'

section Reading

/-- A label is read to its end; inside a pair, to the end of the pair and on from there. -/
theorem isLabel_of_label? : ∀ {t : Text} {inner : Bool} {label rest : Text},
    label? inner t = some (label, rest) →
      if inner then ∃ inside tail, label = inside ++ ']' :: tail ∧ (∀ c ∈ inside, IsPlain c) ∧
        IsLabel tail
      else IsLabel label
  | [], inner, label, rest, h => by simp [label?] at h
  | c :: t, inner, label, rest, h => by
    simp only [label?] at h
    split_ifs at h with hn ho hi hc hi
    all_goals simp only [beq_iff_eq] at *
    · obtain ⟨u, hu, rfl⟩ := eq_cons_of_map_cons h
      obtain ⟨inside, tail, rfl, hp, ht⟩ := by simpa using isLabel_of_label? hu
      have := IsLabel.pair hp ht
      subst ho
      simpa [hi, between] using this
    · obtain ⟨u, hu, rfl⟩ := eq_cons_of_map_cons h
      have ht := by simpa using isLabel_of_label? hu
      subst hc
      rw [if_pos hi]
      exact ⟨[], u, rfl, by simp, ht⟩
    · simp only [Option.some.injEq, Prod.mk.injEq] at h
      rw [if_neg hi, ← h.1]
      exact .nil
    · obtain ⟨u, hu, rfl⟩ := eq_cons_of_map_cons h
      have hp : IsPlain c := ⟨ho, hc, hn⟩
      have hr := isLabel_of_label? hu
      split_ifs at hr ⊢
      · obtain ⟨inside, tail, rfl, hi, ht⟩ := hr
        exact ⟨c :: inside, tail, rfl, by simpa using ⟨hp, hi⟩, ht⟩
      · exact .char hp hr

theorem of_mem_upTo? {close : Char} {stop : Char → Bool} :
    ∀ {t found rest : Text}, upTo? close stop t = some (found, rest) →
      ∀ c ∈ found, c ≠ close ∧ stop c = false
  | [], found, rest, h => by simp [upTo?] at h
  | d :: t, found, rest, h => by
    simp only [upTo?] at h
    split_ifs at h with hc hs
    · simp only [Option.some.injEq, Prod.mk.injEq] at h
      simp [← h.1]
    · obtain ⟨u, hu, rfl⟩ := eq_cons_of_map_cons h
      intro c hc'
      rcases List.mem_cons.1 hc' with rfl | hc'
      · exact ⟨by simpa using hc, by simpa using hs⟩
      · exact of_mem_upTo? hu c hc'

theorem of_mem_reference? {t found rest : Text} (h : reference? t = some (found, rest)) :
    ∀ c ∈ found, IsPlain c := by
  unfold reference? at h
  split at h
  · intro c hc
    obtain ⟨h1, h2⟩ := of_mem_upTo? h c hc
    simp only [Bool.or_eq_false_iff, beq_eq_false_iff_ne] at h2
    exact ⟨h2.1, h1, h2.2⟩
  · simp at h

theorem of_fragment? {t found rest : Text} (h : fragment? t = some (found, rest)) :
    (found.head? = some '#' ∨ found.head? = some '/') ∧
      ∀ c ∈ found, c ≠ '\x7d' ∧ c ≠ '\n' := by
  unfold fragment? at h
  split at h
  · next c t =>
    split_ifs at h with hc
    refine ⟨?_, fun d hd => ?_⟩
    · have he := upTo?_eq h
      rcases found with _ | ⟨d, found⟩
      · simp only [List.nil_append, List.cons.injEq] at he
        rw [← he.1] at hc
        simp at hc
      · simp only [List.cons_append, List.cons.injEq] at he
        simpa [he.1] using hc
    · simpa using of_mem_upTo? h d hd
  · simp at h

theorem optional_eq_some {read? : Text → Option (Text × Text)} {t found : Text}
    (h : (optional read? t).1 = some found) : ∃ rest, read? t = some (found, rest) := by
  unfold optional at h
  split at h
  · next r hr =>
    simp only [Option.some.injEq] at h
    exact ⟨_, h ▸ hr⟩
  · simp at h

theorem Bracket.wellFormed_of_after? {image : Bool} {t : Text} {b : Bracket} {rest : Text}
    (h : Bracket.after? image t = some (b, rest)) : b.WellFormed := by
  unfold Bracket.after? at h
  split at h
  · simp at h
  · simp at h
  · next c label rest' hl =>
    simp only [Option.some.injEq, Prod.mk.injEq] at h
    obtain ⟨rfl, -⟩ := h
    refine ⟨by simp, by simpa using isLabel_of_label? hl, fun r hr => ?_, fun f hf => ?_⟩
    · obtain ⟨_, hr⟩ := optional_eq_some hr
      exact of_mem_reference? hr
    · obtain ⟨_, hf⟩ := optional_eq_some hf
      exact of_fragment? hf

theorem Bracket.wellFormed_of_read? {t : Text} {b : Bracket} {rest : Text}
    (h : Bracket.read? t = some (b, rest)) : b.WellFormed := by
  unfold Bracket.read? at h
  split at h
  · exact wellFormed_of_after? h
  · exact wellFormed_of_after? h
  · simp at h

theorem wellFormed_of_mem_segments {line : Text} {b : Bracket} (h : .bracket b ∈ segments line) :
    b.WellFormed := by
  fun_induction segments line with
  | case1 => simp at h
  | case2 c rest b' rest' hr ih =>
    rcases List.mem_cons.1 h with he | h
    · cases he
      exact Bracket.wellFormed_of_read? hr
    · exact ih h
  | case3 c rest hr ih => exact ih (by simpa using h)

end Reading

section Judging

def Bracket.IsBare (b : Bracket) : Prop :=
  b.reference = none ∧ b.fragment = none

/-- Why a bracket between two texts, the first of them in reverse, is not to be looked up. -/
inductive Passed (before : Text) (b : Bracket) (after : Text) : Prop
  | escaped (h : before.head? = some '\\')
  | note (h : b.label.head? = some '^')
  | inline (h : b.IsBare) (ha : after.head? = some '(')
  | definition (h : b.IsBare) (ha : after.head? = some ':') (hb : before.allBlank = true)
  | malformed (h : b.fragment = none) (ha : after.head? = some '\x7b') (hc : '\x7d' ∉ after)

theorem judge_eq_link {table : Table} {before : Text} {b : Bracket} {after : Text}
    {target : Target} : table.judge before b after = .link target ↔
      ¬ Passed before b after ∧ table.resolve b.key = some target := by
  have hbare : (b.reference.isNone && b.fragment.isNone) = true ↔ b.IsBare := by
    simp [Bracket.IsBare]
  simp only [Table.judge]
  split_ifs with h1 h2 h3 h4
  · simp only [Bool.or_eq_true, beq_iff_eq] at h1
    refine iff_of_false (fun h => by cases h) fun h => h.1 ?_
    exact h1.elim .escaped .note
  · simp only [Bool.and_eq_true, beq_iff_eq] at h2
    refine iff_of_false (fun h => ?_) fun h => h.1 ?_
    · split at h <;> cases h
    · exact .inline (hbare.1 (by simpa using h2.1)) h2.2
  · rw [Bool.and_eq_true, Bool.and_eq_true, hbare, beq_iff_eq] at h3
    refine iff_of_false (fun h => by cases h) fun h => h.1 ?_
    exact .definition h3.1.1 h3.1.2 h3.2
  · refine iff_of_false (fun h => by cases h) fun h => h.1 ?_
    simp only [Bool.and_eq_true, Option.isNone_iff_eq_none, beq_iff_eq, Bool.not_eq_true',
      List.contains_eq_mem, decide_eq_false_iff_not] at h4
    exact .malformed h4.1.1 h4.1.2 h4.2
  · have hp : ¬ Passed before b after := by
      rintro (h | h | ⟨h, ha⟩ | ⟨h, ha, hb⟩ | ⟨h, ha, hc⟩)
      · exact h1 (by simp [h])
      · exact h1 (by simp [h])
      · exact h2 (by simp [hbare.2 h, ha])
      · exact h3 (by simp [hbare.2 h, ha, hb])
      · exact h4 (by simp [h, ha, hc])
    cases table.resolve b.key <;> simp [hp]

theorem decide_eq_link {table : Table} {spans : List Span} {kept : Nat} {before : Text}
    {b b' : Bracket} {after : Text} {target : Target} :
    (table.decide spans kept before b after).edit = .link b' target ↔
      b' = b ∧ kept ≤ before.length ∧
        (∀ s ∈ spans, s.meets before.length (before.length + b.written.length) = false) ∧
        ¬ Passed before b after ∧ table.resolve b.key = some target := by
  rw [← judge_eq_link]
  simp only [Table.decide]
  split_ifs with h
  · refine iff_of_false (fun h => by cases h) ?_
    rintro ⟨-, hk, hs, -⟩
    rw [Bool.or_eq_true] at h
    rcases h with h | h
    · simp only [decide_eq_true_eq] at h
      omega
    · obtain ⟨s, hm, h⟩ := List.any_eq_true.1 h
      simp [hs s hm] at h
  · simp only [Bool.or_eq_true, decide_eq_true_eq, List.any_eq_true, not_or, not_exists, not_and,
      Bool.not_eq_true, Nat.not_lt] at h
    cases hj : table.judge before b after with
    | link t =>
      simp only [Edit.link.injEq, Verdict.link.injEq]
      constructor
      · rintro ⟨hb, ht⟩
        exact ⟨hb.symm, h.1, h.2, ht⟩
      · rintro ⟨hb, -, -, ht⟩
        exact ⟨hb.symm, ht⟩
    | _ => simp

/-- A link among the edits of a line is the decision on a bracket at its place. -/
theorem exists_of_edit_eq {table : Table} {spans : List Span} {b : Bracket} {target : Target} :
    ∀ {segs : List Segment} {kept : Nat} {before : Text} {above below : List Edit},
      (table.edit spans kept before segs).edits = above ++ .link b target :: below →
        ∃ segs₁ segs₂ kept', segs = segs₁ ++ .bracket b :: segs₂ ∧
          above.flatMap Edit.before = segs₁.flatMap Segment.written ∧
          (table.decide spans kept' ((segs₁.flatMap Segment.written).reverse ++ before) b
            (segs₂.flatMap Segment.written)).edit = .link b target
  | [], kept, before, above, below, h => by simp [Table.edit] at h
  | .char c :: rest, kept, before, above, below, h => by
    simp only [Table.edit] at h
    rcases above with _ | ⟨e, above⟩
    · simp at h
    · simp only [List.cons_append, List.cons.injEq] at h
      obtain ⟨rfl, h⟩ := h
      obtain ⟨segs₁, segs₂, kept', rfl, ha, hd⟩ := exists_of_edit_eq h
      refine ⟨.char c :: segs₁, segs₂, kept', rfl, ?_, ?_⟩
      · simp [Edit.before, Segment.written, ha]
      · simpa [Segment.written] using hd
  | .bracket b' :: rest, kept, before, above, below, h => by
    simp only [Table.edit] at h
    rcases above with _ | ⟨e, above⟩
    · simp only [List.nil_append, List.cons.injEq] at h
      obtain ⟨rfl, -⟩ := decide_eq_link.1 h.1
      exact ⟨[], rest, kept, rfl, rfl, by simpa using h.1⟩
    · simp only [List.cons_append, List.cons.injEq] at h
      obtain ⟨rfl, h⟩ := h
      obtain ⟨segs₁, segs₂, kept', rfl, ha, hd⟩ := exists_of_edit_eq h
      refine ⟨.bracket b' :: segs₁, segs₂, kept', rfl, ?_, ?_⟩
      · simp [before_decide, Segment.written, ha]
      · simpa [Segment.written] using hd

end Judging

end TidyMark.Reflink
