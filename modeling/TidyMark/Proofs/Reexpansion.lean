import TidyMark.Proofs.Marks
import TidyMark.Proofs.Reread

/-!
# Expanding an expanded source

A second pass over an expanded line judges each bracket as the first one did (`decide_again`), and
each bracket that has become a link as an inline link, whose destination it keeps
(`decide_linked`). For this the destinations that have been written must be contained, and no
destination may be left open before them: what is written behind it could close it. Then nothing is
left to expand (`expandLenient_expandLenient`). Without these conditions a second pass may find more
(`not_forall_expandLenient_expandLenient`).
-/

namespace TidyMark.Reflink

open Text

/-- Whether what looks like the destination of an inline link is closed behind each bracket. -/
def closesDestinations : List Segment → Bool
  | [] => true
  | .char _ :: rest => closesDestinations rest
  | .bracket b :: rest =>
    let after := rest.flatMap Segment.written
    (b.reference.isSome || b.fragment.isSome || after.head? != some '(' ||
      (destinationLength? after).isSome) && closesDestinations rest

/-- Whether a link is written with a contained destination. -/
def Edit.IsContained : Edit → Prop
  | .keep _ => True
  | .link b target => Reflink.IsContained (target.destination (b.fragment.getD []))

def Edit.isLink : Edit → Bool
  | .keep _ => false
  | .link _ _ => true

/-- The links that are made on a line have contained destinations, and if there are any, no
destination of an inline link is left open on the line. -/
structure Table.Settles (table : Table) (line : Line) : Prop where
  contained : ∀ e ∈ (table.expandIn line).edits, e.IsContained
  closed : (table.expandIn line).edits.any Edit.isLink = true →
    closesDestinations (segments line.text) = true

/-- Two places in a line and in the expanded line, given by the texts before them, at which as many
characters are still to be kept and a bracket is escaped or begins a definition alike. -/
structure SameSite (kept : Nat) (before : Text) (kept' : Nat) (before' : Text) : Prop where
  kept : kept' - before'.length = kept - before.length
  escape : before'.head? = some '\\' ↔ before.head? = some '\\'
  blank : before'.allBlank = before.allBlank

section Judging

variable {table : Table} {before before' after after' : Text} {b : Bracket}

def Verdict.protects : Verdict → Option Nat
  | .protect n => some n
  | _ => none

/-- A bracket that is not looked up, or not found, is judged again as it was. -/
theorem judge_again (hescape : before'.head? = some '\\' ↔ before.head? = some '\\')
    (hblank : before'.allBlank = before.allBlank) (hl : Linked after after')
    (hclosed : b.IsBare → after.head? = some '(' → (destinationLength? after).isSome)
    (htake : ∀ n, table.judge before b after = .protect n → after'.take n = after.take n)
    (hj : ∀ target, table.judge before b after ≠ .link target) :
    (∀ target, table.judge before' b after' ≠ .link target) ∧
      (table.judge before' b after').protects = (table.judge before b after).protects := by
  have hbackslash : (before'.head? == some '\\') = (before.head? == some '\\') := by
    rw [Bool.eq_iff_iff, beq_iff_eq, beq_iff_eq]
    exact hescape
  have hbare : (b.reference.isNone && b.fragment.isNone) = true ↔ b.IsBare := by
    simp [Bracket.IsBare]
  simp only [Table.judge, hbackslash, hblank, head?_of_linked hl] at hj htake ⊢
  by_cases h1 : (before.head? == some '\\' || b.label.head? == some '^') = true
  · simp only [if_pos h1]
    exact ⟨fun _ h => by contradiction, by trivial⟩
  simp only [if_neg h1] at hj htake ⊢
  by_cases h2 : (b.reference.isNone && b.fragment.isNone && after.head? == some '(') = true
  · simp only [if_pos h2] at htake ⊢
    rw [Bool.and_eq_true, beq_iff_eq] at h2
    obtain ⟨n, hn⟩ := Option.isSome_iff_exists.1 (hclosed (hbare.1 h2.1) h2.2)
    simp only [hn] at htake ⊢
    rw [destinationLength?_take hn (htake n rfl)]
    exact ⟨fun _ h => by contradiction, by trivial⟩
  simp only [if_neg h2] at hj htake ⊢
  by_cases h3 : (b.reference.isNone && b.fragment.isNone && after.head? == some ':' &&
      before.allBlank) = true
  · simp only [if_pos h3]
    exact ⟨fun _ h => by contradiction, by trivial⟩
  simp only [if_neg h3] at hj htake ⊢
  -- A brace that nothing closes may have been closed before, when its closing brace was dropped.
  by_cases h4 : (b.fragment.isNone && after.head? == some '\x7b' && !after.contains '\x7d') = true
  · have h4' : (b.fragment.isNone && after.head? == some '\x7b' &&
        !after'.contains '\x7d') = true := by
      simp only [Bool.and_eq_true, Bool.not_eq_true', List.contains_eq_mem,
        decide_eq_false_iff_not] at h4 ⊢
      exact ⟨h4.1, fun hm => h4.2 (brace_mem_of_linked hl hm)⟩
    simp only [if_pos h4, if_pos h4']
    exact ⟨fun _ h => by contradiction, by trivial⟩
  · simp only [if_neg h4] at hj ⊢
    rcases hr : table.resolve b.key with _ | target
    · split_ifs
      · exact ⟨fun _ h => by contradiction, by trivial⟩
      · exact ⟨fun _ h => by contradiction, by trivial⟩
    · exact absurd (by rw [hr]) (hj target)

variable {spans spans' : List Span} {kept kept' : Nat}

/-- Whether a bracket is left alone without being judged. -/
def IsLeft (spans : List Span) (kept : Nat) (before : Text) (width : Nat) : Prop :=
  before.length < kept ∨ spans.any (·.meets before.length (before.length + width)) = true

theorem decide_of_isLeft (h : IsLeft spans kept before b.written.length) :
    table.decide spans kept before b after = ⟨.keep b.written, kept, none⟩ :=
  if_pos (by simpa [IsLeft] using h)

theorem decide_of_not_isLeft (h : ¬ IsLeft spans kept before b.written.length) :
    table.decide spans kept before b after =
      match table.judge before b after with
      | .keep => ⟨.keep b.written, kept, none⟩
      | .protect n => ⟨.keep b.written, before.length + b.written.length + n, none⟩
      | .malformed => ⟨.keep b.written, kept, some (before.length + b.written.length)⟩
      | .link target => ⟨.link b target, kept, none⟩ :=
  if_neg (by simpa [IsLeft] using h)

theorem decide_of_judge (h : ¬ IsLeft spans kept before b.written.length)
    (hj : ∀ target, table.judge before b after ≠ .link target) :
    (table.decide spans kept before b after).edit = .keep b.written ∧
      (table.decide spans kept before b after).kept =
        ((table.judge before b after).protects.map
          (before.length + b.written.length + ·)).getD kept := by
  rw [decide_of_not_isLeft h]
  rcases hv : table.judge before b after with _ | n | _ | target
  · exact ⟨rfl, rfl⟩
  · exact ⟨rfl, rfl⟩
  · exact ⟨rfl, rfl⟩
  · exact absurd hv (hj target)

theorem kept_of_link {b' : Bracket} {target : Target}
    (h : (table.decide spans kept before b after).edit = .link b' target) :
    (table.decide spans kept before b after).kept = kept := by
  by_cases hleft : IsLeft spans kept before b.written.length
  · rw [decide_of_isLeft hleft]
  · rw [decide_of_not_isLeft hleft] at h ⊢
    cases hv : table.judge before b after with
    | link => rfl
    | _ => simp only [hv, reduceCtorEq] at h

theorem SameSite.isLeft_iff (ha : SameSite kept before kept' before') {width width' : Nat}
    (hspans : spans'.any (·.meets before'.length (before'.length + width')) =
      spans.any (·.meets before.length (before.length + width))) :
    IsLeft spans' kept' before' width' ↔ IsLeft spans kept before width := by
  have hkept := ha.kept
  rw [IsLeft, IsLeft, hspans]
  refine or_congr_left ?_
  omega

theorem allBlank_written (b : Bracket) (before : Text) :
    Text.allBlank (b.written.reverse ++ before) = false := by
  have h : '[' ∈ b.written := by
    obtain ⟨p, r, hp⟩ := exists_head b
    rw [written_eq, hp]
    simp
  rw [Text.allBlank, List.all_eq_false]
  exact ⟨'[', by simp [h], by decide⟩

/-- Behind a bracket that stays, the places are alike again. -/
theorem sameSite_written (hkept : kept' - (before'.length + b.written.length) =
    kept - (before.length + b.written.length)) :
    SameSite kept (b.written.reverse ++ before) kept' (b.written.reverse ++ before') where
  kept := by simpa [Nat.add_comm] using hkept
  escape := by
    have := List.reverse_ne_nil_iff.2 b.written_ne_nil
    rw [List.head?_append_of_ne_nil _ this, List.head?_append_of_ne_nil _ this]
  blank := by rw [allBlank_written, allBlank_written]

/-- A bracket that stays in the first pass stays in the second one. -/
theorem decide_again (ha : SameSite kept before kept' before')
    (hspans : spans'.any (·.meets before'.length (before'.length + b.written.length)) =
      spans.any (·.meets before.length (before.length + b.written.length)))
    (hl : Linked after after')
    (hclosed : b.IsBare → after.head? = some '(' → (destinationLength? after).isSome)
    (htake : ∀ n, (table.decide spans kept before b after).kept =
      before.length + b.written.length + n → after'.take n = after.take n)
    (hedit : (table.decide spans kept before b after).edit = .keep b.written) :
    (table.decide spans' kept' before' b after').edit = .keep b.written ∧
      SameSite (table.decide spans kept before b after).kept (b.written.reverse ++ before)
        (table.decide spans' kept' before' b after').kept (b.written.reverse ++ before') := by
  have hleft := ha.isLeft_iff hspans
  have hkept := ha.kept
  by_cases h : IsLeft spans kept before b.written.length
  · rw [decide_of_isLeft h, decide_of_isLeft (hleft.2 h)]
    exact ⟨rfl, sameSite_written (by dsimp only; omega)⟩
  · have hj : ∀ target, table.judge before b after ≠ .link target := by
      intro target ht
      rw [decide_of_not_isLeft h, ht] at hedit
      cases hedit
    have hk := (decide_of_judge h hj).2
    obtain ⟨hj', hp⟩ := judge_again ha.escape ha.blank hl hclosed
      (fun n hn => htake n (by rw [hk, hn]; rfl)) hj
    obtain ⟨hedit', hk'⟩ := decide_of_judge (mt hleft.1 h) hj'
    refine ⟨hedit', sameSite_written ?_⟩
    rw [hk, hk', hp]
    rcases (table.judge before b after).protects with _ | n
    · simp only [Option.map_none, Option.getD_none]
      omega
    · simp only [Option.map_some, Option.getD_some]
      omega

/-- A bracket that has become a link is seen as an inline link, and its destination is kept. -/
theorem decide_linked {target : Target} (ha : SameSite kept before kept' before')
    (hspans : spans'.any (·.meets before'.length (before'.length + (b.linked target).length)) =
      false)
    (hd : IsContained (target.destination (b.fragment.getD [])))
    (hedit : (table.decide spans kept before b after).edit = .link b target) (after' : Text) :
    table.decide spans' kept' before' b.first (target.destination (b.fragment.getD []) ++ after') =
      ⟨.keep b.first.written, before'.length + (b.linked target).length, none⟩ := by
  obtain ⟨-, hle, -, hpassed, -⟩ := decide_eq_link.1 hedit
  have hkept := ha.kept
  have hleft : ¬ IsLeft spans' kept' before' b.first.written.length := by
    rintro (h | h)
    · omega
    · rw [Bool.eq_false_iff] at hspans
      refine hspans ?_
      obtain ⟨s, hs, hm⟩ := List.any_eq_true.1 h
      refine List.any_eq_true.2 ⟨s, hs, ?_⟩
      rw [written_first] at hm
      simp only [Span.meets, Bool.and_eq_true, decide_eq_true_eq, Bracket.linked,
        List.length_append] at hm ⊢
      omega
  have hescape : before'.head? ≠ some '\\' := fun h => hpassed (.escaped (ha.escape.1 h))
  have hnote : b.label.head? ≠ some '^' := fun h => hpassed (.note h)
  have hlength : destinationLength? (target.destination (b.fragment.getD []) ++ after') =
      some (target.destination (b.fragment.getD [])).length :=
    destinationLength?_take hd.closes (by simp)
  obtain ⟨title, hparen, -⟩ := exists_destination target (b.fragment.getD [])
  have hjudge : table.judge before' b.first
      (target.destination (b.fragment.getD []) ++ after') =
        .protect (target.destination (b.fragment.getD [])).length := by
    unfold Table.judge
    rw [if_neg (by simpa [Bracket.first] using ⟨hescape, hnote⟩),
      if_pos (by simp [Bracket.first, hparen]), hlength]
  rw [decide_of_not_isLeft hleft, hjudge, written_first, Bracket.linked, List.length_append,
    ← Nat.add_assoc]

end Judging

section Passes

variable {table : Table} {spans spans' : List Span}

/-- No edit of a bracket up to the place `kept` makes a link. -/
theorem take_edit (table : Table) (spans : List Span) :
    ∀ (segs : List Segment) (kept : Nat) (before : Text),
    ((table.edit spans kept before segs).edits.flatMap Edit.after).take (kept - before.length) =
      (segs.flatMap Segment.written).take (kept - before.length)
  | [], _, _ => rfl
  | .char c :: rest, kept, before => by
    have ih := take_edit table spans rest kept (c :: before)
    rw [List.length_cons, ← Nat.sub_sub] at ih
    simp only [Table.edit, List.flatMap_cons, Edit.after, Segment.written, List.singleton_append]
    rcases hn : kept - before.length with _ | n
    · rfl
    · rw [hn, Nat.add_sub_cancel] at ih
      rw [List.take_succ_cons, List.take_succ_cons, ih]
  | .bracket b :: rest, kept, before => by
    simp only [Table.edit, List.flatMap_cons, Segment.written]
    by_cases h : before.length < kept
    · have ih := take_edit table spans rest kept (b.written.reverse ++ before)
      rw [List.length_append, List.length_reverse, Nat.add_comm, ← Nat.sub_sub] at ih
      rw [decide_of_isLeft (.inl h), Edit.after, List.take_append, List.take_append, ih]
    · rw [Nat.sub_eq_zero_of_le (Nat.not_lt.1 h)]
      rfl

theorem take_reread (segs : List Segment) {kept n : Nat} {before : Text}
    (hn : kept = before.length + n) :
    ((table.reread spans kept before segs).flatMap Segment.written).take n =
      (segs.flatMap Segment.written).take n := by
  have h := take_edit table spans segs kept before
  rwa [hn, Nat.add_sub_cancel_left, ← hn, ← written_reread] at h

/-- Characters are passed one by one. -/
theorem edit_chars (kept : Nat) (segs : List Segment) : ∀ (t before : Text),
    (table.edit spans kept before (t.map Segment.char ++ segs)).edits =
      chars t ++ (table.edit spans kept (t.reverse ++ before) segs).edits
  | [], before => rfl
  | c :: t, before => by
    have ih := edit_chars kept segs t (c :: before)
    simp only [List.map_cons, List.cons_append, Table.edit, ih, chars, List.reverse_cons,
      List.append_assoc, List.nil_append]

theorem isLink_chars (t : Text) : (chars t).any Edit.isLink = false := by
  rw [chars, List.any_map, List.any_eq_false]
  exact fun _ _ => Bool.false_ne_true

theorem SameSite.char {kept kept' : Nat} {before before' : Text}
    (ha : SameSite kept before kept' before') (c : Char) :
    SameSite kept (c :: before) kept' (c :: before') where
  kept := by
    have := ha.kept
    simp only [List.length_cons]
    omega
  escape := Iff.rfl
  blank := by
    have := ha.blank
    simp only [Text.allBlank, List.all_cons] at this ⊢
    rw [this]

theorem getLast?_between (u : Text) (opening closing : Char) (t : Text) :
    (u ++ between opening t closing).getLast? = some closing := by
  rw [between, ← List.append_assoc, List.getLast?_concat]

theorem getLast?_written (b : Bracket) :
    b.written.getLast? = some ']' ∨ b.written.getLast? = some '\x7d' := by
  rcases hf : b.fragment with _ | f
  · rcases hr : b.reference with _ | r
    · simp only [Bracket.written, Bracket.head, hf, hr, Option.elim_none, List.append_nil,
        getLast?_between, true_or]
    · simp only [Bracket.written, hf, hr, Option.elim_none, Option.elim_some, List.append_nil,
        getLast?_between, true_or]
  · simp only [Bracket.written, hf, Option.elim_some, getLast?_between, or_true]

/-- Behind a link, nothing is kept or escaped and no definition begins, as behind its bracket. -/
theorem sameSite_linked {b : Bracket} {target : Target} {kept kept' : Nat} {before before' : Text}
    (hkept : kept ≤ before.length)
    (hkept' : kept' = before'.length + (b.linked target).length) :
    SameSite kept (b.written.reverse ++ before) kept' ((b.linked target).reverse ++ before') where
  kept := by
    simp only [hkept', List.length_append, List.length_reverse]
    omega
  escape := by
    rw [List.head?_append, List.head?_append, List.head?_reverse, List.head?_reverse,
      getLast?_linked]
    rcases getLast?_written b with h | h <;> rw [h] <;> simp
  blank := by
    have h := allBlank_written b.first before'
    rw [allBlank_written, Bracket.linked, List.reverse_append, List.append_assoc]
    simp only [Text.allBlank, List.all_append, written_first] at h ⊢
    rw [h, Bool.and_false]

/-- A second pass over what the first one makes of segments makes no link. -/
theorem edit_reread : ∀ (segs : List Segment) (kept : Nat) (before : Text) (kept' : Nat)
    (before' : Text), (∀ b, .bracket b ∈ segs → b.WellFormed) →
    table.Contains spans kept before segs → closesDestinations segs = true →
    SameSite kept before kept' before' →
    marks Edit.widthAfter spans' before'.length (table.edit spans kept before segs).edits =
      marks Edit.width spans before.length (table.edit spans kept before segs).edits →
    (table.edit spans' kept' before' (table.reread spans kept before segs)).edits.any
      Edit.isLink = false
  | [], _, _, _, _, _, _, _, _, _ => rfl
  | .char c :: rest, kept, before, kept', before', hwf, hd, hclosed, ha, hmarks =>
    edit_reread rest kept (c :: before) kept' (c :: before') (fun b hb => hwf b (.tail _ hb))
      hd.tail_char hclosed (ha.char c) (List.cons.inj hmarks).2
  | .bracket b :: rest, kept, before, kept', before', hwf, hd, hclosed, ha, hmarks => by
    have hrest b (hb : .bracket b ∈ rest) := hwf b (.tail _ hb)
    have hlinked := linked_edit rest _ (b.written.reverse ++ before) hrest hd.tail_bracket
    have hb := before_decide table spans kept before b (rest.flatMap Segment.written)
    simp only [closesDestinations, Bool.and_eq_true] at hclosed
    obtain ⟨hmark, hmarks⟩ := List.cons.inj hmarks
    have hlength (u v : Text) : v.length + u.length = (u.reverse ++ v).length := by
      rw [List.length_append, List.length_reverse, Nat.add_comm]
    simp only [Table.reread]
    rw [← written_reread] at hlinked
    rcases he : (table.decide spans kept before b (rest.flatMap Segment.written)).edit with
      t | ⟨b', target⟩
    · rw [he] at hb hmark hmarks
      obtain rfl : t = b.written := hb
      obtain ⟨hedit, hsame⟩ := decide_again ha hmark hlinked
        (fun h1 h2 => by simpa [h1.1, h1.2, h2] using hclosed.1)
        (fun n hn => take_reread rest (by rwa [← hlength])) he
      simp only [Edit.segments, List.singleton_append, Table.edit, List.any_cons, hedit]
      refine edit_reread rest _ _ _ _ hrest hd.tail_bracket hclosed.2 hsame ?_
      rw [← hlength, ← hlength]
      exact hmarks
    · obtain ⟨rfl, hle, hspans, -⟩ := decide_eq_link.1 he
      rw [he] at hmark hmarks
      have hwritten : spans.any (·.meets before.length (before.length + b'.written.length)) =
          false := by
        rw [List.any_eq_false]
        exact fun s hs => by rw [hspans s hs]; exact Bool.false_ne_true
      have hafter := hmark.trans hwritten
      simp only [Edit.segments, List.cons_append, Table.edit, List.flatMap_append, written_map_char,
        decide_linked ha hafter (hd.head he) he, edit_chars, List.any_cons, List.any_append,
        isLink_chars]
      have hbefore : (target.destination (b'.fragment.getD [])).reverse ++
          (b'.first.written.reverse ++ before') = (b'.linked target).reverse ++ before' := by
        rw [Bracket.linked, List.reverse_append, List.append_assoc, written_first]
      rw [hbefore]
      refine edit_reread rest _ _ _ _ hrest hd.tail_bracket hclosed.2 ?_ ?_
      · rw [kept_of_link he]
        exact sameSite_linked hle rfl
      · rw [← hlength, ← hlength]
        exact hmarks

end Passes

section Sources

variable {table : Table}

theorem flatMap_after_of_not_isLink {es : List Edit} (h : es.any Edit.isLink = false) :
    es.flatMap Edit.after = es.flatMap Edit.before := by
  refine List.flatMap_congr fun e he => ?_
  cases e with
  | keep t => rfl
  | link b target =>
    rw [List.any_eq_false] at h
    exact absurd rfl (h _ he)

theorem avoids_of_isContained {target : Target} {fragment : Text} {c : Char}
    (h : IsContained (target.destination fragment)) (hc : c ∈ "[]\x7d`\n".toList) :
    target.Avoids c := by
  have hc : c ∉ target.destination fragment := fun hm => h.plain c hm hc
  unfold Target.destination at hc
  split at hc
  · next ht =>
    refine ⟨fun hm => hc (by simp [hm]), fun title h => ?_⟩
    rw [ht] at h
    cases h
  · next title ht =>
    refine ⟨fun hm => hc ?_, fun title' h hm => hc ?_⟩
    · split_ifs <;> simp [hm]
    · obtain rfl : title = title' := Option.some.inj (ht.symm.trans h)
      split_ifs <;> simp [hm]

theorem Table.Settles.contains {line : Line} (h : table.Settles line) (hf : line.isFixed = false) :
    table.Contains (codeSpans line.text) 0 [] (segments line.text) := by
  have hc := h.contained
  simp only [Table.expandIn, hf, Bool.false_eq_true, if_false] at hc
  exact fun b target hb => hc _ hb

/-- On a line that settles, the second pass makes no link. -/
theorem isLink_expandLine_expandedText {line : Line} (h : table.Settles line)
    (hf : line.isFixed = false)
    (hlinks : (table.expandIn line).edits.any Edit.isLink = true) :
    (table.expandLine (table.expandedText line)).edits.any Edit.isLink = false := by
  have hd := h.contains hf
  have hwf b (hb : .bracket b ∈ segments line.text) := wellFormed_of_mem_segments hb
  have htext : table.expandedText line =
      (table.reread (codeSpans line.text) 0 [] (segments line.text)).flatMap Segment.written := by
    rw [written_reread]
    simp only [Table.expandedText, Table.expandIn, hf, Bool.false_eq_true, if_false,
      Table.expandLine]
  have hsegments : segments (table.expandedText line) =
      table.reread (codeSpans line.text) 0 [] (segments line.text) := by
    rw [htext]
    exact isRead_reread _ _ _ (isRead_segments _) hwf hd
  have havoids : ∀ b target, .link b target ∈ (table.expandLine line.text).edits →
      target.Avoids '`' := fun b target hb => avoids_of_isContained (hd b target hb) (by decide)
  have hmarks := marks_edits havoids
  rw [Table.expandLine, hsegments]
  refine edit_reread _ _ _ _ _ hwf hd (h.closed hlinks) ⟨rfl, Iff.rfl, rfl⟩ ?_
  rw [htext, written_reread]
  exact hmarks

/-- Expanding the text that an expanded line has changes nothing. -/
theorem expandedText_expandedText {line : Line} (h : table.Settles line) :
    table.expandedText (line.withText (table.expandedText line)) = table.expandedText line := by
  rcases hlinks : (table.expandIn line).edits.any Edit.isLink with _ | _
  · have htext : table.expandedText line = line.text :=
      (flatMap_after_of_not_isLink hlinks).trans (before_edits table line)
    rw [htext]
    exact htext
  · have hf : line.isFixed = false := by
      rcases hf : line.isFixed with _ | _
      · rfl
      · simp [Table.expandIn, hf, Edit.isLink] at hlinks
    have hnone := isLink_expandLine_expandedText h hf hlinks
    generalize table.expandedText line = text at hnone ⊢
    by_cases hf' : (line.withText text).inCode = true ∨
        isDefinition (line.withText text).text = true
    · exact expandedText_of_fixed hf'
    · have hf' : (line.withText text).isFixed = false := by simpa [Line.isFixed] using hf'
      calc table.expandedText (line.withText text)
        _ = (table.expandLine text).edits.flatMap Edit.after := by
          simp only [Table.expandedText, Table.expandIn, hf', Bool.false_eq_true, if_false]
          rfl
        _ = (table.expandLine text).edits.flatMap Edit.before := flatMap_after_of_not_isLink hnone
        _ = text := by rw [Table.expandLine, before_edit, written_segments]

open scoped Classical in
/-- The expanded text of a line that settles, and any other line as it is. -/
noncomputable def Table.settledText (table : Table) (line : Line) : Text :=
  if table.Settles line then table.expandedText line else line.text

theorem newline_not_mem_expandedText {line : Line} (h : table.Settles line)
    (hn : '\n' ∉ line.text) : '\n' ∉ table.expandedText line := by
  rcases hf : line.isFixed with _ | _
  · have hl := linked_edit (segments line.text) 0 [] (fun b hb => wellFormed_of_mem_segments hb)
      (h.contains hf)
    rw [written_segments] at hl
    simp only [Table.expandedText, Table.expandIn, hf, Bool.false_eq_true, if_false]
    exact newline_not_mem_of_linked hl hn
  · rwa [expandedText_of_fixed (by simpa [Line.isFixed] using hf)]

theorem unseen_settledText (table : Table) : Unseen table.settledText where
  code line hc := by
    unfold Table.settledText
    split_ifs
    · exact expandedText_of_fixed (.inl hc)
    · rfl
  sameStart line := by
    unfold Table.settledText
    split_ifs
    · exact sameStart_of_relinks (relinks_expandedText table line)
    · exact .inl rfl
  isLine line hl := by
    unfold Table.settledText
    split_ifs with h
    · refine ⟨newline_not_mem_expandedText h hl.no_newline, ?_, hl.ending⟩
      rcases getLast?_of_relinks (relinks_expandedText table line) with he | he <;> rw [he]
      · exact hl.no_return
      · decide
    · exact hl

/-- Expanding an expanded source changes nothing when the lines of the source settle. -/
theorem expandLenient_expandLenient {table : Table} {source : Text}
    (h : ∀ line ∈ Line.ofSource source, table.Settles line) :
    table.expandLenient (table.expandLenient source) = table.expandLenient source := by
  have hsettled : changed table.expandedText (Line.ofSource source) =
      changed table.settledText (Line.ofSource source) :=
    List.map_congr_left fun line hl => by rw [Table.settledText, if_pos (h line hl)]
  have hlines : Line.ofSource (table.expandLenient source) =
      (Line.ofSource source).map fun line => line.withText (table.settledText line) := by
    rw [expandLenient_eq_flatten, hsettled, ofSource_changed (unseen_settledText table)]
  rw [expandLenient_eq_flatten, hlines, expandLenient_eq_flatten, changed, changed, List.map_map]
  congr 1
  refine List.map_congr_left fun line hl => ?_
  have hs := h line hl
  simp only [Function.comp_apply, Table.settledText, if_pos hs, expandedText_expandedText hs]
  rfl

end Sources

section Cases

instance (d : Text) : Decidable (IsContained d) :=
  decidable_of_iff (destinationLength? d = some d.length ∧
      (d.all fun c => c ∉ "[]\x7d`\n".toList) = true)
    ⟨fun h => ⟨h.1, by simpa only [List.all_eq_true, decide_eq_true_eq] using h.2⟩,
      fun h => ⟨h.1, by simpa only [List.all_eq_true, decide_eq_true_eq] using h.2⟩⟩

instance : DecidablePred Edit.IsContained
  | .keep _ => isTrue trivial
  | .link b target =>
    inferInstanceAs (Decidable (IsContained (target.destination (b.fragment.getD []))))

instance (table : Table) (line : Line) : Decidable (table.Settles line) :=
  decidable_of_iff ((∀ e ∈ (table.expandIn line).edits, e.IsContained) ∧
      ((table.expandIn line).edits.any Edit.isLink = true →
        closesDestinations (segments line.text) = true))
    ⟨fun h => ⟨h.1, h.2⟩, fun h => ⟨h.1, h.2⟩⟩

theorem expandLenient_expandLenient_twoLines :
    (∀ line ∈ Line.ofSource "`[a]` ![a]\x7b#x\x7d [b](c [a]) [a][]\n[b]: [a]\n",
      Table.Settles ⟨[("a", ⟨"/u", some "t (1)"⟩)]⟩ line) ∧
    Table.expandLenient ⟨[("a", ⟨"/u", some "t (1)"⟩)]⟩
        "`[a]` ![a](/u#x \"t (1)\") [b](c [a]) [a](/u \"t (1)\")\n[b]: [a]\n" =
      "`[a]` ![a](/u#x \"t (1)\") [b](c [a]) [a](/u \"t (1)\")\n[b]: [a]\n".toList := by
  have h : ∀ line ∈ Line.ofSource "`[a]` ![a]\x7b#x\x7d [b](c [a]) [a][]\n[b]: [a]\n",
      Table.Settles ⟨[("a", ⟨"/u", some "t (1)"⟩)]⟩ line := by
    decide +kernel
  have hexpanded : Table.expandLenient ⟨[("a", ⟨"/u", some "t (1)"⟩)]⟩
      "`[a]` ![a]\x7b#x\x7d [b](c [a]) [a][]\n[b]: [a]\n" =
        "`[a]` ![a](/u#x \"t (1)\") [b](c [a]) [a](/u \"t (1)\")\n[b]: [a]\n".toList := by
    decide +kernel
  refine ⟨h, ?_⟩
  rw [← hexpanded]
  exact expandLenient_expandLenient h

end Cases

/-- Behind a destination that is left open, a link with a contained destination may end it. -/
example : ∃ table : Table, (∀ e ∈ (table.expandLine "[j](c \"[a] [i)](d [b])").edits,
    e.IsContained) ∧ table.expandLenient (table.expandLenient "[j](c \"[a] [i)](d [b])") ≠
      table.expandLenient "[j](c \"[a] [i)](d [b])" :=
  ⟨⟨[("a", ⟨"u", some "(t"⟩), ("b", ⟨"y", none⟩)]⟩, by decide +kernel, by decide +kernel⟩

/-- The bracket in the fragment is a reference as soon as the fragment stands in a destination that
ends before it. -/
theorem not_forall_expandLenient_expandLenient :
    ¬ ∀ (table : Table) (source : Text),
      table.expandLenient (table.expandLenient source) = table.expandLenient source := by
  intro h
  have hsame := h (Table.ofDocument "[foo]\x7b#x)[b]\x7d\n\n[foo]: u\n[b]: y\n")
    "[foo]\x7b#x)[b]\x7d\n\n[foo]: u\n[b]: y\n"
  exact absurd hsame (by decide +kernel)

end TidyMark.Reflink
