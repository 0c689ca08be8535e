import TidyMark.Proofs.Unlinked

/-!
# Blocks of tame lines

Lines that a watch lets through hold no definitions, whether of references or of footnotes, and the
blocks that they are read as hold texts that the watch lets through (`watched_readBlocks`): where a
line is cut no backslash is cut off (`Cursor.IsWatched`), and what is put together are lines
(`Frame.IsWatched`).
-/

namespace TidyMark.Markdown

open Text

section Cursors

variable {strict : Bool} {c : Cursor} {n : Nat}

/-- Whether what is left of a line is tame. -/
structure Cursor.IsWatched (strict : Bool) (c : Cursor) : Prop where
  rest : IsTame strict c.rest
  /-- Only a tab can have been passed in part. -/
  tab : c.midTab = true → c.rest.head? = some '\t'

theorem sign_of_isIndent {d : Char} (h : isIndent d = true) : Sign.of d = .space := by
  rcases (by simpa [isIndent] using h : d = ' ' ∨ d = '\t') with rfl | rfl <;> rfl

theorem ne_backslash_of_isIndent {d : Char} (h : isIndent d = true) : d ≠ '\\' := by
  rintro rfl
  exact absurd h (by decide)

theorem rest_skip : (c.skip n).rest = c.rest.drop n := by
  have hfrom : ∀ (n column : Nat) (midTab : Bool) (t : Text),
      (Cursor.skipFrom n column midTab t).rest = t.drop n := by
    intro n column midTab t
    induction t generalizing n column midTab with
    | nil => cases n <;> rfl
    | cons d t ih =>
      cases n with
      | zero => rfl
      | succ n => exact ih n _ _
  exact hfrom n _ _ _

theorem Cursor.IsWatched.skip (h : c.IsWatched strict)
    (hlast : (c.rest.take n).getLast? ≠ some '\\') : (c.skip n).IsWatched strict where
  rest := by
    rw [rest_skip]
    have hrest := h.rest
    rw [← List.take_append_drop n c.rest] at hrest
    exact hrest.of_append_right hlast
  tab hmid := by
    have htab := h.tab
    unfold Cursor.skip at hmid ⊢
    rcases hr : c.rest with _ | ⟨d, t⟩ <;> rw [hr] at hmid htab
    · cases n <;> exact htab hmid
    · rcases n with _ | n
      · exact htab hmid
      · -- What has been passed since is no part of a tab.
        have hfrom : ∀ (t : Text) (n column : Nat),
            (Cursor.skipFrom n column false t).midTab = false := by
          intro t
          induction t with
          | nil => intro n column; cases n <;> rfl
          | cons d t ih =>
            intro n column
            cases n with
            | zero => rfl
            | succ n => exact ih n _
        rw [Cursor.skipFrom, hfrom] at hmid
        cases hmid

/-- Passing white space and the characters of a marker. -/
theorem Cursor.IsWatched.skipContent (h : c.IsWatched strict) {k : Nat}
    (hk : ∀ d ∈ c.content.take k, d ≠ '\\') : (c.skip (c.indentLength + k)).IsWatched strict := by
  refine h.skip (getLast?_ne_of_forall ?_)
  have hrest : c.rest = c.rest.takeWhile isIndent ++ c.content :=
    List.takeWhile_append_dropWhile.symm
  have htake : c.rest.take (c.indentLength + k) = c.rest.takeWhile isIndent ++ c.content.take k := by
    conv_lhs => rw [hrest]
    exact List.take_length_add_append k
  rw [htake]
  intro d hd
  rcases List.mem_append.1 hd with hd | hd
  · exact ne_backslash_of_isIndent (List.mem_takeWhile_imp hd)
  · exact hk d hd

theorem exists_skipColumnsFrom : ∀ (t : Text) (n column : Nat) (midTab : Bool),
    n ≤ columnAfterIndent column t - column → (midTab = true → t.head? = some '\t') →
      (∃ s, t = s ++ (Cursor.skipColumnsFrom n column midTab t).rest ∧
        ∀ d ∈ s, isIndent d = true) ∧
      ((Cursor.skipColumnsFrom n column midTab t).midTab = true →
        (Cursor.skipColumnsFrom n column midTab t).rest.head? = some '\t')
  | [], _, _, _, _, htab => ⟨⟨[], rfl, by simp⟩, htab⟩
  | d :: t, n, column, midTab, hn, htab => by
    rw [Cursor.skipColumnsFrom]
    dsimp only
    split
    · exact ⟨⟨[], rfl, by simp⟩, htab⟩
    next hzero =>
    have hpos : n ≠ 0 := by simpa using hzero
    obtain ⟨width, hwidth, hcolumn, hd, hlt⟩ : ∃ width,
        (if (d == '\t') = true then tabWidth column else 1) = width ∧
        columnAfterIndent column (d :: t) = columnAfterIndent (column + width) t ∧
        isIndent d = true ∧ (n < width → d = '\t') := by
      by_cases hspace : d = ' '
      · subst hspace
        exact ⟨1, rfl, rfl, rfl, fun h => by omega⟩
      by_cases htab : d = '\t'
      · subst htab
        exact ⟨tabWidth column, rfl, rfl, rfl, fun _ => rfl⟩
      · have hnone : columnAfterIndent column (d :: t) = column := by
          unfold columnAfterIndent
          split <;> simp_all
        omega
    rw [hwidth]
    split_ifs with hinside
    · exact ⟨⟨[], rfl, by simp⟩, fun _ => by simp [hlt hinside]⟩
    · obtain ⟨⟨s, hs, hall⟩, hmid⟩ := exists_skipColumnsFrom t (n - width) (column + width) false
        (by omega) (by simp)
      exact ⟨⟨d :: s, by rw [List.cons_append, ← hs], List.forall_mem_cons.2 ⟨hd, hall⟩⟩, hmid⟩

theorem Cursor.IsWatched.skipColumns (h : c.IsWatched strict) (hn : n ≤ c.indent) :
    (c.skipColumns n).IsWatched strict := by
  obtain ⟨⟨s, hs, hall⟩, hmid⟩ := exists_skipColumnsFrom c.rest n c.column c.midTab hn h.tab
  have hrest := h.rest
  rw [hs] at hrest
  exact ⟨hrest.of_append_right (getLast?_ne_of_forall fun d hd =>
    ne_backslash_of_isIndent (hall d hd)), hmid⟩

theorem Cursor.IsWatched.skipIndent (h : c.IsWatched strict) : (c.skipIndent n).IsWatched strict :=
  h.skipColumns (Nat.min_le_right _ _)

theorem Cursor.IsWatched.skipQuoteMark (h : c.IsWatched strict)
    (hquote : c.content.head? = some '>') : (skipQuoteMark c).IsWatched strict := by
  refine Cursor.IsWatched.skipIndent (h.skipContent fun d hd => ?_)
  rcases hc : c.content with _ | ⟨e, t⟩ <;> rw [hc] at hd hquote
  · cases hd
  · cases hquote
    rw [List.mem_singleton.1 hd]
    decide

theorem Cursor.IsWatched.skipAfterMarker (h : c.IsWatched strict) :
    (skipAfterMarker c).2.IsWatched strict := by
  unfold Markdown.skipAfterMarker
  dsimp only
  split
  · exact h.skipColumns le_rfl
  · exact h.skipIndent

theorem Cursor.isWatched_skipAll (c : Cursor) : c.skipAll.IsWatched strict :=
  ⟨isTame_nil, by simp [Cursor.skipAll]⟩

theorem Cursor.IsWatched.content (h : c.IsWatched strict) : IsTame strict c.content := by
  have hrest := h.rest
  rw [← List.takeWhile_append_dropWhile (p := isIndent) (l := c.rest)] at hrest
  exact hrest.of_append_right (getLast?_ne_of_forall fun d hd =>
    ne_backslash_of_isIndent (List.mem_takeWhile_imp hd))

theorem Cursor.IsWatched.text (h : c.IsWatched strict) : IsTame strict c.text := by
  unfold Cursor.text
  split_ifs with hmid
  · have htab := h.tab hmid
    have hrest := h.rest
    rw [← List.cons_head?_tail htab] at hrest
    rw [isTame_append_of_start (Watch.start_run (by simp))]
    exact (isTame_append_of_start (s := ['\t']) (Watch.start_run (by simp))).1 hrest
  · exact h.rest

end Cursors

section Markers

variable {t : Text} {length : Nat}

theorem eq_of_mem_take_runLength {c d : Char} (h : d ∈ t.take (runLength c t)) : d = c := by
  rw [runLength, take_length_takeWhile] at h
  simpa using List.mem_takeWhile_imp h

theorem ne_backslash_of_numberSigns? {level : Nat} (h : numberSigns? t = some (level, length)) :
    ∀ d ∈ t.take length, d ≠ '\\' := by
  unfold numberSigns? at h
  dsimp only at h
  split_ifs at h
  cases h
  intro d hd
  rw [List.take_add] at hd
  rcases List.mem_append.1 hd with hd | hd
  · rw [eq_of_mem_take_runLength hd]
    decide
  · rw [take_length_takeWhile] at hd
    exact ne_backslash_of_isIndent (List.mem_takeWhile_imp hd)

theorem ne_backslash_of_fence? {mark : Char} (h : fence? t = some (mark, length)) :
    ∀ d ∈ t.take length, d ≠ '\\' := by
  unfold fence? at h
  split at h
  all_goals first
    | (dsimp only at h
       split_ifs at h
       cases h
       intro d hd
       rw [eq_of_mem_take_runLength hd]
       decide)
    | cases h

theorem ne_backslash_of_listMarker? {interrupts : Bool} {marker : ListMarker}
    (h : listMarker? interrupts t = some (marker, length)) : ∀ d ∈ t.take length, d ≠ '\\' := by
  unfold listMarker? at h
  split at h
  · cases h
  next c rest =>
  dsimp only at h
  split_ifs at h with hbullet
  · cases h
    intro d hd
    rw [List.take_succ_cons, List.take_zero, List.mem_singleton] at hd
    rintro rfl
    simp [← hd] at hbullet
  split at h
  · next d after hdrop =>
    split_ifs at h with hmarker
    cases h
    simp only [Bool.and_eq_true, Bool.or_eq_true, beq_iff_eq] at hmarker
    intro e he
    rw [List.take_add, hdrop, List.take_succ_cons, List.take_zero] at he
    rcases List.mem_append.1 he with he | he
    · have hprefix : ((c :: rest).takeWhile Char.isDigit).take 9 <+: c :: rest :=
        (List.take_prefix _ _).trans (List.takeWhile_prefix _)
      rw [← List.prefix_iff_eq_take.1 hprefix] at he
      rintro rfl
      exact absurd (List.mem_takeWhile_imp (List.mem_of_mem_take he)) (by decide)
    · rw [List.mem_singleton.1 he]
      rcases hmarker.1.1.2 with rfl | rfl <;> decide
  · cases h

theorem ne_backslash_of_detailsMarker? (h : detailsMarker? t = some length) :
    ∀ d ∈ t.take length, d ≠ '\\' := by
  unfold detailsMarker? at h
  split at h
  · next c rest =>
    dsimp only at h
    split_ifs at h with hmarker
    cases h
    intro d hd
    rw [Nat.add_comm, List.take_succ_cons, take_length_takeWhile] at hd
    rcases List.mem_cons.1 hd with rfl | hd
    · rintro rfl
      simp at hmarker
    · exact ne_backslash_of_isIndent (List.mem_takeWhile_imp hd)
  · cases h

end Markers

section Definitions

variable {strict : Bool} {w v : Watch} {t : Text} {c : Char}

/-- Where a bracket is open, any other character leaves one open. -/
theorem opened_pos_of_step (ho : 0 < w.opened) (hc : Sign.of c = .closing → w.last = .backslash)
    (h : w.step strict c = some v) : 0 < v.opened := by
  obtain ⟨n, l⟩ := w
  rw [Watch.step] at h
  revert h hc ho
  cases Sign.of c <;> cases l <;>
    grind [Watch.pass, Watch.passEscaped, Watch.passAngle, Watch.next]

/-- A closing bracket, escaped or not, is not passed before a colon where one is open. -/
theorem last_of_step_closing (ho : 0 < w.opened) (h : w.step strict ']' = some v) :
    v.last = .closing := by
  have hc : Sign.of ']' = .closing := rfl
  obtain ⟨n, l⟩ := w
  rw [Watch.step, hc] at h
  revert h ho
  cases l <;> grind [Watch.pass, Watch.passEscaped, Watch.passAngle, Watch.next]

theorem sign_eq_closing (h : Sign.of c = .closing) : c = ']' := by
  unfold Sign.of at h
  split at h
  case h_3 => rfl
  case h_13 => split_ifs at h
  all_goals cases h

theorem step_target_of_closing (hl : w.last = .closing) (hc : Sign.of c = .target) :
    w.step strict c = none := by
  obtain ⟨n, l⟩ := w
  subst hl
  rw [Watch.step, hc]
  rfl

/-- What is open when a label begins is open before a colon behind it, which is not passed. -/
theorem colon_of_labelRest? : ∀ {t : Text} {used : Nat} {escaped : Bool} {label rest : Text}
    {w : Watch}, 0 < w.opened → (escaped = true → w.last = .backslash) →
      (escaped = false → w.last = .backslash → ∀ c ∈ t.head?, isAsciiPunctuation c = false) →
      (∃ v, w.run strict t = some v) → labelRest? used escaped t = some (label, rest) →
        rest.head? ≠ some ':'
  | [], _, _, _, _, _, _, _, _, _, h => by simp [labelRest?] at h
  | c :: t, used, escaped, label, rest, w, ho, hescaped, hplain, ⟨v, hv⟩, h => by
    obtain ⟨u, hu, hv⟩ := Option.bind_eq_some_iff.1 hv
    rw [labelRest?] at h
    split at h
    · next hend =>
      simp only [Bool.and_eq_true, beq_iff_eq] at hend
      cases h
      rw [hend.2] at hu
      have hlast := last_of_step_closing ho hu
      rcases t with _ | ⟨d, t⟩
      · simp
      · intro hd
        cases hd
        rw [Watch.run_cons, step_target_of_closing hlast rfl] at hv
        cases hv
    split at h
    · cases h
    next hend _ =>
    obtain ⟨⟨label', rest'⟩, hrest, heq⟩ := Option.map_eq_some_iff.1 h
    cases heq
    refine colon_of_labelRest? (w := u) (opened_pos_of_step ho (fun hc => hescaped ?_) hu) ?_ ?_
      ⟨v, hv⟩ hrest
    · simpa [sign_eq_closing hc] using hend
    · intro hnext
      simp only [escapesNext, Bool.and_eq_true, Bool.not_eq_true', beq_iff_eq] at hnext
      obtain ⟨hfirst, rfl, -⟩ := hnext
      have hlast : w.last ≠ .backslash := fun hb =>
        absurd (hplain hfirst hb '\\' rfl) (by decide)
      rw [step_backslash rfl hlast hu]
    · intro hnext hlast d hd
      have hc : c = '\\' := by
        by_contra hc
        exact Watch.last_ne_backslash hc hu hlast
      have hfirst : escaped = false := by
        by_contra he
        exact (step_escaped (hescaped (by simpa using he)) hu).2 hlast
      simpa [hfirst, hc, escapesNext, Option.mem_def.1 hd] using hnext

theorem label?_ne_colon {label rest : Text} (h : IsSafe strict t) (hl : label? t = some (label, rest)) :
    rest.head? ≠ some ':' := by
  obtain ⟨v, hv⟩ := isSafe_iff.1 h
  unfold label? at hl
  split at hl
  · next u =>
    obtain ⟨⟨label', rest'⟩, hrest, heq⟩ := Option.map_eq_some_iff.1 hl
    cases heq
    obtain ⟨w, hw, hv⟩ := Option.bind_eq_some_iff.1 hv
    have hstep := step_opening rfl (by decide) hw
    exact colon_of_labelRest? (w := w) (by simp [hstep]) (by simp) (by simp [hstep]) ⟨v, hv⟩ hrest
  · cases hl

/-- A text that a watch lets through begins with no definition. -/
theorem read?_eq_none (defs : Definitions) (h : IsSafe strict t) : defs.read? t = none := by
  unfold Definitions.read?
  cases hl : label? t with
  | none => rfl
  | some found =>
    obtain ⟨label, rest⟩ := found
    have hcolon := label?_ne_colon h hl
    have hstrip : Text.strip? ":" rest = none := by
      rcases rest with _ | ⟨d, rest⟩
      · rfl
      · have hd : ':' ≠ d := fun hd => hcolon (by rw [← hd]; rfl)
        simp [Text.strip?, hd]
    simp only [Option.bind_eq_bind, Option.bind_some, hstrip, Option.bind_none]
    split_ifs <;> rfl

theorem readAll_eq (defs : Definitions) (h : IsSafe strict t) (n : Nat) :
    defs.readAll n t = (defs, t) := by
  cases n with
  | zero => rfl
  | succ n => rw [Definitions.readAll, read?_eq_none defs h]

theorem opened_pos_of_run {s : Text} (ho : 0 < w.opened) (hs : ']' ∉ s)
    (h : w.run strict s = some v) : 0 < v.opened := by
  induction s generalizing w with
  | nil =>
    cases h
    exact ho
  | cons c s ih =>
    rw [List.mem_cons, not_or] at hs
    obtain ⟨u, hu, h⟩ := Option.bind_eq_some_iff.1 h
    exact ih (opened_pos_of_step ho (fun hc => absurd (sign_eq_closing hc) (Ne.symm hs.1)) hu) hs.2 h

/-- Nor does it define a footnote. -/
theorem footnoteLabel?_eq_none (h : IsSafe strict t) : footnoteLabel? t = none := by
  obtain ⟨v, hv⟩ := isSafe_iff.1 h
  unfold footnoteLabel?
  split
  · next rest =>
    dsimp only
    split
    · next after hdrop =>
      exfalso
      set label := rest.takeWhile fun c => c != ']' && !isIndent c with hlabel
      have hrest : rest = label ++ ']' :: ':' :: after := by
        rw [← hdrop, drop_length_takeWhile, List.takeWhile_append_dropWhile]
      have hclose : ']' ∉ '^' :: label := by
        rw [List.mem_cons, not_or]
        refine ⟨by decide, fun hmem => ?_⟩
        simpa using List.mem_takeWhile_imp hmem
      obtain ⟨w, hw, hv⟩ := Option.bind_eq_some_iff.1 hv
      have hopened : 0 < w.opened := by simp [step_opening rfl (by decide) hw]
      rw [hrest, ← List.cons_append] at hv
      obtain ⟨w', hw', hv⟩ := Watch.exists_of_run_append hv
      obtain ⟨u, hu, hv⟩ := Option.bind_eq_some_iff.1 hv
      have hlast := last_of_step_closing (opened_pos_of_run hopened hclose hw') hu
      rw [Watch.run_cons, step_target_of_closing hlast rfl] at hv
      cases hv
    · rfl
  · rfl

end Definitions

section Rows

variable {strict : Bool} {w v : Watch} {t u : Text}

theorem isSafe_trimSpace (h : IsSafe strict t) : IsSafe strict (Text.trimSpace t) := by
  rw [← List.takeWhile_append_dropWhile (p := isSpace) (l := t)] at h
  obtain ⟨s, hs⟩ := Reflink.dropEndWhile_initial isSpace (t.dropWhile isSpace)
  have hstart : (t.takeWhile isSpace).getLast? ≠ some '\\' := getLast?_ne_of_forall fun d hd => by
    rintro rfl
    exact absurd (List.mem_takeWhile_imp hd) (by decide)
  have hrest := h.of_append_right hstart
  rw [← hs] at hrest
  exact hrest.of_append

theorem isSafe_unescapeBars : IsSafe strict (unescapeBars t) ↔ IsSafe strict t := by
  unfold IsSafe
  rw [Watch.run_unescapeBars]

/-- The stretches between bars are let through, as a bar is no backslash. -/
theorem isSafe_splitBars : ∀ (t : Text) (escaped : Bool) {w : Watch},
    (∃ v, w.run strict t = some v) →
      (∀ cell ∈ (splitBars escaped t).head?, ∃ v, w.run strict cell = some v) ∧
        ∀ cell ∈ (splitBars escaped t).tail, IsSafe strict cell
  | [], _, w, _ => ⟨fun cell hc => by cases hc; exact ⟨w, rfl⟩, by simp [splitBars]⟩
  | c :: t, escaped, w, ⟨v, hv⟩ => by
    obtain ⟨u, hu, hv⟩ := Option.bind_eq_some_iff.1 hv
    rw [splitBars]
    split
    · next hbar =>
      simp only [Bool.and_eq_true, beq_iff_eq] at hbar
      have hstart := Watch.start_le (Watch.last_ne_backslash (by rw [hbar.1]; decide) hu)
      obtain ⟨v', hv', -⟩ := hstart.run hv
      obtain ⟨hfirst, hrest⟩ := isSafe_splitBars t false ⟨v', hv'⟩
      refine ⟨fun cell hc => by cases hc; exact ⟨w, rfl⟩, fun cell hc => ?_⟩
      rw [List.tail_cons] at hc
      rcases hs : splitBars false t with _ | ⟨first, rest⟩ <;> rw [hs] at hfirst hrest hc
      · cases hc
      · rcases List.mem_cons.1 hc with rfl | hc
        · exact isSafe_iff.2 (hfirst _ rfl)
        · exact hrest cell hc
    · obtain ⟨hfirst, hrest⟩ := isSafe_splitBars t (c == '\\') ⟨v, hv⟩
      split
      · next hs =>
        refine ⟨fun cell hc => ?_, by simp⟩
        cases hc
        exact ⟨u, by rw [Watch.run_cons, hu]; rfl⟩
      · next first rest hs =>
        rw [hs] at hfirst hrest
        refine ⟨fun cell hc => ?_, hrest⟩
        cases hc
        obtain ⟨v', hv'⟩ := hfirst first rfl
        exact ⟨v', by rw [Watch.run_cons, hu, Option.bind_some, hv']⟩

theorem isSafe_of_mem_rowCells (h : IsSafe strict t) : ∀ cell ∈ rowCells t, IsSafe strict cell := by
  have hsplit : ∀ cell ∈ splitBars false t, IsSafe strict cell := by
    obtain ⟨hfirst, hrest⟩ := isSafe_splitBars t false (isSafe_iff.1 h)
    intro cell hc
    rcases hs : splitBars false t with _ | ⟨first, rest⟩ <;> rw [hs] at hfirst hrest hc
    · cases hc
    · rcases List.mem_cons.1 hc with rfl | hc
      · exact isSafe_iff.2 (hfirst _ rfl)
      · exact hrest cell hc
  have hparts : cellParts t ⊆ splitBars false t := by
    unfold cellParts
    split
    · simp
    · split_ifs <;> simp_all
    · next first rest _ hs =>
      have hsub : (if first.isEmpty then rest else first :: rest) ⊆ splitBars false t := by
        rw [hs]
        split_ifs
        · exact List.subset_cons_self _ _
        · exact List.Subset.refl _
      dsimp only
      generalize (if first.isEmpty then rest else first :: rest) = parts at hsub ⊢
      split
      · exact List.Subset.trans (List.dropLast_sublist _).subset hsub
      · exact hsub
  refine List.forall_mem_map.2 fun cell hc => ?_
  exact isSafe_trimSpace (isSafe_unescapeBars.2 (hsplit cell (hparts hc)))

theorem getLast?_of_mem_pieces : ∀ {t line : Text}, line ∈ (Text.pieces t).dropLast →
    line.getLast? = some '\n'
  | [], line, h => by simp [Text.pieces] at h
  | c :: t, line, h => by
    have ih := @getLast?_of_mem_pieces t
    rw [Text.pieces] at h
    split_ifs at h with hc
    · rcases hp : Text.pieces t with _ | ⟨first, lines⟩ <;> rw [hp] at h ih
      · simp at h
      · rw [List.dropLast_cons_cons] at h
        rcases List.mem_cons.1 h with rfl | h
        · simp [beq_iff_eq.1 hc]
        · exact ih h
    · rcases hp : Text.pieces t with _ | ⟨first, lines⟩ <;> rw [hp] at h ih
      · simp at h
      · rcases lines with _ | ⟨second, lines⟩
        · simp at h
        · rw [List.dropLast_cons_cons] at h ih
          rcases List.mem_cons.1 h with rfl | h
          · rw [List.getLast?_cons, ih List.mem_cons_self]
            rfl
          · exact ih (List.mem_cons_of_mem _ h)

/-- A table is made of the last line of a paragraph and leaves the lines before it. -/
theorem isSafe_of_tableStart {line : Text} {start : TableStart} (h : IsSafe strict t)
    (hstart : TableStart.ofLine? t line = some start) :
    (∀ before ∈ start.before, IsSafe strict before) ∧
      ∀ cell ∈ start.header, IsSafe strict cell := by
  obtain ⟨aligns, -, hstart⟩ := Option.bind_eq_some_iff.1 hstart
  dsimp only at hstart
  split at hstart
  case isFalse => cases hstart
  rw [Option.pure_def, Option.some.injEq] at hstart
  subst hstart
  have hsplit : t = (Text.pieces t).dropLast.flatten ++ (Text.pieces t).getLast?.getD [] := by
    conv_lhs => rw [← Text.flatten_pieces t]
    rcases (Text.pieces t).eq_nil_or_concat with hp | ⟨lines, last, hp⟩ <;> rw [hp] <;> simp
  rw [hsplit] at h
  refine ⟨fun before hb => ?_, fun cell hc => isSafe_of_mem_rowCells ?_ cell hc⟩
  · dsimp only at hb
    split at hb
    · cases hb
    · cases hb
      exact isSafe_trimSpace (isSafe_unescapeBars.2 h.of_append)
  · have hlast : (Text.pieces t).dropLast.flatten.getLast? ≠ some '\\' := by
      rcases (Text.pieces t).dropLast.eq_nil_or_concat with hp | ⟨lines, last, hp⟩
      · simp [hp]
      · have hline : last.getLast? = some '\n' :=
          getLast?_of_mem_pieces (t := t) (by rw [hp]; simp)
        rw [hp, List.concat_eq_append, List.flatten_append, List.flatten_singleton,
          List.getLast?_append, hline]
        simp
    obtain ⟨s, hs, -⟩ := exists_reverse_dropWhile (· == '\n') ((Text.pieces t).getLast?.getD [])
    have hline := h.of_append_right hlast
    rw [hs] at hline
    exact hline.of_append

end Rows

mutual

/-- Whether nothing in a block can be a link, for what is known of its inline content. -/
def Block.IsWatched {α : Type} (strict : Bool) (p : α → Prop) : Block α → Prop
  | .paragraph a | .heading _ a => p a
  | .quote body => AreWatched strict p body
  | .list _ _ items => ItemsAreWatched strict p items
  | .fence _ literal | .indented literal => IsTame strict literal
  | .html _ => strict = false
  | .rule => True
  | .table _ header rows => (∀ a ∈ header, p a) ∧ ∀ row ∈ rows, ∀ a ∈ row, p a
  | .footnote _ _ => False
  | .descriptions items => DescriptionsAreWatched strict p items

def AreWatched {α : Type} (strict : Bool) (p : α → Prop) : List (Block α) → Prop
  | [] => True
  | b :: rest => b.IsWatched strict p ∧ AreWatched strict p rest

def ItemsAreWatched {α : Type} (strict : Bool) (p : α → Prop) : List (Item α) → Prop
  | [] => True
  | .mk body :: rest => AreWatched strict p body ∧ ItemsAreWatched strict p rest

def DescriptionsAreWatched {α : Type} (strict : Bool) (p : α → Prop) :
    List (Description α) → Prop
  | [] => True
  | .mk _ term details :: rest =>
    (∀ a ∈ term, p a) ∧ AreWatched strict p details ∧ DescriptionsAreWatched strict p rest

end

section Frames

variable (strict : Bool)

def Part.IsWatched : Part → Prop
  | .block b => b.IsWatched strict (IsSafe strict)
  | .item (.mk body) => AreWatched strict (IsSafe strict) body
  | .description (.mk _ term details) =>
    (∀ t ∈ term, IsSafe strict t) ∧ AreWatched strict (IsSafe strict) details

def Frame.Kind.IsWatched : Frame.Kind → Prop
  | .footnote _ => False
  | .html _ => strict = false
  | .description _ _ term => ∀ t ∈ term, IsSafe strict t
  | .table _ header rows =>
    (∀ cell ∈ header, IsSafe strict cell) ∧ ∀ row ∈ rows, ∀ cell ∈ row, IsSafe strict cell
  | _ => True

/-- Whether an open block holds what the watch has let through. Nothing is put behind the text of a
heading. -/
structure Frame.IsWatched (f : Frame) : Prop where
  kind : f.kind.IsWatched strict
  tame : IsTame strict f.text
  ready : (∀ level, f.kind ≠ .heading level) → IsReady strict f.text
  done : ∀ c ∈ f.done, c.part.IsWatched strict

structure Site.IsWatched (s : Site) : Prop where
  frame : s.frame.IsWatched strict
  ready : IsReady strict s.frame.text
  outer : ∀ f ∈ s.outer, f.IsWatched strict
  left : ∀ f ∈ s.left, f.IsWatched strict
  defs : s.defs = {}

end Frames

section Texts

variable {strict : Bool} {s t : Text}

/-- Indented code ends with its last line that shows something. -/
theorem isTame_trimCode (h : IsTame strict t) : IsTame strict (trimCode t) := by
  obtain ⟨blank, hsplit, hall⟩ := exists_reverse_dropWhile
    (fun line : Text => line.all fun c => isIndent c || c == '\n') (Text.pieces t)
  have htext := congrArg List.flatten hsplit
  rw [Text.flatten_pieces, List.flatten_append] at htext
  rw [htext] at h
  have hlines := h.of_append_neutral fun c hc => ?_
  · exact (isReady_line (isTame_dropNewlines hlines)).isTame
  · obtain ⟨line, hline, hc⟩ := List.mem_flatten.1 hc
    have hblank := List.all_eq_true.1 (hall line hline) c hc
    rw [Bool.or_eq_true, beq_iff_eq] at hblank
    rcases hblank with hblank | rfl
    · simp [sign_of_isIndent hblank]
    · decide

theorem isTame_splitInfo (h : IsTame strict t) : IsTame strict (splitInfo t).2 := by
  unfold splitInfo
  dsimp only
  rcases hd : t.dropWhile (· != '\n') with _ | ⟨c, rest⟩
  · exact isTame_nil
  · rw [(Text.eq_of_dropWhile_ne hd).1] at h
    exact (isTame_append_newline.1 h).2

theorem isTame_chopNumberSigns (h : IsTame strict t) :
    IsTame strict (chopNumberSigns t) := by
  have htrim := isTame_trimSpaceEnd h
  unfold chopNumberSigns
  dsimp only
  split
  · exact isTame_nil
  · split_ifs
    · refine isTame_trimSpaceEnd (isTame_dropEndWhile (fun c hc => ?_) htrim)
      rw [beq_iff_eq.1 hc]
      decide
    · exact htrim

end Texts

section Sites

variable {strict : Bool} {f : Frame} {s : Site} {done : List Closed}

theorem areWatched_iff {α : Type} {p : α → Prop} {bs : List (Block α)} :
    AreWatched strict p bs ↔ ∀ b ∈ bs, b.IsWatched strict p := by
  induction bs with
  | nil => simp [AreWatched]
  | cons b bs ih => rw [AreWatched, ih, List.forall_mem_cons]

theorem watched_blocksOf (h : ∀ c ∈ done, c.part.IsWatched strict) :
    AreWatched strict (IsSafe strict) (blocksOf done) := by
  refine areWatched_iff.2 fun b hb => ?_
  obtain ⟨c, hc, hblock⟩ := List.mem_filterMap.1 hb
  have hpart := h c (List.mem_reverse.1 hc)
  split at hblock
  · next b' hb =>
    cases hblock
    rwa [hb] at hpart
  · cases hblock

theorem watched_itemsOf (h : ∀ c ∈ done, c.part.IsWatched strict) :
    ItemsAreWatched strict (IsSafe strict) (itemsOf done) := by
  have hall : ∀ i ∈ itemsOf done, (Part.item i).IsWatched strict := by
    intro i hi
    obtain ⟨c, hc, hitem⟩ := List.mem_filterMap.1 hi
    have hpart := h c (List.mem_reverse.1 hc)
    split at hitem
    · next i' hi =>
      cases hitem
      rwa [hi] at hpart
    · cases hitem
  generalize itemsOf done = items at hall
  induction items with
  | nil => trivial
  | cons i items ih =>
    obtain ⟨body⟩ := i
    exact ⟨hall _ List.mem_cons_self, ih fun i hi => hall i (List.mem_cons_of_mem _ hi)⟩

theorem descriptionsAreWatched_iff {items : List (Description Text)} :
    DescriptionsAreWatched strict (IsSafe strict) items ↔
      ∀ d ∈ items, (Part.description d).IsWatched strict := by
  induction items with
  | nil => simp [DescriptionsAreWatched]
  | cons d items ih =>
    obtain ⟨tight, term, details⟩ := d
    rw [DescriptionsAreWatched, ih, List.forall_mem_cons, Part.IsWatched, and_assoc]

theorem watched_descriptionsOf (h : ∀ c ∈ done, c.part.IsWatched strict) :
    DescriptionsAreWatched strict (IsSafe strict) (descriptionsOf done) := by
  refine descriptionsAreWatched_iff.2 fun d hd => ?_
  obtain ⟨c, hc, hdescription⟩ := List.mem_filterMap.1 hd
  have hpart := h c (List.mem_reverse.1 hc)
  split at hdescription
  · next d' hd =>
    cases hdescription
    rwa [hd] at hpart
  · cases hdescription

theorem watched_new {kind : Frame.Kind} (h : kind.IsWatched strict) :
    ({ kind } : Frame).IsWatched strict where
  kind := h
  tame := isTame_nil
  ready _ := isReady_nil
  done := by simp

theorem watched_document : ({ kind := .document } : Frame).IsWatched strict :=
  watched_new trivial

theorem Frame.IsWatched.withDone (h : f.IsWatched strict)
    (hdone : ∀ c ∈ done, c.part.IsWatched strict) : ({ f with done } : Frame).IsWatched strict :=
  ⟨h.kind, h.tame, h.ready, hdone⟩

theorem Frame.IsWatched.withBlank (h : f.IsWatched strict) (blank : Bool) :
    ({ f with blank } : Frame).IsWatched strict :=
  ⟨h.kind, h.tame, h.ready, h.done⟩

/-- Closing a block leaves no definitions behind. -/
theorem watched_close (h : f.IsWatched strict) (keepDefinitions : Bool) :
    (∀ c ∈ (f.close keepDefinitions {}).1, c.part.IsWatched strict) ∧
      (f.close keepDefinitions {}).2 = {} := by
  obtain ⟨kind, text, done, blank⟩ := f
  have hkind := h.kind
  have hsafe := h.tame.isSafe
  cases kind with
  | paragraph tried =>
    unfold Frame.close
    dsimp only
    rw [readAll_eq {} hsafe]
    dsimp only
    split_ifs
    · exact ⟨fun c hc => by cases hc; exact hsafe, rfl⟩
    · exact ⟨by simp, rfl⟩
    · exact ⟨fun c hc => by cases hc; exact hsafe, rfl⟩
  | document => exact ⟨by simp [Frame.close], rfl⟩
  | quote => exact ⟨fun c hc => by cases hc; exact watched_blocksOf h.done, rfl⟩
  | list marker tight => exact ⟨fun c hc => by cases hc; exact watched_itemsOf h.done, rfl⟩
  | item width line => exact ⟨fun c hc => by cases hc; exact watched_blocksOf h.done, rfl⟩
  | footnote name => exact hkind.elim
  | descriptions =>
    exact ⟨fun c hc => by cases hc; exact watched_descriptionsOf h.done, rfl⟩
  | description width tight term =>
    exact ⟨fun c hc => by cases hc; exact ⟨hkind, watched_blocksOf h.done⟩, rfl⟩
  | heading level => exact ⟨fun c hc => by cases hc; exact hsafe, rfl⟩
  | rule => exact ⟨fun c hc => by cases hc; trivial, rfl⟩
  | fence mark length offset =>
    exact ⟨fun c hc => by cases hc; exact isTame_splitInfo h.tame, rfl⟩
  | indented => exact ⟨fun c hc => by cases hc; exact isTame_trimCode h.tame, rfl⟩
  | html kind => exact ⟨fun c hc => by cases hc; exact hkind, rfl⟩
  | table aligns header rows =>
    exact ⟨fun c hc => by
      cases hc
      exact ⟨hkind.1, fun row hrow => hkind.2 row (List.mem_reverse.1 hrow)⟩, rfl⟩

theorem watched_add (h : f.IsWatched strict) {child : Option Closed}
    (hchild : ∀ c ∈ child, c.part.IsWatched strict) : (f.add child).IsWatched strict := by
  rcases child with _ | c
  · exact h
  · exact h.withDone (List.forall_mem_cons.2 ⟨hchild c rfl, h.done⟩)

theorem text_add (f : Frame) (child : Option Closed) : (f.add child).text = f.text := by
  cases child <;> rfl

theorem watched_closeFrames : ∀ {frames : List Frame} (keepDefinitions : Bool),
    (∀ f ∈ frames, f.IsWatched strict) →
      (∀ c ∈ (closeFrames keepDefinitions {} frames).1, c.part.IsWatched strict) ∧
        (closeFrames keepDefinitions {} frames).2 = {}
  | [], _, _ => ⟨by simp [closeFrames], rfl⟩
  | f :: inner, keepDefinitions, h => by
    obtain ⟨hf, hinner⟩ := List.forall_mem_cons.1 h
    obtain ⟨hchild, hdefs⟩ := watched_closeFrames keepDefinitions hinner
    rw [closeFrames]
    rcases hc : closeFrames keepDefinitions {} inner with ⟨child, defs⟩
    rw [hc] at hchild hdefs
    dsimp only at hdefs ⊢
    subst hdefs
    exact watched_close (watched_add hf hchild) keepDefinitions

theorem watched_settle (h : s.IsWatched strict) : s.settle.IsWatched strict := by
  obtain ⟨hchild, hdefs⟩ := watched_closeFrames false h.left
  unfold Site.settle
  rw [h.defs]
  exact ⟨watched_add h.frame hchild, (congrArg _ (text_add _ _)).mpr h.ready, h.outer, by simp, hdefs⟩

theorem watched_decideTight (h : s.IsWatched strict) : s.decideTight.IsWatched strict := by
  unfold Site.decideTight
  split
  · exact ⟨⟨trivial, h.frame.tame, fun _ => h.ready, h.frame.done⟩, h.ready, h.outer, h.left,
      h.defs⟩
  · exact h

theorem watched_makeRoom (child : Frame.Kind) : ∀ {outer : List Frame} {f : Frame},
    f.IsWatched strict → (∀ f ∈ outer, f.IsWatched strict) →
      (Site.makeRoom child f {} outer).frame.IsWatched strict ∧
        (∀ g ∈ (Site.makeRoom child f {} outer).outer, g.IsWatched strict) ∧
        (Site.makeRoom child f {} outer).left = [] ∧ (Site.makeRoom child f {} outer).defs = {}
  | [], _, hf, _ => ⟨hf, by simp [Site.makeRoom], rfl, rfl⟩
  | g :: outer, f, hf, h => by
    obtain ⟨hg, houter⟩ := List.forall_mem_cons.1 h
    rw [Site.makeRoom]
    split
    · exact ⟨hf, h, rfl, rfl⟩
    · obtain ⟨hclosed, hdefs⟩ := watched_close hf false
      rcases hc : f.close false {} with ⟨closed, defs⟩
      rw [hc] at hclosed hdefs
      dsimp only at hclosed hdefs ⊢
      subst hdefs
      exact watched_makeRoom child (watched_add hg hclosed) houter

theorem watched_push (h : s.IsWatched strict) {kind : Frame.Kind} (hkind : kind.IsWatched strict) :
    (s.push kind).IsWatched strict := by
  have hdecided : (if s.frame.kind.canHold kind then s else s.decideTight).IsWatched strict := by
    split
    · exact h
    · exact watched_decideTight h
  have hsettled := watched_settle hdecided
  unfold Site.push
  dsimp only
  rw [hsettled.defs]
  obtain ⟨hframe, houter, hleft, hdefs⟩ := watched_makeRoom kind hsettled.frame hsettled.outer
  exact ⟨watched_new hkind, isReady_nil, List.forall_mem_cons.2 ⟨hframe, houter⟩, by simp [hleft],
    hdefs⟩

/-- Whether all open blocks hold what the watch has let through, and nothing has been defined. -/
def Reading.IsWatched (strict : Bool) (r : Reading) : Prop :=
  (∀ f ∈ r.frame :: r.outer, f.IsWatched strict) ∧ r.defs = {}

def Site.reading (s : Site) : Reading :=
  ⟨s.frame, s.outer, s.defs⟩

theorem Site.IsWatched.reading (h : s.IsWatched strict) : s.reading.IsWatched strict :=
  ⟨List.forall_mem_cons.2 ⟨h.frame, h.outer⟩, h.defs⟩

theorem watched_pop (h : s.reading.IsWatched strict) : s.pop.reading.IsWatched strict := by
  obtain ⟨hall, hdefs⟩ := h
  obtain ⟨hframe, houter⟩ := List.forall_mem_cons.1 hall
  replace hdefs : s.defs = {} := hdefs
  unfold Site.pop
  split
  · exact ⟨hall, hdefs⟩
  · next f outer ho =>
    replace houter : ∀ f ∈ s.outer, f.IsWatched strict := houter
    rw [ho] at houter
    obtain ⟨hf, houter⟩ := List.forall_mem_cons.1 houter
    obtain ⟨hclosed, hclosedDefs⟩ := watched_close hframe false
    rw [hdefs]
    exact ⟨List.forall_mem_cons.2 ⟨watched_add hf hclosed, houter⟩, hclosedDefs⟩

theorem watched_describe {frame : Frame} {outer : List Frame} (hframe : frame.IsWatched strict)
    (houter : ∀ f ∈ outer, f.IsWatched strict) (h : s.IsWatched strict) {term : Text}
    (hterm : IsSafe strict term) (width : Nat) (tight : Bool) :
    (describe s frame outer term width tight).IsWatched strict := by
  have hdetails : ({ kind := .description width tight (some term) } : Frame).IsWatched strict :=
    watched_new fun t ht => by cases ht; exact hterm
  unfold describe
  dsimp only
  split
  · next items blank _ _ done hdone =>
    have hall := hframe.done
    rw [hdone] at hall
    obtain ⟨hitems, hrest⟩ := List.forall_mem_cons.1 hall
    have hlist : ({ kind := .descriptions, blank, done := items.reverse.map fun d =>
        { part := .description d } } : Frame).IsWatched strict := by
      refine ⟨trivial, isTame_nil, fun _ => isReady_nil, fun c hc => ?_⟩
      obtain ⟨d, hd, rfl⟩ := List.mem_map.1 hc
      exact descriptionsAreWatched_iff.1 hitems d (List.mem_reverse.1 hd)
    exact ⟨hdetails, isReady_nil, List.forall_mem_cons.2 ⟨hlist,
      List.forall_mem_cons.2 ⟨hframe.withDone hrest, houter⟩⟩, h.left, h.defs⟩
  · exact ⟨hdetails, isReady_nil, List.forall_mem_cons.2 ⟨watched_new trivial,
      List.forall_mem_cons.2 ⟨hframe, houter⟩⟩, h.left, h.defs⟩

theorem watched_markChild (h : f.IsWatched strict) : f.markChild.IsWatched strict := by
  unfold Frame.markChild
  split
  · next last done hdone =>
    have hall := h.done
    rw [hdone] at hall
    obtain ⟨hlast, hdone⟩ := List.forall_mem_cons.1 hall
    exact h.withDone (List.forall_mem_cons.2 ⟨hlast, hdone⟩)
  · exact h

theorem text_markChild (f : Frame) : f.markChild.text = f.text := by
  unfold Frame.markChild
  split <;> rfl

theorem watched_noteBlank (h : s.IsWatched strict) (line : Nat) (blank : Bool) :
    (s.noteBlank line blank).IsWatched strict := by
  obtain ⟨frame, outer, left, defs⟩ := s
  have houter : ∀ g ∈ outer.map (fun f => { f with blank := false }), g.IsWatched strict := by
    intro g hg
    obtain ⟨f, hf, rfl⟩ := List.mem_map.1 hg
    exact (h.outer f hf).withBlank false
  unfold Site.noteBlank
  dsimp only
  cases blank
  case false => exact ⟨h.frame.withBlank _, h.ready, houter, h.left, h.defs⟩
  case true =>
    rcases left with _ | ⟨f, left⟩
    · exact ⟨(watched_markChild h.frame).withBlank _, (congrArg _ (text_markChild _)).mpr h.ready,
        houter, h.left, h.defs⟩
    · obtain ⟨hf, hleft⟩ := List.forall_mem_cons.1 h.left
      exact ⟨h.frame.withBlank _, h.ready, houter,
        List.forall_mem_cons.2 ⟨hf.withBlank true, hleft⟩, h.defs⟩

theorem Frame.IsWatched.addLine (h : f.IsWatched strict) (hready : IsReady strict f.text) {t : Text}
    (ht : IsTame strict t) :
    ({ f with text := f.text ++ (t ++ ['\n']) } : Frame).IsWatched strict :=
  ⟨h.kind, (hready.append ht).isTame, fun _ => hready.append ht, h.done⟩

theorem watched_addRest (h : s.IsWatched strict) {c : Cursor} (hc : c.IsWatched strict) :
    (s.addRest c).reading.IsWatched strict := by
  have hline : ∀ {s : Site} {t : Text}, s.IsWatched strict → IsTame strict t →
      (s.addText (t ++ ['\n'])).IsWatched strict := fun hs ht =>
    ⟨hs.frame.addLine hs.ready ht, hs.ready.append ht, hs.outer, hs.left, hs.defs⟩
  unfold Site.addRest
  dsimp only
  split
  · exact (hline h hc.text).reading
  · exact (hline h hc.text).reading
  · split_ifs
    · exact watched_pop (hline h hc.text).reading
    · exact (hline h hc.text).reading
  · next level hk =>
    split_ifs
    · exact h.reading
    · refine ⟨List.forall_mem_cons.2 ⟨⟨h.frame.kind, ?_, fun hne => absurd hk (hne level),
        h.frame.done⟩, h.outer⟩, h.defs⟩
      have hchop := isTame_chopNumberSigns hc.content
      exact (isTame_append_of_start h.ready).2 hchop
  · split_ifs
    · exact h.reading
    · exact (hline h hc.content).reading
  · split_ifs
    · exact h.reading
    · exact (hline (watched_push h (by exact trivial)) hc.content).reading

end Sites

section Openings

variable {strict : Bool} {o o' : Opening} {situation : Situation}

structure Opening.IsWatched (strict : Bool) (o : Opening) : Prop where
  site : o.site.IsWatched strict
  cursor : o.cursor.IsWatched strict

theorem Opening.IsWatched.content (h : o.IsWatched strict) : IsTame strict o.cursor.content :=
  h.cursor.content

theorem watched_openQuote (h : o.IsWatched strict) (ho : openQuote? o = some o') :
    o'.IsWatched strict := by
  unfold openQuote? at ho
  split_ifs at ho with hquote
  cases ho
  exact ⟨watched_push h.site trivial, h.cursor.skipQuoteMark (by simpa using hquote)⟩

theorem watched_openHeading (h : o.IsWatched strict) (ho : openHeading? o = some o') :
    o'.IsWatched strict := by
  obtain ⟨⟨level, length⟩, hsigns, rfl⟩ := Option.map_eq_some_iff.1 ho
  exact ⟨watched_push h.site trivial, h.cursor.skipContent (ne_backslash_of_numberSigns? hsigns)⟩

theorem watched_openFence (h : o.IsWatched strict) (ho : openFence? o = some o') :
    o'.IsWatched strict := by
  obtain ⟨⟨mark, length⟩, hfence, rfl⟩ := Option.map_eq_some_iff.1 ho
  exact ⟨watched_push h.site trivial, h.cursor.skipContent (ne_backslash_of_fence? hfence)⟩

/-- A strict watch lets no less-than sign through, with which raw HTML begins. -/
theorem watched_openHtml (h : o.IsWatched strict) (ho : openHtml? o = some o') :
    o'.IsWatched strict := by
  obtain ⟨kind, hkind, rfl⟩ := Option.map_eq_some_iff.1 ho
  refine ⟨watched_push h.site ?_, h.cursor⟩
  obtain ⟨t, ht, -⟩ := Option.bind_eq_some_iff.1 hkind
  obtain ⟨v, hv⟩ := isSafe_iff.1 h.content.isSafe
  rcases hc : o.cursor.content with _ | ⟨c, rest⟩ <;> rw [hc] at ht hv
  · cases ht
  · obtain ⟨w, hw, -⟩ := Option.bind_eq_some_iff.1 hv
    have hangle : c = '<' := by
      by_contra hne
      have hne' : ('<' == c) = false := by simpa using Ne.symm hne
      rw [show (("<" : String) : Text) = ['<'] from rfl, Text.strip?, hne'] at ht
      cases ht
    subst hangle
    cases strict
    · exact rfl
    · cases hw

theorem watched_openUnderlined (h : o.IsWatched strict) (ho : openUnderlined? o = some o') :
    o'.IsWatched strict := by
  unfold openUnderlined? at ho
  split at ho
  · next tried level hk _ =>
    dsimp only at ho
    rw [readAll_eq _ h.site.frame.tame.isSafe] at ho
    dsimp only at ho
    have hready := h.site.ready
    split at ho
    · cases ho
      exact ⟨⟨⟨trivial, h.site.frame.tame, fun _ => hready, h.site.frame.done⟩, hready,
        h.site.outer, h.site.left, h.site.defs⟩, h.cursor⟩
    · cases ho
      exact ⟨⟨⟨trivial, h.site.frame.tame, fun _ => hready, h.site.frame.done⟩, hready,
        h.site.outer, h.site.left, h.site.defs⟩, Cursor.isWatched_skipAll _⟩
  · cases ho

theorem watched_openRule (h : o.IsWatched strict) (ho : openRule? situation o = some o') :
    o'.IsWatched strict := by
  unfold openRule? at ho
  split_ifs at ho
  cases ho
  exact ⟨watched_push h.site trivial, Cursor.isWatched_skipAll _⟩

theorem openFootnote?_eq_none (h : o.IsWatched strict) : openFootnote? situation o = none := by
  unfold openFootnote?
  rw [footnoteLabel?_eq_none h.content.isSafe]
  split_ifs <;> rfl

theorem watched_openItem (h : o.IsWatched strict) (ho : openItem? situation o = some o') :
    o'.IsWatched strict := by
  unfold openItem? at ho
  split_ifs at ho
  obtain ⟨⟨marker, length⟩, hmarker, rfl⟩ := Option.map_eq_some_iff.1 ho
  refine ⟨watched_push ?_ trivial,
    (h.cursor.skipContent (ne_backslash_of_listMarker? hmarker)).skipAfterMarker⟩
  split_ifs
  · exact h.site
  · exact watched_push h.site trivial

theorem watched_openIndented (h : o.IsWatched strict) (ho : openIndented? situation o = some o') :
    o'.IsWatched strict := by
  unfold openIndented? at ho
  split_ifs at ho with hindent
  cases ho
  simp only [Bool.and_eq_true, decide_eq_true_eq] at hindent
  exact ⟨watched_push h.site trivial, h.cursor.skipColumns hindent.1.1⟩

theorem watched_openDetails (h : o.IsWatched strict) (ho : openDetails? o = some o') :
    o'.IsWatched strict := by
  unfold openDetails? at ho
  obtain ⟨length, hmarker, ho⟩ := Option.bind_eq_some_iff.1 ho
  have hcursor := h.cursor.skipContent (ne_backslash_of_detailsMarker? hmarker)
  have hterm : ∀ width tight, (Frame.Kind.description width tight none).IsWatched strict := by
    simp [Frame.Kind.IsWatched]
  dsimp only at ho
  split at ho
  · next frame outer hk houter =>
    cases ho
    have hall := h.site.outer
    rw [houter] at hall
    obtain ⟨hframe, hall⟩ := List.forall_mem_cons.1 hall
    exact ⟨watched_describe hframe hall h.site h.site.frame.tame.isSafe _ _, hcursor⟩
  · cases ho
    exact ⟨watched_push h.site (hterm _ _), hcursor⟩
  · cases ho
    exact ⟨watched_push h.site (hterm _ _), hcursor⟩
  · next text _ _ _ done _ hdone _ =>
    cases ho
    have hall := h.site.frame.done
    rw [hdone] at hall
    obtain ⟨htext, hrest⟩ := List.forall_mem_cons.1 hall
    exact ⟨watched_describe (h.site.frame.withDone hrest) h.site.outer h.site htext _ _, hcursor⟩
  · cases ho

theorem watched_openTable (h : o.IsWatched strict) (ho : openTable? o = some o') :
    o'.IsWatched strict := by
  unfold openTable? at ho
  dsimp only at ho
  split at ho
  · next hk =>
    split at ho
    · next t f outer ht houter =>
      cases ho
      obtain ⟨hbefore, hheader⟩ := isSafe_of_tableStart h.site.frame.tame.isSafe ht
      have hall := h.site.outer
      rw [houter] at hall
      obtain ⟨hf, hall⟩ := List.forall_mem_cons.1 hall
      refine ⟨⟨watched_new ⟨hheader, by simp⟩, isReady_nil, ?_, h.site.left, h.site.defs⟩,
        Cursor.isWatched_skipAll _⟩
      refine List.forall_mem_cons.2 ⟨watched_add hf fun c hc => ?_, hall⟩
      obtain ⟨text, htext, rfl⟩ := Option.map_eq_some_iff.1 hc
      exact hbefore text htext
    · split_ifs at ho
      cases ho
      exact ⟨⟨⟨trivial, h.site.frame.tame, fun _ => h.site.ready, h.site.frame.done⟩,
        h.site.ready, h.site.outer, h.site.left, h.site.defs⟩, h.cursor⟩
  · next aligns header rows hk =>
    split_ifs at ho
    cases ho
    have hkind := h.site.frame.kind
    rw [hk] at hkind
    refine ⟨⟨⟨⟨hkind.1, List.forall_mem_cons.2 ⟨fun cell hc => ?_, hkind.2⟩⟩,
      h.site.frame.tame, fun _ => h.site.ready, h.site.frame.done⟩, h.site.ready, h.site.outer,
      h.site.left, h.site.defs⟩, Cursor.isWatched_skipAll _⟩
    rcases List.mem_append.1 hc with hc | hc
    · exact isSafe_of_mem_rowCells h.content.isSafe cell (List.mem_of_mem_take hc)
    · rw [List.eq_of_mem_replicate hc]
      exact isTame_nil.isSafe
  · cases ho

theorem watched_openBlock (h : o.IsWatched strict) (ho : openBlock? situation o = some o') :
    o'.IsWatched strict := by
  unfold openBlock? at ho
  split_ifs at ho
  · simp only [Option.orElse_eq_orElse, Option.orElse_eq_or, Option.or_eq_some_iff] at ho
    rcases ho with ho | ⟨-, ho | ⟨-, ho | ⟨-, ho | ⟨-, ho | ⟨-, ho | ⟨-, ho | ⟨-, ho | ⟨-, ho | ⟨-, ho⟩⟩⟩⟩⟩⟩⟩⟩⟩
    · exact watched_openQuote h ho
    · exact watched_openHeading h ho
    · exact watched_openFence h ho
    · exact watched_openHtml h ho
    · exact watched_openUnderlined h ho
    · exact watched_openRule h ho
    · rw [openFootnote?_eq_none h] at ho
      cases ho
    · exact watched_openDetails h ho
    · exact watched_openItem h ho
    · exact watched_openTable h ho
  · exact watched_openIndented h ho

theorem watched_openBlocks : ∀ (n : Nat) (situation : Situation) {o : Opening},
    o.IsWatched strict → (openBlocks situation n o).IsWatched strict
  | 0, _, _, h => h
  | n + 1, situation, o, h => by
    rw [openBlocks]
    split_ifs
    · exact h
    split
    · exact h
    · next o' ho =>
      split_ifs
      · exact watched_openBlock h ho
      · exact watched_openBlocks n _ (watched_openBlock h ho)

end Openings

section Reading

variable {strict : Bool} {c c' : Cursor} {hasContent emptyLine : Bool}

theorem watched_continueIndented {width : Nat} (hc : c.IsWatched strict)
    (h : continueIndented width hasContent c = .continues c') : c'.IsWatched strict := by
  unfold continueIndented at h
  split_ifs at h with hwidth
  · cases h
    exact hc.skipColumns hwidth
  · cases h
    exact hc.skipContent (k := 0) (by simp)

theorem watched_continuation {kind : Frame.Kind} (hkind : kind.IsWatched strict)
    (hc : c.IsWatched strict) (h : kind.continuation hasContent emptyLine c = .continues c') :
    c'.IsWatched strict := by
  cases kind with
  | document | list | descriptions | rule =>
    cases h
    exact hc
  | quote =>
    simp only [Frame.Kind.continuation] at h
    split_ifs at h with hquote
    cases h
    simp only [Bool.and_eq_true, beq_iff_eq] at hquote
    exact hc.skipQuoteMark hquote.2
  | item | description | indented => exact watched_continueIndented hc h
  | footnote => exact hkind.elim
  | heading => cases h
  | fence =>
    simp only [Frame.Kind.continuation] at h
    split_ifs at h
    cases h
    exact hc.skipIndent
  | paragraph | html | table =>
    simp only [Frame.Kind.continuation] at h
    split_ifs at h
    cases h
    exact hc

theorem watched_continueFrames (emptyLine : Bool) : ∀ {frames : List Frame} (matched : List Frame)
    {c : Cursor}, (∀ f ∈ frames, f.IsWatched strict) → c.IsWatched strict →
      (continueFrames emptyLine matched c frames).cursor.IsWatched strict
  | [], _, _, _, hc => hc
  | f :: inner, matched, c, hframes, hc => by
    obtain ⟨hf, hinner⟩ := List.forall_mem_cons.1 hframes
    rw [continueFrames]
    split
    · next h => exact watched_continueFrames emptyLine _ hinner (watched_continuation hf.kind hc h)
    · exact hc
    · exact hc

/-- A line continues no heading, so that more lines may be put into every block that it is in. -/
theorem ready_continueFrames (emptyLine : Bool) : ∀ {frames matched : List Frame} {c : Cursor},
    (∀ f ∈ frames, f.IsWatched strict) → (∀ f ∈ matched, IsReady strict f.text) →
      ∀ f ∈ (continueFrames emptyLine matched c frames).matched, IsReady strict f.text
  | [], _, _, _, hmatched => hmatched
  | f :: inner, matched, c, hframes, hmatched => by
    obtain ⟨hf, hinner⟩ := List.forall_mem_cons.1 hframes
    rw [continueFrames]
    split
    · next h =>
      refine ready_continueFrames emptyLine hinner
        (List.forall_mem_cons.2 ⟨hf.ready fun level hk => ?_, hmatched⟩)
      rw [hk] at h
      cases h
    · exact hmatched
    · next h =>
      refine List.forall_mem_cons.2 ⟨hf.ready fun level hk => ?_, hmatched⟩
      rw [hk] at h
      cases h

theorem watched_ofFrames {frames : List Frame} (h : ∀ f ∈ frames, f.IsWatched strict) :
    (Reading.ofFrames frames {}).IsWatched strict := by
  cases frames with
  | nil => exact ⟨List.forall_mem_cons.2 ⟨watched_document, by simp [Reading.ofFrames]⟩, rfl⟩
  | cons f outer => exact ⟨h, rfl⟩

/-- A paragraph takes a line from a place further out. -/
theorem watched_addLazily {s : Site} (h : s.IsWatched strict) (hlazy : s.isLazy = true)
    {line : Text} (hline : IsTame strict line) :
    ∀ f ∈ addLazily (line ++ ['\n']) s.frames, f.IsWatched strict := by
  unfold Site.isLazy at hlazy
  obtain ⟨f, hf, hparagraph⟩ := (Option.any_eq_true _ _).1 hlazy
  have hframes : s.frames = f :: ((s.left.dropLast).reverse ++ s.frame :: s.outer) := by
    obtain ⟨ys, hys⟩ := List.getLast?_eq_some_iff.1 hf
    simp [Site.frames, hys]
  have hwatched := h.left f (List.mem_of_mem_getLast? hf)
  have hready : IsReady strict f.text := hwatched.ready fun level hk => by
    rw [isParagraph, hk] at hparagraph
    cases hparagraph
  rw [hframes, addLazily]
  refine List.forall_mem_cons.2 ⟨hwatched.addLine hready hline, fun g hg => ?_⟩
  rcases List.mem_append.1 hg with hg | hg
  · exact h.left g ((List.dropLast_sublist _).subset (List.mem_reverse.1 hg))
  · exact (List.forall_mem_cons.2 ⟨h.frame, h.outer⟩) g hg

/-- A tame line leaves all open blocks as the watch lets them through. -/
theorem watched_addLine {r : Reading} (hr : r.IsWatched strict) {line : Text}
    (hline : IsTame strict line) (number : Nat) : (r.addLine number line).IsWatched strict := by
  have hframes : ∀ f ∈ (r.frame :: r.outer).reverse, f.IsWatched strict := fun f hf =>
    hr.1 f (List.mem_reverse.1 hf)
  have hcursor := watched_continueFrames (c := ⟨line, 0, false⟩) line.isEmpty [] hframes
    ⟨hline, by simp⟩
  have hready := ready_continueFrames (c := ⟨line, 0, false⟩) line.isEmpty hframes
    (List.forall_mem_nil _)
  have happend := matched_append_left line.isEmpty (r.frame :: r.outer).reverse [] ⟨line, 0, false⟩
  unfold Reading.addLine
  dsimp only
  generalize continueFrames line.isEmpty [] ⟨line, 0, false⟩ (r.frame :: r.outer).reverse = m at *
  obtain ⟨matched, left, cursor, closed⟩ := m
  dsimp only at *
  rw [← List.nil_append (r.frame :: r.outer).reverse, ← List.reverse_nil, ← happend] at hframes
  split
  · exact hr
  next frame outer =>
  have hsite : (Site.mk frame outer left r.defs).IsWatched strict :=
    ⟨hframes frame (by simp), hready frame (by simp), fun f hf => hframes f (by simp [hf]),
      fun f hf => hframes f (by simp [hf]), hr.2⟩
  have hopened := watched_openBlocks (line.length + 2)
    ⟨number, isParagraph r.frame, left.isEmpty, 1⟩ (o := ⟨⟨frame, outer, left, r.defs⟩, cursor⟩)
    ⟨hsite, hcursor⟩
  generalize openBlocks _ _ _ = o at *
  have hnoted := watched_noteBlank hopened.site number o.cursor.isBlank
  split_ifs with hclosed hlazy
  · exact watched_pop hsite.reading
  · rw [hnoted.defs]
    exact watched_ofFrames (watched_addLazily hnoted (Bool.and_eq_true_iff.1 hlazy).1
      hopened.cursor.text)
  · exact watched_addRest (watched_settle hnoted) hopened.cursor

theorem watched_addLines : ∀ {lines : List Text} {r : Reading}, r.IsWatched strict →
    (∀ line ∈ lines, IsTame strict line) →
      ∀ number : Nat, (r.addLines number lines).IsWatched strict
  | [], _, hr, _, _ => hr
  | _ :: _, _, hr, h, number => by
    obtain ⟨hline, hlines⟩ := List.forall_mem_cons.1 h
    exact watched_addLines (watched_addLine hr hline number) hlines (number + 1)

theorem isTame_dropByteOrderMark {lines : List Text}
    (h : ∀ line ∈ lines, IsTame strict line) :
    ∀ line ∈ dropByteOrderMark lines, IsTame strict line := by
  unfold dropByteOrderMark
  split
  · next d line rest =>
    split_ifs with hmark
    · obtain ⟨hline, hrest⟩ := List.forall_mem_cons.1 h
      refine List.forall_mem_cons.2
        ⟨IsTame.of_append_right (s := [d]) (getLast?_ne_of_forall ?_) hline, hrest⟩
      intro e he
      rw [List.mem_singleton.1 he]
      rintro rfl
      exact absurd hmark (by decide)
    · exact h
  · exact h

/-- What the watch lets through defines nothing, and its blocks hold texts that are let through. -/
theorem watched_readBlocks {source : Text} (h : IsTame strict source) :
    AreWatched strict (IsSafe strict) (readBlocks source).1 ∧ (readBlocks source).2 = {} := by
  have hr : (({} : Reading).addLines 1 (dropByteOrderMark (sourceLines source))).IsWatched strict :=
    watched_addLines ⟨List.forall_mem_cons.2 ⟨watched_document, by simp⟩, rfl⟩
      (isTame_dropByteOrderMark h.of_mem_sourceLines) 1
  unfold readBlocks
  dsimp only
  generalize ({} : Reading).addLines 1 (dropByteOrderMark (sourceLines source)) = r at *
  split
  · exact ⟨trivial, hr.2⟩
  next document inner hframes =>
  have hall : ∀ f ∈ document :: inner, f.IsWatched strict := fun f hf =>
    hr.1 f (List.mem_reverse.1 (hframes ▸ hf))
  obtain ⟨hdocument, hinner⟩ := List.forall_mem_cons.1 hall
  obtain ⟨hchild, hdefs⟩ := watched_closeFrames false hinner
  rw [hr.2]
  exact ⟨watched_blocksOf (watched_add hdocument hchild).done, hdefs⟩

end Reading

end TidyMark.Markdown
