import Mathlib.Tactic.IntervalCases
import TidyMark.Proofs.Targets

/-!
# Separating collapsed references

The blank line between a collapsed reference and a bracket on a later line is put there whatever
the lines around it are. It leaves code alone where the two stand outside code and the bracket goes
on no list (`isClear`): the scanner then sees the same after the bracket, however the line goes on
(`Alike`), so that the lines of code are the same to the end (`codeLines_separate`). Inside a fence
the blank line becomes a line of code, and after a list it can make one out of a line that was none.
-/

namespace TidyMark.Reflink

open Text

/-- The texts of the lines that are code. -/
def codeLines (lines : List Line) : List Text :=
  (lines.filter (·.inCode)).map (·.text)

/-- The region after some pieces of a text. -/
def Region.after (region : Region) (pieces : List Text) : Region :=
  pieces.foldl (fun region piece => (region.step (lineText piece)).2) region

def endsCollapsed (piece : Text) : Bool :=
  startsWith "][]" piece.trimEnd.reverse

def beginsBracket (piece : Text) : Bool :=
  piece.trimStart.head? == some '['

/-- Whether no code changes when a blank line comes between two pieces that have only `blanks`
between them. Nothing changes at all if the blank line is there already. -/
def isClearBetween (region : Region) (piece : Text) (blanks : List Text) (second : Text) : Bool :=
  let (inCode, next) := region.step (lineText piece)
  piece.rtakeWhile isBlank ++ blanks.flatten ++ second.takeWhile isBlank == "\n\n".toList ||
    !inCode && !((next.after blanks).step (lineText second)).1 &&
      !(next.inList && (blanks.isEmpty || 0 < indentWidth (lineText second)))

/-- Whether `separate` changes no code where a collapsed reference ends `piece`. -/
def isClearAt (region : Region) (piece : Text) (rest : List Text) : Bool :=
  match rest.dropWhile allBlank with
  | [] => true
  | second :: _ =>
    !(endsCollapsed piece && beginsBracket second) ||
      isClearBetween region piece (rest.takeWhile allBlank) second

/-- Whether all collapsed references that `separate` parts from a bracket stand outside code, and
the bracket in no code and not in the list around the reference. -/
def isClear (region : Region) : List Text → Bool
  | [] => true
  | piece :: rest => isClearAt region piece rest && isClear (region.step (lineText piece)).2 rest

section Lines

theorem codeLines_mark_cons (region : Region) (piece : Text) (rest : List Text) :
    codeLines (Line.mark region (piece :: rest)) =
      (if (region.step (lineText piece)).1 then [lineText piece] else []) ++
        codeLines (Line.mark (region.step (lineText piece)).2 rest) := by
  simp only [codeLines, Line.mark, List.filter_cons]
  split_ifs <;> rfl

theorem lineText_append_newline {t : Text} (h : '\n' ∉ t) : lineText (t ++ ['\n']) = lineText t := by
  have ht : t.dropEndWhile (· == '\n') = t := by
    refine dropEndWhile_eq_self fun hs => ?_
    rw [beq_eq_false_iff_ne]
    exact fun he => h (he ▸ List.getLast_mem hs)
  rw [lineText, dropEndWhile_append_of_all _ (by simp), ← lineText]

theorem isBlank_newline : isBlank '\n' = true := by decide

end Lines

/-- Whether two beginnings of a line, each after its region, are the same to the scanner however
the line goes on. -/
structure Alike (region : Region) (w : Text) (region' : Region) (w' : Text) : Prop where
  no_newline : '\n' ∉ w
  no_newline' : '\n' ∉ w'
  nil_iff : w' = [] ↔ w = []
  step : ∀ u : Text, '\n' ∉ u →
    region'.step (lineText (w' ++ u)) = region.step (lineText (w ++ u))
  code : ∀ u : Text, '\n' ∉ u → (region.step (lineText (w ++ u))).1 = true →
    lineText (w' ++ u) = lineText (w ++ u)

section Alike

variable {region region' : Region} {w w' : Text}

theorem Alike.refl (region : Region) {w : Text} (hw : '\n' ∉ w) : Alike region w region w where
  no_newline := hw
  no_newline' := hw
  nil_iff := Iff.rfl
  step _ _ := rfl
  code _ _ _ := rfl

theorem Alike.append (h : Alike region w region' w') {u : Text} (hu : '\n' ∉ u) :
    Alike region (w ++ u) region' (w' ++ u) where
  no_newline hm := (List.mem_append.1 hm).elim h.no_newline hu
  no_newline' hm := (List.mem_append.1 hm).elim h.no_newline' hu
  nil_iff := by simp [h.nil_iff]
  step v hv := by
    have hn : '\n' ∉ u ++ v := fun hm => (List.mem_append.1 hm).elim hu hv
    simpa only [List.append_assoc] using h.step (u ++ v) hn
  code v hv hc := by
    have hn : '\n' ∉ u ++ v := fun hm => (List.mem_append.1 hm).elim hu hv
    simp only [List.append_assoc] at hc ⊢
    exact h.code (u ++ v) hn hc

/-- What ends both lines is marked alike, and the scanner goes on from the same region. -/
theorem Alike.mark_line (h : Alike region w region' w') (rest rest' : List Text)
    (hrest : codeLines (Line.mark (region.step (lineText w)).2 rest') =
      codeLines (Line.mark (region.step (lineText w)).2 rest)) :
    codeLines (Line.mark region' ((w' ++ ['\n']) :: rest')) =
      codeLines (Line.mark region ((w ++ ['\n']) :: rest)) := by
  have hstep := h.step [] List.not_mem_nil
  have hcode := h.code [] List.not_mem_nil
  rw [List.append_nil, List.append_nil] at hstep hcode
  rw [codeLines_mark_cons, codeLines_mark_cons, lineText_append_newline h.no_newline,
    lineText_append_newline h.no_newline', hstep, hrest]
  split_ifs with hc
  · rw [hcode hc]
  · rfl

theorem Alike.mark_last (h : Alike region w region' w') :
    codeLines (Line.mark region' (pieces w')) = codeLines (Line.mark region (pieces w)) := by
  have hstep := h.step [] List.not_mem_nil
  have hcode := h.code [] List.not_mem_nil
  rw [List.append_nil, List.append_nil] at hstep hcode
  by_cases hw : w = []
  · rw [h.nil_iff.2 hw, hw]
    rfl
  · rw [pieces_of_not_mem h.no_newline hw, pieces_of_not_mem h.no_newline' (mt h.nil_iff.1 hw),
      codeLines_mark_cons, codeLines_mark_cons, hstep]
    split_ifs with hc
    · rw [hcode hc]
    · rfl

end Alike

section Blanks

theorem isDigit_of_isBlank {c : Char} (h : isBlank c = true) : isDigit c = false := by
  have hc : c = Char.ofNat c.toNat := (Char.ofNat_toNat c).symm
  simp only [isBlank, Bool.or_eq_true, Bool.and_eq_true, beq_iff_eq, decide_eq_true_eq] at h
  generalize c.toNat = n at h hc
  subst hc
  rcases h with (((((((((h | h) | h) | h) | h) | h) | h) | h) | h) | h) | h
  · rw [h]
    decide
  · obtain ⟨h1, h2⟩ := h
    interval_cases n <;> decide
  · subst h
    decide
  · subst h
    decide
  · subst h
    decide
  · obtain ⟨h1, h2⟩ := h
    interval_cases n <;> decide
  all_goals
    subst h
    decide

theorem ne_of_isBlank {c d : Char} (hc : isBlank c = true) (hd : isBlank d = false) : c ≠ d := by
  rintro rfl
  rw [hc] at hd
  cases hd

variable {region : Region}

theorem fenceMark_of_allBlank {line : Text} (h : line.allBlank = true) :
    FenceMark.ofLine? line = none := by
  have hall : ∀ c ∈ line.dropWhile (· == ' '), isBlank c = true := fun c hc =>
    List.all_eq_true.1 h c ((List.dropWhile_suffix _).subset hc)
  unfold FenceMark.ofLine?
  rcases hline : line.dropWhile (· == ' ') with _ | ⟨c, rest⟩ <;> rw [hline] at hall
  · simp
  · have hc := hall c List.mem_cons_self
    have h1 : c ≠ '`' := ne_of_isBlank hc (by decide)
    have h2 : c ≠ '~' := ne_of_isBlank hc (by decide)
    simp [h1, h2]

theorem step_of_allBlank (hf : region.fence = none) (hi : region.indented = false) {line : Text}
    (h : line.allBlank = true) : region.step line = (false, { region with afterBlank := true }) := by
  have hcode : region.classify line = (false, none, false) := by
    rw [classify_eq_not_code, fenceMark_of_allBlank h]
    simp [hf, hi, h]
  simp [Region.step, hcode, h, hf, hi]

theorem step_of_not_code {line : Text} (h : (region.step line).1 = false) :
    (region.step line).2.fence = none ∧ (region.step line).2.indented = false ∧
      (region.step line).2.afterBlank = line.allBlank := by
  have hcode := classify_of_fst_eq_false (show (region.classify line).1 = false from h)
  simp [Region.step, hcode]

theorem allBlank_lineText {piece : Text} (h : piece.allBlank = true) :
    (lineText piece).allBlank = true := by
  have hpre : lineText piece <+: piece :=
    (dropEndWhile_initial (· == '\r') _).trans (dropEndWhile_initial (· == '\n') piece)
  exact List.all_eq_true.2 fun c hc => List.all_eq_true.1 h c (hpre.subset hc)

/-- Lines that show nothing are no code where none is open, and change nothing else. -/
theorem mark_blanks : ∀ {blanks : List Text}, (∀ b ∈ blanks, b.allBlank = true) →
    ∀ {region : Region}, region.fence = none → region.indented = false → ∀ rest : List Text,
      region.after blanks =
          (if blanks.isEmpty then region else { region with afterBlank := true }) ∧
        codeLines (Line.mark region (blanks ++ rest)) =
          codeLines (Line.mark (region.after blanks) rest)
  | [], _, _, _, _, rest => ⟨rfl, rfl⟩
  | b :: blanks, h, region, hf, hi, rest => by
    have hb := step_of_allBlank hf hi (allBlank_lineText (h b List.mem_cons_self))
    have hafter : region.after (b :: blanks) =
        ({ region with afterBlank := true } : Region).after blanks := by
      simp only [Region.after, List.foldl_cons, hb]
    obtain ⟨h1, h2⟩ := mark_blanks (fun b hm => h b (.tail _ hm))
      (show ({ region with afterBlank := true } : Region).fence = none from hf) hi rest
    rw [List.cons_append, codeLines_mark_cons, hb, hafter, h2, h1]
    refine ⟨?_, rfl⟩
    cases blanks <;> rfl

end Blanks

section Bracket

variable {region : Region} {s : Text}

theorem isListItem_bracket (hs : s.allBlank = true) (u : Text) :
    isListItem (s ++ '[' :: u) = false := by
  have hall : ∀ c ∈ s.dropWhile (· == ' '), isBlank c = true := fun c hc =>
    List.all_eq_true.1 hs c ((List.dropWhile_suffix _).subset hc)
  have hd : isDigit '[' = false := by decide
  simp only [isListItem]
  rw [dropWhile_append_cons (· == ' ') (by decide)]
  rcases hrest : s.dropWhile (· == ' ') with _ | ⟨c, rest⟩ <;> rw [hrest] at hall
  · simp [hd]
  · have hc := hall c List.mem_cons_self
    have h1 : c ≠ '-' := ne_of_isBlank hc (by decide)
    have h2 : c ≠ '+' := ne_of_isBlank hc (by decide)
    have h3 : c ≠ '*' := ne_of_isBlank hc (by decide)
    simp [h1, h2, h3, isDigit_of_isBlank hc]

/-- A line that begins with a bracket and is no code leaves nothing open but a list. -/
theorem step_bracket (hs : s.allBlank = true) {u : Text}
    (h : (region.step (s ++ '[' :: u)).1 = false) : region.step (s ++ '[' :: u) =
      (false, ⟨none, false, region.inList &&
        (!region.afterBlank || 0 < indentWidth (s ++ '[' :: u)), false⟩) := by
  have hcode := classify_of_fst_eq_false
    (show (region.classify (s ++ '[' :: u)).1 = false from h)
  simp [Region.step, hcode, allBlank_append_bracket, isListItem_bracket hs]

theorem step_bare_bracket (hf : region.fence = none) (hi : region.indented = false)
    (hb : region.afterBlank = true) (u : Text) :
    region.step ('[' :: u) = (false, ⟨none, false, false, false⟩) := by
  have hcode : (region.step ('[' :: u)).1 = false := by
    have hc : region.classify ('[' :: u) = (false, none, false) := by
      rw [classify_eq_not_code]
      have hind : indentWidth ('[' :: u) = 0 := rfl
      have hfence : FenceMark.ofLine? ('[' :: u) = none := by
        simp [FenceMark.ofLine?]
      simp [hf, hi, hind, hfence]
    simp [Region.step, hc]
  have h := step_bracket (s := []) rfl hcode
  have hind : indentWidth ('[' :: u) = 0 := rfl
  rw [List.nil_append] at h
  rw [h, hb, hind]
  simp

end Bracket

section Pieces

theorem lineText_append_bracket (s t : Text) :
    lineText (s ++ '[' :: t) = s ++ '[' :: lineText t := by
  rw [lineText, dropEndWhile_append_cons (by decide), dropEndWhile_append_cons (by decide), lineText]

theorem exists_lines (t : Text) : ∃ (lines : List Text) (s : Text), t = lines.flatten ++ s ∧
    '\n' ∉ s ∧ ∀ l ∈ lines, ∃ u : Text, l = u ++ ['\n'] ∧ '\n' ∉ u := by
  induction t with
  | nil => exact ⟨[], [], rfl, List.not_mem_nil, by simp⟩
  | cons c t ih =>
    obtain ⟨lines, s, rfl, hs, hl⟩ := ih
    by_cases hc : c = '\n'
    · refine ⟨['\n'] :: lines, s, by simp [hc], hs, List.forall_mem_cons.2 ⟨?_, hl⟩⟩
      exact ⟨[], rfl, List.not_mem_nil⟩
    · rcases lines with _ | ⟨l, lines⟩
      · exact ⟨[], c :: s, rfl, by simp [hs, Ne.symm hc], by simp⟩
      · obtain ⟨⟨u, rfl, hu⟩, hls⟩ := List.forall_mem_cons.1 hl
        refine ⟨(c :: u ++ ['\n']) :: lines, s, by simp, hs, List.forall_mem_cons.2 ⟨?_, hls⟩⟩
        exact ⟨c :: u, rfl, by simp [hu, Ne.symm hc]⟩

theorem pieces_flatten_append {lines : List Text}
    (h : ∀ l ∈ lines, ∃ u : Text, l = u ++ ['\n'] ∧ '\n' ∉ u) (t : Text) :
    pieces (lines.flatten ++ t) = lines ++ pieces t := by
  induction lines with
  | nil => rfl
  | cons l lines ih =>
    obtain ⟨⟨u, rfl, hu⟩, hls⟩ := List.forall_mem_cons.1 h
    rw [List.flatten_cons, List.append_assoc, List.append_assoc, List.singleton_append,
      pieces_append_newline hu, ih hls]
    rfl

theorem exists_pieces_cons (c : Char) {s : Text} (hs : '\n' ∉ s) (hc : c ≠ '\n') (t : Text) :
    ∃ u below, pieces (s ++ c :: t) = (s ++ c :: u) :: below := by
  induction s with
  | nil =>
    rw [List.nil_append, pieces, if_neg (by simpa using hc)]
    rcases pieces t with _ | ⟨l, ls⟩
    · exact ⟨[], [], rfl⟩
    · exact ⟨l, ls, rfl⟩
  | cons d s ih =>
    simp only [List.mem_cons, not_or] at hs
    obtain ⟨u, below, h⟩ := ih hs.2
    exact ⟨u, below, by rw [List.cons_append, pieces, h, if_neg (by simpa using Ne.symm hs.1)]; rfl⟩

theorem bracketOnLaterLine?_eq {t rest : Text} (h : bracketOnLaterLine? t = some rest) :
    ∃ ws : Text, t = ws ++ '[' :: rest ∧ ws.allBlank = true ∧ '\n' ∈ ws := by
  unfold bracketOnLaterLine? at h
  split at h
  · next r hr =>
    split_ifs at h with hn
    cases h
    refine ⟨t.takeWhile isBlank, ?_, List.all_takeWhile, by simpa using hn⟩
    rw [← hr, List.takeWhile_append_dropWhile]
  · cases h

end Pieces

section Separating

/-- What stands between a collapsed reference and a bracket on a later line: the end of the first
line, lines that show nothing, and the start of the last line. -/
structure Gap (ws u : Text) (blanks : List Text) (s : Text) : Prop where
  eq : ws = u ++ '\n' :: (blanks.flatten ++ s)
  first : '\n' ∉ u ∧ u.allBlank = true
  between : ∀ b ∈ blanks, (∃ v : Text, b = v ++ ['\n'] ∧ '\n' ∉ v) ∧ b.allBlank = true
  last : '\n' ∉ s ∧ s.allBlank = true

theorem exists_gap_of_newline {ws : Text} (hb : ws.allBlank = true) (hn : '\n' ∈ ws) :
    ∃ u blanks s, Gap ws u blanks s := by
  obtain ⟨lines, s, rfl, hs, hl⟩ := exists_lines ws
  rcases lines with _ | ⟨l, blanks⟩
  · exact absurd hn hs
  · obtain ⟨⟨u, rfl, hu⟩, hls⟩ := List.forall_mem_cons.1 hl
    simp only [allBlank, List.flatten_cons, List.all_append, Bool.and_eq_true,
      List.all_flatten] at hb
    refine ⟨u, blanks, s, by simp, ⟨hu, hb.1.1.1⟩, fun b hm => ⟨hls b hm, ?_⟩, hs, hb.2⟩
    exact List.all_eq_true.1 hb.1.2 b hm

variable {ws u s : Text} {blanks : List Text} (hg : Gap ws u blanks s)

include hg

theorem Gap.allBlank_first : allBlank (u ++ ['\n']) = true := by
  have h := hg.first.2
  simp only [allBlank] at h
  simp [allBlank, h, isBlank_newline]

theorem pieces_gap {w : Text} (hw : '\n' ∉ w) (t : Text) :
    pieces (w ++ (ws ++ t)) = (w ++ u ++ ['\n']) :: (blanks ++ pieces (s ++ t)) := by
  have hwu : '\n' ∉ w ++ u := fun h => (List.mem_append.1 h).elim hw hg.first.1
  have he : w ++ (ws ++ t) = (w ++ u) ++ '\n' :: (blanks.flatten ++ (s ++ t)) := by
    rw [hg.eq]
    simp
  rw [he, pieces_append_newline hwu, pieces_flatten_append fun b hm => (hg.between b hm).1]

omit hg in
theorem endsCollapsed_append (w : Text) {u : Text} (hu : u.allBlank = true) :
    endsCollapsed (w ++ [']', '[', ']'] ++ u) = true := by
  have htrim : (w ++ [']', '[', ']']).dropEndWhile isBlank = w ++ [']', '[', ']'] := by
    refine dropEndWhile_eq_self fun hs => ?_
    have hlast : (w ++ [']', '[', ']']).getLast hs = ']' := by simp
    rw [hlast]
    decide
  rw [endsCollapsed, Text.trimEnd, dropEndWhile_append_of_all _ (List.all_eq_true.1 hu), htrim]
  simp [startsWith, strip?]

omit hg in
theorem rtakeWhile_append (w : Text) {u : Text} (hu : u.allBlank = true) :
    (w ++ [']', '[', ']'] ++ u).rtakeWhile isBlank = u := by
  have hrev : ∀ c ∈ u.reverse, isBlank c = true := fun c hc =>
    List.all_eq_true.1 hu c (List.mem_reverse.1 hc)
  have hclosing : isBlank ']' = false := by decide
  rw [List.rtakeWhile, List.reverse_append, List.takeWhile_append_of_pos hrev]
  simp [hclosing]

theorem isClearBetween_of_gap {region : Region} {w v : Text} {below : List Text}
    (h : isClearAt region (w ++ [']', '[', ']'] ++ (u ++ ['\n']))
      (blanks ++ (s ++ '[' :: v) :: below) = true) :
    isClearBetween region (w ++ [']', '[', ']'] ++ (u ++ ['\n'])) blanks (s ++ '[' :: v) =
      true := by
  have hsecond : allBlank (s ++ '[' :: v) = false := allBlank_append_bracket s v
  have hbegins : beginsBracket (s ++ '[' :: v) = true := by
    have hbracket : isBlank '[' = false := by decide
    simp [beginsBracket, trimStart, List.dropWhile_append_of_pos (List.all_eq_true.1 hg.last.2),
      hbracket]
  rw [isClearAt, List.dropWhile_append_of_pos fun b hm => (hg.between b hm).2,
    List.takeWhile_append_of_pos fun b hm => (hg.between b hm).2,
    List.dropWhile_cons_of_neg (by simp [hsecond]),
    List.takeWhile_cons_of_neg (by simp [hsecond])] at h
  dsimp only at h
  rwa [endsCollapsed_append w hg.allBlank_first, hbegins, Bool.and_self, Bool.not_true,
    Bool.false_or, List.append_nil] at h

theorem eq_gap (w v : Text) : (w ++ [']', '[', ']'] ++ (u ++ ['\n'])).rtakeWhile isBlank ++
    blanks.flatten ++ (s ++ '[' :: v).takeWhile isBlank = ws := by
  have hbracket : isBlank '[' = false := by decide
  rw [rtakeWhile_append w hg.allBlank_first, List.takeWhile_append_of_pos (List.all_eq_true.1 hg.last.2), hg.eq]
  simp [hbracket]

end Separating

section SameCode

/-- Whether the lines of code are the same when a line goes on with one text or with the other, as
long as the first one is clear. -/
def SameCode (t t' : Text) : Prop :=
  ∀ (region : Region) (w : Text) (region' : Region) (w' : Text), Alike region w region' w' →
    isClear region (pieces (w ++ t)) = true →
      codeLines (Line.mark region' (pieces (w' ++ t'))) =
        codeLines (Line.mark region (pieces (w ++ t)))

theorem isClear_append {region : Region} {ps qs : List Text}
    (h : isClear region (ps ++ qs) = true) : isClear (region.after ps) qs = true := by
  induction ps generalizing region with
  | nil => exact h
  | cons p ps ih =>
    rw [List.cons_append, isClear, Bool.and_eq_true] at h
    exact ih h.2

theorem sameCode_cons {t t' : Text} (h : SameCode t t') (c : Char) :
    SameCode (c :: t) (c :: t') := by
  intro region w region' w' ha hclear
  by_cases hc : c = '\n'
  · subst hc
    rw [pieces_append_newline ha.no_newline] at hclear ⊢
    rw [pieces_append_newline ha.no_newline']
    rw [isClear, Bool.and_eq_true, lineText_append_newline ha.no_newline] at hclear
    exact ha.mark_line _ _ (h _ [] _ [] (.refl _ List.not_mem_nil) hclear.2)
  · have hn : '\n' ∉ [c] := by simpa using Ne.symm hc
    have hrest := h _ _ _ _ (ha.append hn)
    simp only [List.append_assoc, List.singleton_append] at hrest
    exact hrest hclear

theorem sameCode_append {t t' : Text} (h : SameCode t t') : ∀ u : Text,
    SameCode (u ++ t) (u ++ t')
  | [] => h
  | c :: u => sameCode_cons (sameCode_append h u) c

/-- Behind a bracket that goes on no list, the scanner sees the same as behind one at the start of a
line after a blank one. -/
theorem alike_bracket {region : Region} (hf : region.fence = none) (hi : region.indented = false)
    (ha : region.afterBlank = false) {blanks : List Text} (hb : ∀ b ∈ blanks, b.allBlank = true)
    {s v : Text} (hn : '\n' ∉ s) (hs : s.allBlank = true)
    (hcode : ((region.after blanks).step (s ++ '[' :: v)).1 = false)
    (hlist : (region.inList && (blanks.isEmpty || 0 < indentWidth (s ++ '[' :: v))) = false) :
    Alike (region.after blanks) (s ++ ['[']) { region with afterBlank := true } ['['] := by
  have hafter := (mark_blanks hb hf hi []).1
  have hstep : ∀ u : Text, (region.after blanks).step (lineText (s ++ ['['] ++ u)) =
      (false, ⟨none, false, false, false⟩) := by
    intro u
    rw [List.append_assoc, List.singleton_append, lineText_append_bracket]
    have hsame : (region.after blanks).step (s ++ '[' :: lineText u) =
        (region.after blanks).step (s ++ '[' :: v) :=
      step_eq_of_sameStart (.inr ⟨s, v, lineText u, rfl, rfl⟩) hcode
    rw [hsame, step_bracket hs hcode, hafter]
    cases blanks with
    | nil => simpa [ha] using hlist
    | cons b blanks => simpa using hlist
  refine ⟨by simp [hn], by decide, by simp, fun u _ => ?_, fun u _ hc => ?_⟩
  · have hbare : lineText (['['] ++ u) = '[' :: lineText u := lineText_append_bracket [] u
    rw [hstep u, hbare]
    exact step_bare_bracket (show ({ region with afterBlank := true } : Region).fence = none from hf)
      hi rfl (lineText u)
  · rw [hstep u] at hc
    cases hc

/-- The scanner does not see what stands behind the last bracket of a line that is no code. -/
theorem step_collapsed {region r : Region} {w u : Text}
    (h : region.step (lineText (w ++ [']', '[', ']'] ++ u)) = (false, r)) :
    region.step (lineText (w ++ [']', '[', ']'])) = (false, r) ∧ r.fence = none ∧
      r.indented = false ∧ r.afterBlank = false := by
  have hline : ∀ y : Text, lineText (w ++ [']', '[', ']'] ++ y) =
      w ++ [']'] ++ '[' :: lineText (']' :: y) := by
    intro y
    rw [← lineText_append_bracket]
    simp
  have hline' := hline []
  rw [List.append_nil] at hline'
  rw [hline] at h
  have hcode : (region.step (w ++ [']'] ++ '[' :: lineText (']' :: u))).1 = false := by rw [h]
  obtain ⟨hf, hi, hb⟩ := step_of_not_code hcode
  rw [allBlank_append_bracket] at hb
  rw [h] at hf hi hb
  refine ⟨?_, hf, hi, hb⟩
  rw [hline', ← h]
  exact step_eq_of_sameStart (.inr ⟨_, _, _, rfl, rfl⟩) hcode

theorem sameCode_gap {ws u s : Text} {blanks : List Text} (hg : Gap ws u blanks s) {t t' : Text}
    (h : SameCode t t') : SameCode ([']', '[', ']'] ++ (ws ++ '[' :: t))
      ([']', '[', ']'] ++ (['\n', '\n'] ++ '[' :: t')) := by
  intro region w region' w' ha hclear
  have ha' := ha.append (show '\n' ∉ [']', '[', ']'] by decide)
  rw [← List.append_assoc w] at hclear ⊢
  rw [← List.append_assoc w']
  obtain ⟨v, below, hsecond⟩ := exists_pieces_cons '[' hg.last.1 (by decide) t
  have hparts := hclear
  rw [pieces_gap hg ha'.no_newline, isClear, Bool.and_eq_true, List.append_assoc _ u] at hparts
  have hbetween := isClearBetween_of_gap hg (by rw [← hsecond]; exact hparts.1)
  rcases hr : region.step (lineText (w ++ [']', '[', ']'] ++ (u ++ ['\n']))) with ⟨inCode, r⟩
  simp only [isClearBetween, eq_gap hg, hr, Bool.or_eq_true, Bool.and_eq_true, Bool.not_eq_true',
    beq_iff_eq, lineText_append_bracket] at hbetween
  rcases hbetween with hws | ⟨⟨rfl, hcode⟩, hlist⟩
  · subst hws
    exact sameCode_append h ['\n', '\n', '['] _ _ _ _ ha' hclear
  · obtain ⟨hfirst, hf, hi, hb⟩ := step_collapsed hr
    have hstep := ha'.step [] List.not_mem_nil
    rw [List.append_nil, List.append_nil, hfirst] at hstep
    have hblanks : ∀ b ∈ blanks, b.allBlank = true := fun b hm => (hg.between b hm).2
    have halike := alike_bracket hf hi hb hblanks hg.last.1 hg.last.2 hcode hlist
    have hclear' : isClear (r.after blanks) (pieces (s ++ ['['] ++ t)) = true := by
      rw [hr] at hparts
      rw [List.append_assoc]
      exact isClear_append hparts.2
    have hrest := h _ _ _ _ halike hclear'
    obtain ⟨hafter, hmark⟩ := mark_blanks (show ∀ b ∈ [['\n']], Text.allBlank b = true by decide)
      hf hi (pieces ('[' :: t'))
    have hpieces : pieces (w' ++ [']', '[', ']'] ++ (['\n', '\n'] ++ '[' :: t')) =
        (w' ++ [']', '[', ']'] ++ ['\n']) :: ([['\n']] ++ pieces ('[' :: t')) :=
      pieces_append_newline ha'.no_newline' _
    rw [hpieces, codeLines_mark_cons, lineText_append_newline ha'.no_newline', hstep, hmark, hafter,
      pieces_gap hg ha'.no_newline, codeLines_mark_cons, List.append_assoc _ u, hr,
      (mark_blanks hblanks hf hi _).2]
    rw [List.append_assoc] at hrest
    exact congrArg ([] ++ ·) hrest

theorem sameCode_separate (t : Text) : SameCode t (separate t) := by
  fun_induction separate t with
  | case1 rest rest' h ih =>
    obtain ⟨ws, rfl, hb, hn⟩ := bracketOnLaterLine?_eq h
    obtain ⟨u, blanks, s, hg⟩ := exists_gap_of_newline hb hn
    exact sameCode_gap hg ih
  | case2 rest h ih => exact sameCode_cons ih ']'
  | case3 c rest _ ih => exact sameCode_cons ih c
  | case4 =>
    intro region w region' w' ha _
    rw [List.append_nil, List.append_nil]
    exact ha.mark_last

/-- What `separate` does to a text that is clear leaves its lines of code as they are. -/
theorem codeLines_separate {t : Text} (h : isClear {} (pieces t) = true) :
    codeLines (Line.ofSource (separate t)) = codeLines (Line.ofSource t) :=
  sameCode_separate t {} [] {} [] (.refl _ List.not_mem_nil) h

end SameCode

section Expanding

/-- References are rewritten outside code only. -/
theorem codeLines_expandLenient {table : Table} (ht : table.Avoids '\n') (source : Text) :
    codeLines (Line.ofSource (table.expandLenient source)) = codeLines (Line.ofSource source) := by
  rw [ofSource_expandLenient ht, codeLines, codeLines, List.filter_map, List.map_map]
  refine List.map_congr_left fun line hm => ?_
  have hcode : line.inCode = true := by simpa [Line.withText] using (List.mem_filter.1 hm).2
  exact expandedText_of_fixed (.inl hcode)

theorem eq_separate_of_expand {options : Options} {source out : Text}
    (h : expand options source = .ok out) :
    out = separate ((Table.forSource options source).expandLenient source) := by
  simp only [expand, Table.expand] at h
  split at h
  · cases h
  · cases h
    rfl

theorem expand_of_not_strict {options : Options} (h : options.strict = false) (source : Text) :
    expand options source =
      .ok (separate ((Table.forSource options source).expandLenient source)) := by
  simp only [expand, Table.expand, h]
  rfl

/-- With targets that have no line feed, expansion leaves the lines of code as they are if all
collapsed references that it parts from a bracket are clear. -/
theorem codeLines_expand {options : Options} {source out : Text}
    (hopt : ∀ e ∈ options.reflinks, '\n' ∉ e.2) (h : expand options source = .ok out)
    (hclear : isClear {} (pieces ((Table.forSource options source).expandLenient source)) = true) :
    codeLines (Line.ofSource out) = codeLines (Line.ofSource source) := by
  rw [eq_separate_of_expand h, codeLines_separate hclear,
    codeLines_expandLenient (avoids_forSource hopt source)]

theorem codeLines_expand_fence_before_collapsed :
    codeLines (Line.ofSource "```\n[a][]\n```\n[a][]\n\n[b]\n") =
      codeLines (Line.ofSource "```\n[a][]\n```\n[a][]\n[b]\n") :=
  @codeLines_expand {} _ _ (fun _ he => nomatch he)
    ((expand_of_not_strict rfl _).trans (congrArg Except.ok (by decide +kernel)))
    (by decide +kernel)

/-- The blank line comes between lines of a fence as well. -/
theorem not_forall_codeLines_expand :
    ¬ ∀ (options : Options) (source out : Text), (∀ e ∈ options.reflinks, '\n' ∉ e.2) →
      expand options source = .ok out →
        codeLines (Line.ofSource out) = codeLines (Line.ofSource source) := by
  intro h
  have hfence := h {} "```\n[a][]\n[b]\n```\n" _ (fun _ he => nomatch he)
    (expand_of_not_strict rfl _)
  revert hfence
  decide +kernel

end Expanding

end TidyMark.Reflink
