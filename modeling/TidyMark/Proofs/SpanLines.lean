import TidyMark.Proofs.PlainLine

/-!
# Code spans over several lines

A code span may go on over the lines of a paragraph. It is read as one code span
(`codeContents_spanDocument`), but each of its lines has at most one backtick, which opens nothing
there (`codeSpans_of_mem_spanLines`). So the expander takes none of them for code, and it keeps the
content of the span only where there is nothing to expand (`codeContents_expandLenient_iff`).
-/

namespace TidyMark

open Text

section Spans

/-- Puts a backtick behind the last of some lines. -/
def closeSpan (line : Text) : List Text → List Text
  | [] => [line ++ ['`']]
  | next :: more => line :: closeSpan next more

/-- The lines of a code span whose content are these lines. -/
def spanLines : List Text → List Text
  | [] => []
  | line :: more => closeSpan ('`' :: line) more

/-- A line that can be any line of a code span: its first character is that of a word and no digit,
so that it begins no block, and it has no backtick. -/
structure IsSpanLine (line : Text) : Prop where
  head : ∃ c rest, line = c :: rest ∧ isLetter c = true ∧ c.isDigit = false
  no_tick : '`' ∉ line
  clean : Markdown.IsClean line

/-- A paragraph of one code span and, below it, lines that define labels. -/
def spanDocument (lines : List Text) (defined : List (Text × Text)) : Text :=
  Markdown.linesText (spanLines lines ++ [] :: Markdown.definitionLines defined)

theorem exists_of_mem_closeSpan : ∀ {more : List Text} {line l : Text}, l ∈ closeSpan line more →
    ∃ m ∈ line :: more, l = m ∨ l = m ++ ['`']
  | [], line, l, h => ⟨line, List.mem_cons_self, .inr (List.mem_singleton.1 h)⟩
  | next :: more, line, l, h => by
    rcases List.mem_cons.1 h with rfl | h
    · exact ⟨l, List.mem_cons_self, .inl rfl⟩
    · obtain ⟨m, hm, hl⟩ := exists_of_mem_closeSpan h
      exact ⟨m, List.mem_cons_of_mem _ hm, hl⟩

theorem isClean_of_mem_spanLines {lines : List Text} {l : Text}
    (h : ∀ line ∈ lines, IsSpanLine line) (hl : l ∈ spanLines lines) : Markdown.IsClean l := by
  have htick : Markdown.IsClean ['`'] := fun c hc => by
    rw [List.mem_singleton.1 hc]
    decide
  rcases lines with _ | ⟨line, more⟩
  · cases hl
  · obtain ⟨hline, hmore⟩ := List.forall_mem_cons.1 h
    obtain ⟨m, hm, he⟩ := exists_of_mem_closeSpan hl
    have hclean : Markdown.IsClean m := by
      rcases List.mem_cons.1 hm with rfl | hm
      · exact fun c hc => (List.mem_cons.1 hc).elim
          (fun h => htick c (List.mem_singleton.2 h)) (hline.clean c)
      · exact (hmore m hm).clean
    rcases he with rfl | rfl
    · exact hclean
    · exact fun c hc => (List.mem_append.1 hc).elim (hclean c) (htick c)

theorem linesText_closeSpan : ∀ (line : Text) (more : List Text),
    Markdown.linesText (closeSpan line more) = join "\n" (line :: more) ++ ['`', '\n']
  | line, [] => by simp [closeSpan, Markdown.linesText, join]
  | line, next :: more => by
    rw [closeSpan, Markdown.linesText_cons, linesText_closeSpan next more, join]
    simp

theorem linesText_spanLines {lines : List Text} (hne : lines ≠ []) :
    Markdown.linesText (spanLines lines) = '`' :: (join "\n" lines ++ ['`', '\n']) := by
  obtain ⟨line, more, rfl⟩ := List.exists_cons_of_ne_nil hne
  rw [spanLines, linesText_closeSpan]
  rcases more with _ | ⟨next, more⟩ <;> simp [join]

end Spans

section Content

/-- The content of a token that is code. -/
def Token.code? (t : Token) : Option Text :=
  match t.kind with
  | .leaf .fence | .leaf .code => some t.content
  | _ => none

/-- What is code in a stream of tokens and in the inline content of its blocks, in order. -/
def Token.codeContents (ts : List Token) : List Text :=
  (ts.flatMap fun t => t :: t.children).filterMap Token.code?

/-- What a text is as the content of a code span, unless there is a space at its ends. -/
def onOneLine (t : Text) : Text :=
  t.map fun c => if c == '\n' then ' ' else c

end Content

namespace Markdown

section Inlines

theorem tickRuns_append : ∀ {t : Text}, '`' ∉ t → tickRuns 0 (t ++ ['`']) = [(1, 1)]
  | [], _ => rfl
  | c :: t, h => by
    simp only [List.mem_cons, not_or] at h
    rw [List.cons_append, tickRuns, if_neg (by simpa using Ne.symm h.1), if_pos (by rfl),
      tickRuns_append h.2]

theorem codeContent_cons {c : Char} (hc : isBlank c = false) (t : Text) :
    codeContent (c :: t) = onOneLine (c :: t) := by
  have hspace : c ≠ ' ' := ne_of_not_isBlank hc (by decide)
  have hnewline : c ≠ '\n' := ne_of_not_isBlank hc (by decide)
  have hhead : ((onOneLine (c :: t)).head? == some ' ') = false := by
    simp [onOneLine, hspace, hnewline]
  have hcode : codeContent (c :: t) =
      if (onOneLine (c :: t)).any (· != ' ') && (onOneLine (c :: t)).head? == some ' ' &&
          (onOneLine (c :: t)).getLast? == some ' ' then (onOneLine (c :: t)).tail.dropLast
      else onOneLine (c :: t) := rfl
  rw [hcode, hhead, Bool.and_false, Bool.false_and, if_neg Bool.false_ne_true]

/-- What stands between two backticks is a code span. -/
theorem ofText_ticks (defs : Definitions) {c : Char} {t : Text} (hc : isBlank c = false)
    (ht : '`' ∉ c :: t) : Inline.ofText defs ('`' :: (c :: t ++ ['`', '\n'])) =
      [.code (onOneLine (c :: t))] := by
  have htrim : trimSpaceEnd ('`' :: (c :: t ++ ['`', '\n'])) = '`' :: (c :: t ++ ['`']) := by
    have htext : '`' :: (c :: t ++ ['`', '\n']) = ('`' :: c :: t ++ ['`']) ++ ['\n'] := by simp
    have hn : ∀ d ∈ ['\n'], isSpace d = true := List.forall_mem_singleton.2 rfl
    rw [htext, trimSpaceEnd, Reflink.dropEndWhile_append_of_all _ hn]
    refine Reflink.dropEndWhile_eq_self fun hs => ?_
    rw [List.getLast_concat]
    rfl
  have hne : c ≠ '`' := fun h => ht (h ▸ List.mem_cons_self)
  have hstep : ({} : Reader).step defs [] '`' (c :: t ++ ['`']) =
      (1 + (c :: t).length + 1,
        { pieces := [.node (.code (codeContent (c :: t)))], ticks := [(1, 1)] }) := by
    have hruns : tickRuns 0 (c :: (t ++ ['`'])) = [(1, 1)] := tickRuns_append ht
    have hticks : readTicks {} 1 (c :: t ++ ['`']) = (1 + (c :: t).length + 1,
        { pieces := [.node (.code (codeContent (c :: t)))], ticks := [(1, 1)] }) := by
      have htake : (c :: (t ++ ['`'])).take (t.length + 1) = c :: t := by simp
      simp [readTicks, maxTicks, Reader.opensNothing, hruns, Reader.add, htake]
    unfold Reader.step
    simpa [isSpecial, hne] using hticks
  have hskip := read_skip defs
    { pieces := [.node (.code (codeContent (c :: t)))], ticks := [(1, 1)] } ['`']
    (c :: t ++ ['`']) []
  have hlength : (c :: t ++ ['`']).length = 1 + (c :: t).length + 1 - 1 := by
    simp only [List.length_append, List.length_cons, List.length_nil]
    omega
  rw [List.append_nil, hlength, Reader.read] at hskip
  rw [Inline.ofText, htrim, Reader.read, hstep]
  dsimp only
  rw [hskip, codeContent_cons hc]
  rfl

end Inlines

section Blocks

theorem beginsNone_of_isSpanLine {line : Text} (h : IsSpanLine line) (interrupts : Bool)
    (rest : Text) : BeginsNone interrupts (line ++ rest) := by
  obtain ⟨c, t, rfl, hletter, hdigit⟩ := h.head
  have hne : ∀ d, isLetter d = false → c ≠ d := fun d hd => ne_of_isLetter hletter hd
  have hmarks : c ∉ ">#<:~*-+_=|\\".toList := by
    intro hc
    have hall : (">#<:~*-+_=|\\".toList).all (fun d => !isLetter d) = true := by decide
    have := List.all_eq_true.1 hall c hc
    simp [hletter] at this
  refine beginsNone_cons (isBlank_of_isLetter hletter) hmarks hdigit ?_ ?_ interrupts
  · simp [fence?, hne '`' (by decide), hne '~' (by decide)]
  · simp [footnoteLabel?, hne '[' (by decide)]

theorem beginsParagraph_of_isSpanLine {line : Text} (h : IsSpanLine line) (rest : Text) :
    BeginsParagraph ('`' :: (line ++ rest)) where
  none := by
    obtain ⟨c, t, rfl, hletter, -⟩ := h.head
    have hc : c ≠ '`' := ne_of_isLetter hletter (by decide)
    refine beginsNone_cons (by decide) (by decide) (by decide) ?_ rfl false
    simp [fence?, runLength, hc]
  head := by
    rintro c ⟨⟩
    decide

theorem beginsNone_of_mem_closeSpan {line l : Text} {more : List Text}
    (h : ∀ m ∈ line :: more, IsSpanLine m) (hl : l ∈ closeSpan line more) (interrupts : Bool) :
    BeginsNone interrupts l := by
  obtain ⟨m, hm, rfl | rfl⟩ := exists_of_mem_closeSpan hl
  · simpa using beginsNone_of_isSpanLine (h l hm) interrupts []
  · exact beginsNone_of_isSpanLine (h m hm) interrupts ['`']

theorem not_mem_join {c : Char} (hc : c ≠ '\n') : ∀ {lines : List Text}, (∀ l ∈ lines, c ∉ l) →
    c ∉ join "\n" lines
  | [], _ => by simp [join]
  | [l], h => h l List.mem_cons_self
  | l :: m :: lines, h => by
    obtain ⟨hl, hlines⟩ := List.forall_mem_cons.1 h
    have ih : c ∉ join ['\n'] (m :: lines) := not_mem_join hc hlines
    simp [join, hl, hc, ih]

theorem exists_join_eq_cons {line : Text} (h : IsSpanLine line) (more : List Text) :
    ∃ c t, join "\n" (line :: more) = c :: t ∧ isBlank c = false := by
  obtain ⟨c, t, rfl, hletter, -⟩ := h.head
  refine ⟨c, ?_⟩
  rcases more with _ | ⟨next, more⟩
  · exact ⟨t, rfl, isBlank_of_isLetter hletter⟩
  · exact ⟨_, rfl, isBlank_of_isLetter hletter⟩

variable {lines : List Text} {defined : List (Text × Text)} (hne : lines ≠ [])
  (hlines : ∀ line ∈ lines, IsSpanLine line) (hdefined : ∀ d ∈ defined, Defines d.1 d.2)

include hne hlines hdefined

/-- All that is code in the document of a code span is what stands between its backticks, on one
line. -/
theorem codeContents_spanDocument : Token.codeContents (tokenize (spanDocument lines defined)) =
    [onOneLine (join "\n" lines)] := by
  obtain ⟨line, more, rfl⟩ := List.exists_cons_of_ne_nil hne
  obtain ⟨hline, hmore⟩ := List.forall_mem_cons.1 hlines
  obtain ⟨rest, others, hspan, hothers⟩ : ∃ rest others, spanLines (line :: more) =
      ('`' :: (line ++ rest)) :: others ∧ ∀ l ∈ others, BeginsNone true l := by
    rcases more with _ | ⟨next, more⟩
    · exact ⟨['`'], [], rfl, by simp⟩
    · exact ⟨[], closeSpan next more, by simp [spanLines, closeSpan], fun l hl =>
        beginsNone_of_mem_closeSpan hmore hl true⟩
  have hclean : ∀ l ∈ spanLines (line :: more), IsClean l :=
    fun l => isClean_of_mem_spanLines hlines
  have htext := linesText_spanLines hne
  rw [hspan] at hclean htext
  obtain ⟨defs, hblocks⟩ := readBlocks_paragraph (beginsParagraph_of_isSpanLine hline rest)
    hothers hclean hdefined
  have hcode : Inline.ofText defs (linesText (('`' :: (line ++ rest)) :: others)) =
      [.code (onOneLine (join "\n" (line :: more)))] := by
    have hticks : '`' ∉ join "\n" (line :: more) :=
      not_mem_join (by decide) fun l hl => (hlines l hl).no_tick
    obtain ⟨c, t, hjoin, hc⟩ := exists_join_eq_cons hline more
    rw [htext]
    rw [hjoin] at hticks ⊢
    exact ofText_ticks defs hc hticks
  have hdocument : Document.ofText (spanDocument (line :: more) defined) =
      ⟨[.paragraph [.code (onOneLine (join "\n" (line :: more)))]], []⟩ := by
    rw [spanDocument, Document.ofText, hspan, hblocks]
    simp only [mapBlocks, Block.map, hcode]
    rfl
  rw [tokenize, hdocument]
  rfl

end Blocks

end Markdown

namespace Reflink

section Expanding

variable {table : Table}

theorem Diverges.onOneLine_ne {t t' : Text} (h : Diverges t t') : onOneLine t ≠ onOneLine t' := by
  obtain ⟨p, s, s', rfl, rfl, hs⟩ := h
  intro heq
  have hmap : onOneLine s = '(' :: onOneLine s' := by
    simpa [onOneLine] using heq
  rcases s with _ | ⟨c, s⟩
  · cases hmap
  · have hc : (if c == '\n' then ' ' else c) = '(' := (List.cons.inj hmap).1
    split_ifs at hc with hn
    · cases hc
    · exact hs (by rw [hc]; rfl)

theorem isSpanLine_of_relinks (ht : table.IsPlain) {place : Nat} {line line' : Text}
    (h : IsSpanLine line) (hr : table.Relinks [] place line line') : IsSpanLine line' where
  head := by
    obtain ⟨c, rest, rfl, hletter, hdigit⟩ := h.head
    obtain ⟨rest', rfl, -⟩ := exists_cons_of_relinks (ne_of_isLetter hletter (by decide))
      (ne_of_isLetter hletter (by decide)) hr
    exact ⟨c, rest', rfl, hletter, hdigit⟩
  no_tick := not_mem_of_relinks ht.tick (by decide) hr h.no_tick
  clean := by
    obtain ⟨h1, h2, h3⟩ := Markdown.isClean_iff.1 h.clean
    exact Markdown.isClean_iff.2 ⟨not_mem_of_relinks ht.newline (by decide) hr h1,
      not_mem_of_relinks ht.carriage (by decide) hr h2,
      not_mem_of_relinks ht.null (by decide) hr h3⟩

/-- The lines of a code span are expanded to lines of a code span. -/
theorem exists_closeSpan {f : Text → Text} (hf : ∀ line, table.Relinks [] 0 line (f line)) :
    ∀ (line : Text) (more : List Text), ∃ line' more', (closeSpan line more).map f =
      closeSpan line' more' ∧ table.Relinks [] 0 line line' ∧
        List.Forall₂ (table.Relinks [] 0) more more'
  | line, [] => by
    obtain ⟨line', hline, hr⟩ := exists_concat_of_relinks (hf (line ++ ['`'])) rfl
    exact ⟨line', [], by simp [closeSpan, hline], hr, .nil⟩
  | line, next :: more => by
    obtain ⟨next', more', hmap, hnext, hmore⟩ := exists_closeSpan hf next more
    exact ⟨f line, next' :: more', by simp [closeSpan, hmap], hf line, .cons hnext hmore⟩

theorem exists_spanLines (ht : table.IsPlain) {f : Text → Text}
    (hf : ∀ line, table.Relinks [] 0 line (f line)) {lines : List Text}
    (h : ∀ line ∈ lines, IsSpanLine line) : ∃ lines', (spanLines lines).map f = spanLines lines' ∧
      lines'.length = lines.length ∧ ∀ line ∈ lines', IsSpanLine line := by
  rcases lines with _ | ⟨line, more⟩
  · exact ⟨[], rfl, rfl, h⟩
  · obtain ⟨first, more', hmap, hfirst, hmore⟩ := exists_closeSpan hf ('`' :: line) more
    obtain ⟨line', rfl, hline⟩ := exists_cons_of_relinks (by decide) (by decide) hfirst
    obtain ⟨h0, hm⟩ := List.forall_mem_cons.1 h
    refine ⟨line' :: more', hmap, by simp [hmore.length_eq], ?_⟩
    rw [List.forall_mem_cons]
    refine ⟨isSpanLine_of_relinks ht h0 hline, ?_⟩
    clear hmap h
    induction hmore with
    | nil => simp
    | cons hr _ ih =>
      rw [List.forall_mem_cons] at hm ⊢
      exact ⟨isSpanLine_of_relinks ht hm.1 hr, ih hm.2⟩

end Expanding

section Scanning

theorem codeSpansFrom_of_no_tick : ∀ {t : Text}, '`' ∉ t → ∀ place, codeSpansFrom place t = []
  | [], _, place => codeSpansFrom_nil place
  | c :: t, h, place => by
    simp only [List.mem_cons, not_or] at h
    rw [codeSpansFrom_cons (Ne.symm h.1), codeSpansFrom_of_no_tick h.2]

/-- A backtick that no other one follows opens nothing. -/
theorem codeSpansFrom_tick {t : Text} (h : '`' ∉ t) (place : Nat) :
    codeSpansFrom place ('`' :: t) = [] := by
  have hwidths : widths t = [] := by
    have := widths_append_of_not_mem h []
    rwa [List.append_nil] at this
  have hstart : NoTick t := fun hh => h (List.mem_of_head? hh)
  have hn : 0 + 1 ∉ widths t := by simp [hwidths]
  rw [← codeSpansFrom_of_no_tick h (place + (0 + 1)), ← codeSpansFrom_of_not_mem hstart hn]
  rfl

theorem codeSpansFrom_concat : ∀ {t : Text}, '`' ∉ t → ∀ place,
    codeSpansFrom place (t ++ ['`']) = []
  | [], h, place => codeSpansFrom_tick h place
  | c :: t, h, place => by
    simp only [List.mem_cons, not_or] at h
    rw [List.cons_append, codeSpansFrom_cons (Ne.symm h.1), codeSpansFrom_concat h.2]

theorem closes_concat : ∀ {t : Text}, '`' ∉ t → Closes 0 (t ++ ['`'])
  | [], _, place, rest, hrest => by
    rw [List.nil_append, List.singleton_append, closingRun?, if_pos (by rfl)]
    exact closingRun?_of_eq rfl (place + 1) hrest
  | c :: t, h, place, rest, hrest => by
    simp only [List.mem_cons, not_or] at h
    rw [List.cons_append, List.cons_append, closingRun?, if_neg (by simpa using Ne.symm h.1),
      if_neg (by decide), closes_concat h.2 (place + 1) rest hrest, List.length_cons,
      Nat.add_assoc, Nat.add_comm 1]

/-- On one line, the code span is all there is. -/
theorem codeSpans_ticks {t : Text} (h : '`' ∉ t) (hne : t ≠ []) :
    codeSpans ('`' :: (t ++ ['`'])) = [⟨0, ('`' :: (t ++ ['`'])).length⟩] := by
  have hstart : NoTick (t ++ ['`'] ++ []) := by
    obtain ⟨c, t, rfl⟩ := List.exists_cons_of_ne_nil hne
    simp only [List.mem_cons, not_or] at h
    simpa [NoTick] using Ne.symm h.1
  have hspan := codeSpansFrom_of_closes (closes_concat h) hstart (by simp [NoTick]) 0
  rw [List.append_nil, codeSpansFrom_nil] at hspan
  rw [codeSpans, List.length_cons]
  refine hspan.trans ?_
  rw [Nat.zero_add, Nat.zero_add, Nat.add_comm 1]

/-- On several lines, no line has a code span of its own. -/
theorem codeSpans_of_mem_spanLines {line next l : Text} {more : List Text}
    (h : ∀ m ∈ line :: next :: more, '`' ∉ m) (hl : l ∈ spanLines (line :: next :: more)) :
    codeSpans l = [] := by
  obtain ⟨hline, hmore⟩ := List.forall_mem_cons.1 h
  rcases List.mem_cons.1 hl with rfl | hl
  · exact codeSpansFrom_tick hline 0
  · obtain ⟨m, hm, rfl | rfl⟩ := exists_of_mem_closeSpan hl
    · exact codeSpansFrom_of_no_tick (hmore l hm) 0
    · exact codeSpansFrom_concat (hmore m hm) 0

/-- On one line, a code span keeps its references. -/
theorem expanded_ticks (table : Table) {t : Text} (h : '`' ∉ t) (hne : t ≠ []) :
    table.expanded ('`' :: (t ++ ['`'])) = '`' :: (t ++ ['`']) := by
  have hr : table.Relinks (codeSpans ('`' :: (t ++ ['`']))) 0 ('`' :: (t ++ ['`']))
      (table.expanded ('`' :: (t ++ ['`']))) := relinks_expanded table _
  rw [codeSpans_ticks h hne] at hr
  obtain ⟨found, u, u', hu, hu', hstop, hrest⟩ := exists_found (List.mem_singleton_self _) hr
    (Nat.le_refl 0) (Nat.zero_le _) (Nat.zero_add _).ge
  have hlength := congrArg List.length hu
  obtain rfl : u = [] := by
    rw [List.length_append] at hlength
    exact List.length_eq_zero_iff.1 (by simp only at hstop; omega)
  obtain rfl := eq_nil_of_relinks hrest
  rw [hu', ← hu]

end Scanning

section Documents

variable {lines : List Text} {defined : List (Text × Text)}
  (hlines : ∀ line ∈ lines, IsSpanLine line)

include hlines

theorem exists_cons_of_mem_spanLines {l : Text} (hl : l ∈ spanLines lines) :
    ∃ c rest, l = c :: rest ∧ (c = '`' ∧ rest.head? ≠ some '`' ∨ isLetter c = true) := by
  rcases lines with _ | ⟨line, more⟩
  · cases hl
  · obtain ⟨hline, hmore⟩ := List.forall_mem_cons.1 hlines
    obtain ⟨m, hm, he⟩ := exists_of_mem_closeSpan hl
    rcases List.mem_cons.1 hm with rfl | hm
    · obtain ⟨d, t, rfl, hd, -⟩ := hline.head
      have hne : d ≠ '`' := ne_of_isLetter hd (by decide)
      rcases he with rfl | rfl
      · exact ⟨'`', _, rfl, .inl ⟨rfl, by simpa using hne⟩⟩
      · exact ⟨'`', _, rfl, .inl ⟨rfl, by simpa using hne⟩⟩
    · obtain ⟨d, t, rfl, hd, -⟩ := (hmore m hm).head
      rcases he with rfl | rfl
      · exact ⟨d, _, rfl, .inr hd⟩
      · exact ⟨d, _, rfl, .inr hd⟩

theorem isFlush_of_mem_spanLines {l : Text} (hl : l ∈ spanLines lines) : IsFlush l := by
  have hclean := isClean_of_mem_spanLines hlines hl
  obtain ⟨c, rest, rfl, hc⟩ := exists_cons_of_mem_spanLines hlines hl
  rcases hc with ⟨rfl, hc⟩ | hc
  · exact isFlush_cons hclean rfl (.inr hc)
  · exact isFlush_cons hclean (isIndent_of_not_isBlank (isBlank_of_isLetter hc))
      (.inl ⟨ne_of_isLetter hc (by decide), ne_of_isLetter hc (by decide)⟩)

theorem ofLine?_of_mem_spanLines {l : Text} (hl : l ∈ spanLines lines) :
    Definition.ofLine? l = none := by
  obtain ⟨c, rest, rfl, hc⟩ := exists_cons_of_mem_spanLines hlines hl
  rcases hc with ⟨rfl, -⟩ | hc
  · exact ofLine?_cons (by decide) (by decide) rest
  · exact ofLine?_cons (ne_of_isLetter hc (by decide)) (ne_of_isLetter hc (by decide)) rest

variable (hdefined : ∀ d ∈ defined, Markdown.Defines d.1 d.2)

include hdefined

theorem isFlush_spanDocument :
    ∀ l ∈ spanLines lines ++ [] :: Markdown.definitionLines defined, IsFlush l := by
  intro l hl
  rcases List.mem_append.1 hl with hl | hl
  · exact isFlush_of_mem_spanLines hlines hl
  · rcases List.mem_cons.1 hl with rfl | hl
    · exact isFlush_nil
    · obtain ⟨d, hd, rfl⟩ := List.mem_map.1 hl
      exact isFlush_cons (Markdown.isClean_definitionLine (hdefined d hd)) rfl
        (.inl ⟨by decide, by decide⟩)

theorem isPlain_ofDocument : (Table.ofDocument (spanDocument lines defined)).IsPlain := by
  have havoids : ∀ c, Markdown.isAddress c = false → isLetter c = false → c ∉ "[]: ".toList →
      (Table.ofDocument (spanDocument lines defined)).Avoids c := by
    intro c haddress hletter hmark
    refine avoids_ofDocument fun line hline hd => ?_
    rw [spanDocument, ofSource_linesText (isFlush_spanDocument hlines hdefined)] at hline
    obtain ⟨l, hl, rfl⟩ := List.mem_map.1 hline
    rw [plainLine, isDefinition] at hd
    rcases List.mem_append.1 hl with hl | hl
    · rw [ofLine?_of_mem_spanLines hlines hl] at hd
      cases hd
    · rcases List.mem_cons.1 hl with rfl | hl
      · cases hd
      · obtain ⟨e, he, rfl⟩ := List.mem_map.1 hl
        exact Markdown.not_mem_definitionLine (hdefined e he) haddress hletter hmark
  exact ⟨havoids _ (by decide) (by decide) (by decide),
    havoids _ (by decide) (by decide) (by decide),
    havoids _ (by decide) (by decide) (by decide),
    havoids _ (by decide) (by decide) (by decide)⟩

/-- The document of a code span is expanded to that of a code span, line by line. -/
theorem exists_expandLenient_spanDocument {table : Table} (ht : table.IsPlain) :
    ∃ lines', table.expandLenient (spanDocument lines defined) = spanDocument lines' defined ∧
      (spanLines lines).map table.expanded = spanLines lines' ∧
      lines'.length = lines.length ∧ ∀ line ∈ lines', IsSpanLine line := by
  obtain ⟨lines', hmap, hlength, hlines'⟩ := exists_spanLines ht
    (fun l => relinks_anywhere (relinks_expanded table l) 0) hlines
  refine ⟨lines', ?_, hmap, hlength, hlines'⟩
  have hblank : table.expanded [] = [] := eq_nil_of_relinks (relinks_expanded table [])
  have hkept : (Markdown.definitionLines defined).map table.expanded =
      Markdown.definitionLines defined := by
    refine (List.map_congr_left fun l hl => ?_).trans (List.map_id _)
    obtain ⟨d, hd, rfl⟩ := List.mem_map.1 hl
    refine expandedText_of_fixed (.inr ?_)
    rw [isDefinition, plainLine, ofLine?_definitionLine (hdefined d hd), Option.isSome_some]
  rw [spanDocument, expandLenient_linesText table (isFlush_spanDocument hlines hdefined),
    List.map_append, List.map_cons, hmap, hblank, hkept, spanDocument]

end Documents

end Reflink

section Documents

open Reflink Markdown

variable {lines : List Text} {defined : List (Text × Text)}

/-- A code span that makes up a paragraph keeps its content when the source is expanded exactly if
it is on one line or none of its lines has a reference. -/
theorem codeContents_expandLenient_iff (hne : lines ≠ [])
    (hlines : ∀ line ∈ lines, IsSpanLine line) (hdefined : ∀ d ∈ defined, Defines d.1 d.2) :
    Token.codeContents (tokenize ((Table.ofDocument (spanDocument lines defined)).expandLenient
        (spanDocument lines defined))) =
      Token.codeContents (tokenize (spanDocument lines defined)) ↔
    lines.length = 1 ∨ ∀ line ∈ spanLines lines,
      ¬ (Table.ofDocument (spanDocument lines defined)).HasReference line := by
  have hplain := isPlain_ofDocument hlines hdefined
  generalize Table.ofDocument (spanDocument lines defined) = table at hplain ⊢
  obtain ⟨lines', hexpand, hmap, hlength, hlines'⟩ :=
    exists_expandLenient_spanDocument hlines hdefined hplain
  have hne' : lines' ≠ [] := by
    rw [← List.length_pos_iff, hlength, List.length_pos_iff]
    exact hne
  have hsame : (spanLines lines).map table.expanded = spanLines lines →
      spanDocument lines' defined = spanDocument lines defined := by
    intro h
    rw [spanDocument, ← hmap, h, spanDocument]
  have hdefinition := fun l => @ofLine?_of_mem_spanLines _ hlines l
  rw [hexpand]
  rcases lines with _ | ⟨line, _ | ⟨next, more⟩⟩
  · exact absurd rfl hne
  · obtain ⟨c, rest, rfl, -⟩ := (hlines line List.mem_cons_self).head
    have hticks := (hlines _ List.mem_cons_self).no_tick
    -- The span is found on its line, and nothing on the line is outside it.
    refine iff_of_true ?_ (.inl rfl)
    rw [hsame]
    exact congrArg (· :: []) (expanded_ticks table hticks (by simp))
  · have hspans := fun l => @codeSpans_of_mem_spanLines _ _ l _ fun m hm => (hlines m hm).no_tick
    constructor
    · intro hcode
      rw [codeContents_spanDocument hne' hlines' hdefined,
        codeContents_spanDocument hne hlines hdefined] at hcode
      have hcontent := (List.cons.inj hcode).1
      refine .inr fun l hl hr => ?_
      -- The contents are the lines, put on one line, but for the backticks around them.
      have hd := diverges_of_exists_reference hdefinition hspans ⟨l, hl, hr⟩
      rw [hmap, linesText_spanLines hne, linesText_spanLines hne'] at hd
      refine hd.onOneLine_ne ?_
      simp only [onOneLine, List.map_cons, List.map_append] at hcontent ⊢
      rw [hcontent]
    · rintro (h | h)
      · simp at h
      · rw [hsame (map_expanded_of_no_reference hdefinition hspans h)]

theorem codeContents_expandLenient_one_line :
    spanDocument ["a [x]"] [("x", "/u")] = "`a [x]`\n\n[x]: /u\n".toList ∧
    Token.codeContents (tokenize
        ((Table.ofDocument (spanDocument ["a [x]"] [("x", "/u")])).expandLenient
          (spanDocument ["a [x]"] [("x", "/u")]))) =
      Token.codeContents (tokenize (spanDocument ["a [x]"] [("x", "/u")])) := by
  refine ⟨by decide, (codeContents_expandLenient_iff (by simp) ?_ ?_).2 (.inl rfl)⟩
  · rintro line hl
    rw [List.mem_singleton.1 hl]
    exact ⟨⟨'a', " [x]", rfl, by decide +kernel, by decide⟩, by decide, isClean_iff.2 (by decide)⟩
  · rintro d hd
    rw [List.mem_singleton.1 hd]
    exact ⟨by simp, by decide +kernel, by decide +kernel, by simp, by decide +kernel⟩

/-- In a code span over two lines, a reference is expanded. -/
theorem not_forall_codeContents_expandLenient : ¬ ∀ source : Text,
    Token.codeContents (tokenize ((Table.ofDocument source).expandLenient source)) =
      Token.codeContents (tokenize source) := by
  intro h
  exact absurd (h "`a\nb [x]`\n\n[x]: /u\n") (by decide +kernel)

end Documents

end TidyMark
