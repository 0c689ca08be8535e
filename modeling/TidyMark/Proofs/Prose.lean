import TidyMark.Markdown.Basic
import TidyMark.Proofs.Scan
import TidyMark.Proofs.Splice
import TidyMark.Proofs.Walk
import TidyMark.Tidy

/-!
# Lines of prose

A line of prose begins no block but a paragraph (`IsProse`), so a source of one such line is a
document of one paragraph (`readBlocks_of_isLoneLine`). Without brackets it has nothing to expand
either (`expand_of_not_mem`), and what `tidy` makes of it is what it writes for that paragraph
(`Reads.tidy_eq`), without the white space around it (`polish_append`).
-/

namespace TidyMark

theorem isSpace_of_not_isBlank {c : Char} (h : isBlank c = false) : isSpace c = false := by
  simp only [isBlank, isSpace, Bool.or_eq_false_iff] at h ⊢
  exact ⟨h.1.1.1.1.1.1.1.1.1.1, h.1.1.1.1.1.1.1.1.1.2⟩

theorem ne_of_not_isBlank {c d : Char} (hc : isBlank c = false) (hd : isBlank d = true) :
    c ≠ d := by
  rintro rfl
  rw [hc] at hd
  cases hd

theorem isIndent_of_not_isBlank {c : Char} (h : isBlank c = false) : isIndent c = false := by
  have h1 : c ≠ ' ' := ne_of_not_isBlank h (by decide)
  have h2 : c ≠ '\t' := ne_of_not_isBlank h (by decide)
  simp [isIndent, h1, h2]

namespace Reflink

theorem expandLenient_of_not_mem (table : Table) {source : Text} (h : '[' ∉ source) :
    table.expandLenient source = source := by
  rw [← flatMap_after_edits]
  refine Eq.trans (List.flatMap_congr fun e he => ?_) (flatMap_before_edits table source)
  cases e with
  | keep t => rfl
  | link b target =>
    have hb : '[' ∈ b.written := by
      simp [Bracket.written, Bracket.head, between]
    have hmem : '[' ∈ (table.edits source).flatMap Edit.before := List.mem_flatMap.2 ⟨_, he, hb⟩
    rw [flatMap_before_edits] at hmem
    exact absurd hmem h

theorem separate_of_not_mem {t : Text} (h : '[' ∉ t) : separate t = t := by
  induction t with
  | nil => rw [separate]
  | cons c t ih =>
    simp only [List.mem_cons, not_or] at h
    have hc : ∀ rest, c :: t ≠ ']' :: '[' :: ']' :: rest := by
      intro rest he
      simp only [List.cons.injEq] at he
      simp [he.2] at h
    rw [separate, ih h.2]
    simpa using hc

theorem expand_of_not_mem {options : Options} (hs : options.strict = false) {source : Text}
    (h : '[' ∉ source) : expand options source = .ok source := by
  have hlenient : ((Table.forSource options source).expansion source).text = source :=
    expandLenient_of_not_mem _ h
  unfold expand Table.expand
  rw [hs]
  simp [hlenient, Except.map, separate_of_not_mem h]

end Reflink

namespace Markdown

/-- The characters that begin a block where they stand first on a line. -/
def blockMarks : Text :=
  ">#`~<[:"

/-- What makes a line one line of prose: it begins no block but a paragraph, and nothing is taken
off its ends. -/
structure IsProse (line : Text) : Prop where
  head : ∃ c rest, line = c :: rest ∧ isBlank c = false ∧ c ∉ blockMarks ∧ c.toNat ≠ 0xFEFF
  last : ∀ c ∈ line.getLast?, isBlank c = false
  one_line : ∀ c ∈ line, c ≠ '\n' ∧ c ≠ '\r' ∧ c.toNat ≠ 0
  not_rule : isRule line = false
  not_item : listMarker? false line = none

section Lines

theorem sourceLines_go : ∀ {line : Text}, (∀ c ∈ line, c ≠ '\n' ∧ c ≠ '\r' ∧ c.toNat ≠ 0) →
    sourceLines.go true line = [line]
  | [], _ => rfl
  | c :: line, h => by
    obtain ⟨h1, h2, h3⟩ := h c List.mem_cons_self
    have ih := sourceLines_go fun d hd => h d (List.mem_cons_of_mem _ hd)
    rw [sourceLines.go, ih]
    · simp [h1, h2, h3]
    · simp [h2]

theorem sourceLines_go_newline : ∀ {line : Text} (begun : Bool),
    (∀ c ∈ line, c ≠ '\n' ∧ c ≠ '\r' ∧ c.toNat ≠ 0) → ∀ rest : Text,
      sourceLines.go begun (line ++ '\n' :: rest) = line :: sourceLines.go false rest
  | [], begun, _, rest => by
    rw [List.nil_append, sourceLines.go]
    · rfl
    · simp
  | c :: line, begun, h, rest => by
    obtain ⟨h1, h2, h3⟩ := h c List.mem_cons_self
    have ih := sourceLines_go_newline true (fun d hd => h d (List.mem_cons_of_mem _ hd)) rest
    rw [List.cons_append, sourceLines.go, ih]
    · simp [h1, h2, h3]
    · simp [h2]

variable {line ending : Text}

theorem sourceLines_of_one_line (hne : line ≠ [])
    (hline : ∀ c ∈ line, c ≠ '\n' ∧ c ≠ '\r' ∧ c.toNat ≠ 0) (he : ending = [] ∨ ending = ['\n']) :
    sourceLines (line ++ ending) = [line] := by
  obtain ⟨c, rest, rfl⟩ := List.exists_cons_of_ne_nil hne
  rcases he with rfl | rfl
  · obtain ⟨h1, h2, h3⟩ := hline c List.mem_cons_self
    have hrest := sourceLines_go fun d hd => hline d (List.mem_cons_of_mem _ hd)
    rw [List.append_nil, sourceLines, sourceLines.go, hrest]
    · simp [h1, h2, h3]
    · simp [h2]
  · exact sourceLines_go_newline false hline []

theorem trimSpaceEnd_line (hlast : ∀ c ∈ line.getLast?, isBlank c = false) :
    Text.trimSpaceEnd (line ++ ['\n']) = line := by
  have hn : ∀ c ∈ ['\n'], isSpace c = true := List.forall_mem_singleton.2 rfl
  rw [Text.trimSpaceEnd, Reflink.dropEndWhile_append_of_all _ hn]
  refine Reflink.dropEndWhile_eq_self fun hs => ?_
  exact isSpace_of_not_isBlank (hlast _ (List.getLast?_eq_some_getLast hs))

theorem IsProse.trimSpaceEnd (h : IsProse line) : Text.trimSpaceEnd (line ++ ['\n']) = line :=
  trimSpaceEnd_line h.last

end Lines

section Opening

section Starts

variable {c : Char} (hc : isBlank c = false) (rest : Text)

include hc

theorem content_cons (column : Nat) (midTab : Bool) :
    (Cursor.mk (c :: rest) column midTab).content = c :: rest := by
  simp [Cursor.content, isIndent_of_not_isBlank hc]

theorem indent_cons (column : Nat) (midTab : Bool) :
    (Cursor.mk (c :: rest) column midTab).indent = 0 := by
  have hi := isIndent_of_not_isBlank hc
  simp only [isIndent, Bool.or_eq_false_iff, beq_eq_false_iff_ne] at hi
  rw [Cursor.indent, columnAfterIndent]
  · simp
  · simp [hi.1]
  · simp [hi.2]

theorem isBlank_cons (column : Nat) (midTab : Bool) :
    (Cursor.mk (c :: rest) column midTab).isBlank = false := by
  rw [Cursor.isBlank, content_cons hc]
  rfl

end Starts

theorem ofLine?_eq_none {c : Char} (hc : c ≠ '<') (interrupts : Bool) (rest : Text) :
    HtmlBlock.ofLine? interrupts (c :: rest) = none := by
  have hstrip : Text.strip? "<" (c :: rest) = none := by
    simp [Text.strip?, Ne.symm hc]
  rw [HtmlBlock.ofLine?, hstrip]
  rfl

/-- Whether a line begins no block in a document or, where it interrupts, in a paragraph. -/
structure BeginsNone (interrupts : Bool) (line : Text) : Prop where
  head : ∃ c rest, line = c :: rest ∧ isBlank c = false ∧ c ∉ (">#<:~" : Text)
  not_fence : fence? line = none
  not_note : footnoteLabel? line = none
  not_rule : isRule line = false
  not_item : listMarker? interrupts line = none
  not_under : interrupts = true → underline? line = none ∧ columnAligns? line = none

theorem openBlock?_of_beginsNone {interrupts : Bool} {line : Text} (h : BeginsNone interrupts line)
    (situation : Situation) {site : Site}
    (hf : site.frame.kind = if interrupts then .paragraph false else .document) :
    openBlock? situation ⟨site, ⟨line, 0, false⟩⟩ = none := by
  obtain ⟨⟨c, rest, rfl, hc, hmark⟩, hfence, hnote, hrule, hitem, hunder⟩ := h
  have hcontent := content_cons hc rest 0 false
  have hindent := indent_cons hc rest 0 false
  have hmarks : (">#<:~" : Text) = ['>', '#', '<', ':', '~'] := rfl
  simp only [hmarks, List.mem_cons, List.not_mem_nil, or_false, not_or] at hmark
  obtain ⟨h1, h2, h3, h4, h5⟩ := hmark
  have hparagraph : isParagraph site.frame = interrupts := by
    rw [isParagraph, hf]
    cases interrupts <;> rfl
  have hquote : openQuote? ⟨site, ⟨c :: rest, 0, false⟩⟩ = none := by
    simp [openQuote?, hcontent, h1]
  have hheading : openHeading? ⟨site, ⟨c :: rest, 0, false⟩⟩ = none := by
    simp [openHeading?, hcontent, numberSigns?, runLength, h2]
  have hfences : openFence? ⟨site, ⟨c :: rest, 0, false⟩⟩ = none := by
    simp [openFence?, hcontent, hfence]
  have hhtml : openHtml? ⟨site, ⟨c :: rest, 0, false⟩⟩ = none := by
    rw [openHtml?, hcontent, ofLine?_eq_none h3]
    rfl
  have hrules : openRule? situation ⟨site, ⟨c :: rest, 0, false⟩⟩ = none := by
    simp [openRule?, hcontent, hrule]
  have hfootnote : openFootnote? situation ⟨site, ⟨c :: rest, 0, false⟩⟩ = none := by
    simp [openFootnote?, hcontent, hnote]
  have hdetails : openDetails? ⟨site, ⟨c :: rest, 0, false⟩⟩ = none := by
    simp [openDetails?, hcontent, detailsMarker?, h4, h5]
  have hitems : openItem? situation ⟨site, ⟨c :: rest, 0, false⟩⟩ = none := by
    simp [openItem?, hcontent, hparagraph, hitem]
  have hunderlined : openUnderlined? ⟨site, ⟨c :: rest, 0, false⟩⟩ = none := by
    cases interrupts with
    | false => simp [openUnderlined?, hf]
    | true => simp [openUnderlined?, hf, hcontent, (hunder rfl).1]
  have htable : openTable? ⟨site, ⟨c :: rest, 0, false⟩⟩ = none := by
    cases interrupts with
    | false => simp [openTable?, hf]
    | true => simp [openTable?, hf, hcontent, TableStart.ofLine?, (hunder rfl).2]
  simp [openBlock?, hindent, hquote, hheading, hfences, hhtml, hunderlined, hrules, hfootnote,
    hdetails, hitems, htable]

theorem openBlocks_of_beginsNone {interrupts : Bool} {line : Text}
    (h : BeginsNone interrupts line) (situation : Situation) (n : Nat) {site : Site}
    (hf : site.frame.kind = if interrupts then .paragraph false else .document) :
    openBlocks situation n ⟨site, ⟨line, 0, false⟩⟩ = ⟨site, ⟨line, 0, false⟩⟩ := by
  rcases n with _ | n
  · rfl
  · have hv : site.frame.kind.isVerbatim = false := by
      rw [hf]
      cases interrupts <;> rfl
    rw [openBlocks, openBlock?_of_beginsNone h situation hf]
    simp [hv]

theorem IsProse.beginsNone {line : Text} (h : IsProse line) : BeginsNone false line := by
  obtain ⟨c, rest, rfl, hc, hmark, -⟩ := h.head
  have hmarks : blockMarks = ['>', '#', '`', '~', '<', '[', ':'] := rfl
  simp only [hmarks, List.mem_cons, List.not_mem_nil, or_false, not_or] at hmark
  obtain ⟨h1, h2, h3, h4, h5, h6, h7⟩ := hmark
  refine ⟨⟨c, rest, rfl, hc, ?_⟩, ?_, ?_, h.not_rule, h.not_item, fun hi => nomatch hi⟩
  · simp [h1, h2, h4, h5, h7]
  · simp [fence?, h3, h4]
  · simp [footnoteLabel?, h6]

end Opening

section Reading

def paragraphFrame (line : Text) : Frame :=
  { kind := .paragraph false, text := line ++ ['\n'] }

/-- A line that begins no block begins a paragraph in a document. -/
theorem addLine_of_beginsNone {line : Text} (h : BeginsNone false line) (number : Nat)
    (done : List Closed) (blank : Bool) (defs : Definitions) :
    (⟨{ kind := .document, done, blank }, [], defs⟩ : Reading).addLine number line =
      ⟨paragraphFrame line, [{ kind := .document, done }], defs⟩ := by
  obtain ⟨c, rest, rfl, hc, -⟩ := h.head
  have hblank := isBlank_cons hc rest 0 false
  have hopen := fun situation n => @openBlocks_of_beginsNone _ _ h situation n
    ⟨{ kind := .document, done, blank }, [], [], defs⟩ rfl
  have hrest : (Site.mk { kind := .document, done } [] [] defs).addRest ⟨c :: rest, 0, false⟩ =
      ⟨paragraphFrame (c :: rest), [{ kind := .document, done }], [], defs⟩ := by
    rw [Site.addRest]
    simp only [hblank, content_cons hc]
    rfl
  unfold Reading.addLine
  simp only [List.reverse_cons, List.reverse_nil, List.nil_append, continueFrames,
    Frame.Kind.continuation, List.isEmpty_nil]
  simp only [hopen, hblank]
  exact congrArg (fun s : Site => (⟨s.frame, s.outer, s.defs⟩ : Reading)) hrest

/-- What makes a line a paragraph of its own text: it begins no other block and no definition. -/
structure IsLoneLine (line : Text) : Prop where
  none : BeginsNone false line
  no_mark : ∀ c ∈ line.head?, c.toNat ≠ 0xFEFF
  one_line : ∀ c ∈ line, c ≠ '\n' ∧ c ≠ '\r' ∧ c.toNat ≠ 0
  undefined : ({} : Definitions).read? (line ++ ['\n']) = .none

theorem IsProse.isLoneLine {line : Text} (h : IsProse line) : IsLoneLine line := by
  obtain ⟨c, rest, rfl, -, hmark, hc⟩ := h.head
  have hopening : c ≠ '[' := by
    rintro rfl
    exact hmark (by decide)
  refine ⟨h.beginsNone, by simpa using hc, h.one_line, ?_⟩
  rw [Definitions.read?]
  simp [label?, hopening]

variable {line ending : Text} (h : IsLoneLine line)

include h

theorem closeFrames_of_isLoneLine : closeFrames false {} [paragraphFrame line] =
    (some { part := .block (.paragraph (line ++ ['\n'])) }, {}) := by
  obtain ⟨c, rest, rfl, hblank, -⟩ := h.none.head
  have hread : ∀ n, ({} : Definitions).readAll n (c :: rest ++ ['\n']) =
      ({}, c :: rest ++ ['\n']) := by
    intro n
    rcases n with _ | n
    · rfl
    · rw [Definitions.readAll, h.undefined]
  have hn : c ≠ '\n' := (h.one_line c List.mem_cons_self).1
  have hstart : startsBlank (c :: rest ++ ['\n']) = false := by
    simp [startsBlank, hn, isIndent_of_not_isBlank hblank]
  simp only [closeFrames, paragraphFrame, Frame.add, Frame.close, hread, hstart]
  rfl

theorem readBlocks_of_isLoneLine (he : ending = [] ∨ ending = ['\n']) :
    readBlocks (line ++ ending) = ([.paragraph (line ++ ['\n'])], {}) := by
  obtain ⟨c, rest, hline, -⟩ := h.none.head
  have hlines : dropByteOrderMark [line] = [line] := by
    have hc := h.no_mark c (by rw [hline]; rfl)
    simp [hline, dropByteOrderMark, hc]
  have hadd : ({} : Reading).addLine 1 line = ⟨paragraphFrame line, [{ kind := .document }], {}⟩ :=
    addLine_of_beginsNone h.none 1 [] false {}
  rw [readBlocks, sourceLines_of_one_line (by simp [hline]) h.one_line he, hlines,
    Reading.addLines, hadd, Reading.addLines]
  simp only [List.reverse_cons, List.reverse_nil, List.nil_append, List.cons_append,
    closeFrames_of_isLoneLine h]
  rfl

end Reading

end Markdown

section Tidying

theorem condenseAfter_append : ∀ {s : Text}, (∀ c ∈ s, c ≠ '\n' ∧ c ≠ '\r') → ∀ t : Text,
    Text.condenseAfter [] (s ++ t) = s ++ Text.condenseAfter [] t
  | [], _, t => rfl
  | c :: s, h, t => by
    obtain ⟨h1, h2⟩ := h c List.mem_cons_self
    have ih := condenseAfter_append (fun d hd => h d (List.mem_cons_of_mem _ hd)) t
    rw [List.cons_append, Text.condenseAfter, ih]
    · rfl
    · simp [h1]
    · simp [h2]

/-- The white space around a line is none of the text in the end. -/
theorem polish_append {line t : Text} (hline : ∀ c ∈ line, c ≠ '\n' ∧ c ≠ '\r')
    (hhead : ∀ c ∈ line.head?, isBlank c = false) (hlast : ∀ c ∈ line.getLast?, isBlank c = false)
    (ht : Text.allBlank (Text.condense t) = true) :
    Render.polish {} (line ++ t) = line ++ ['\n'] := by
  have hcondense : Text.condense (line ++ t) = line ++ Text.condense t := condenseAfter_append hline t
  have hstart : Text.trim (line ++ Text.condense t) = line := by
    rcases line with _ | ⟨c, line⟩
    · have hall : (Text.condense t).dropWhile isBlank = [] := by simpa [Text.allBlank] using ht
      rw [Text.trim, Text.trimStart, List.nil_append, hall]
      rfl
    · have hc := hhead c rfl
      rw [Text.trim, Text.trimStart, List.cons_append, List.dropWhile_cons, if_neg (by simp [hc]),
        Text.trimEnd, ← List.cons_append, Reflink.dropEndWhile_append_of_all _ (List.all_eq_true.1 ht)]
      refine Reflink.dropEndWhile_eq_self fun hs => ?_
      exact hlast _ (List.getLast?_eq_some_getLast hs)
  have hpolish : Render.polish {} (line ++ t) =
      Text.trim (Text.condense (line ++ t)) ++ ['\n'] := rfl
  rw [hpolish, hcondense, hstart]

/-- The tokens of a line that is a paragraph. -/
theorem tokenize_of_isLoneLine {line ending : Text} {xs : List Markdown.Inline}
    (h : Markdown.IsLoneLine line) (he : ending = [] ∨ ending = ['\n'])
    (hblocks : Markdown.Document.ofBlocks
      [.paragraph (Markdown.Inline.ofText {} (line ++ ['\n']))] = ⟨[.paragraph xs], []⟩) :
    tokenize (line ++ ending) = Token.paragraphAt 0 false xs := by
  rw [tokenize, Markdown.Document.ofText, Markdown.readBlocks_of_isLoneLine h he]
  simp only [Markdown.mapBlocks, Markdown.Block.map, hblocks]
  simp [Token.ofDocument, Token.ofBlocks, Token.ofBlock, Token.ofNotes]

/-- What it takes for a line to be read as a paragraph with this content and nothing else. -/
structure Reads (line : Text) (xs : List Markdown.Inline) : Prop where
  prose : Markdown.IsProse line
  no_bracket : '[' ∉ line
  content : Markdown.Inline.ofText {} (line ++ ['\n']) = xs
  no_notes : Markdown.Document.ofBlocks [.paragraph xs] = ⟨[.paragraph xs], []⟩

theorem Reads.tidy_eq {line ending : Text} {xs : List Markdown.Inline}
    (h : Reads line xs) (he : ending = [] ∨ ending = ['\n']) :
    tidy {} (line ++ ending) = (render {} (Token.paragraphAt 0 false xs)).result := by
  have hb : '[' ∉ line ++ ending := by
    rcases he with rfl | rfl <;> simp [h.no_bracket]
  have htokens : tokenize (line ++ ending) = Token.paragraphAt 0 false xs :=
    tokenize_of_isLoneLine h.prose.isLoneLine he (by rw [h.content, h.no_notes])
  rw [tidy, Reflink.expand_of_not_mem rfl hb, ← htokens]
  rfl

end Tidying

end TidyMark
