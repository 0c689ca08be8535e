import TidyMark.Proofs.Word

/-!
# Paragraphs of several lines

A line that begins no block goes on with the paragraph before it (`addLines_continue`), a blank
line ends the paragraph (`addLine_blank`), and lines that define labels leave no block behind
(`finish_definitionLines`). So lines that begin no block, a blank line and definitions are a
document of one paragraph (`readBlocks_paragraph`).
-/

namespace TidyMark.Markdown

open Text

/-- Lines as they stand in a source, each with its line feed. -/
def linesText (lines : List Text) : Text :=
  lines.flatMap (· ++ ['\n'])

/-- Whether a text is part of a line that is read as it is written. -/
def IsClean (t : Text) : Prop :=
  ∀ c ∈ t, c ≠ '\n' ∧ c ≠ '\r' ∧ c.toNat ≠ 0

section Lines

theorem linesText_cons (line : Text) (lines : List Text) :
    linesText (line :: lines) = line ++ '\n' :: linesText lines := by
  simp [linesText]

theorem sourceLines_linesText {lines : List Text} (h : ∀ line ∈ lines, IsClean line) :
    sourceLines (linesText lines) = lines := by
  unfold sourceLines
  induction lines with
  | nil => rfl
  | cons line lines ih =>
    obtain ⟨hline, hlines⟩ := List.forall_mem_cons.1 h
    rw [linesText_cons, sourceLines_go_newline false hline, ih hlines]

end Lines

section Beginning

variable {c : Char} {rest : Text}

theorem exists_splitBars_cons (hbar : c ≠ '|') : ∃ cell cells,
    splitBars false (c :: rest) = (c :: cell) :: cells := by
  rw [splitBars, if_neg (by simp [hbar])]
  split
  · exact ⟨[], [], rfl⟩
  · exact ⟨_, _, rfl⟩

theorem exists_cellParts_cons (hbar : c ≠ '|') : ∃ cell cells,
    cellParts (c :: rest) = (c :: cell) :: cells := by
  obtain ⟨cell, cells, hsplit⟩ := exists_splitBars_cons hbar
  refine ⟨cell, ?_⟩
  unfold cellParts
  rw [hsplit]
  rcases cells with _ | ⟨d, cells⟩
  · exact ⟨[], rfl⟩
  · simp only [List.isEmpty_cons, Bool.false_eq_true, if_false]
    split_ifs
    · exact ⟨_, List.dropLast_cons_of_ne_nil (by simp)⟩
    · exact ⟨_, rfl⟩

theorem columnAlign?_eq_none (hcolon : c ≠ ':') (hdash : c ≠ '-') (t : Text) :
    columnAlign? (c :: t) = none := by
  rcases t with _ | ⟨d, t⟩
  · simp [columnAlign?, hcolon, hdash]
  · have hfirst : (some c == some ':') = false := by simp [hcolon]
    simp only [columnAlign?, List.head?_cons, hfirst, Bool.false_eq_true, if_false]
    split_ifs <;> simp_all

/-- A line is no row of dashes when it begins with anything but a bar, a colon or a dash. -/
theorem columnAligns?_eq_none (hblank : isBlank c = false) (hc : c ∉ "|:-\\".toList) :
    columnAligns? (c :: rest) = none := by
  simp only [String.reduceToList, List.mem_cons, List.not_mem_nil, or_false, not_or] at hc
  obtain ⟨hbar, hcolon, hdash, hslash⟩ := hc
  obtain ⟨cell, cells, hparts⟩ := @exists_cellParts_cons c rest hbar
  have hunescape : unescapeBars (c :: cell) = c :: unescapeBars cell := by
    rw [unescapeBars]
    simp [hslash]
  have hspace := isSpace_of_not_isBlank hblank
  have hcell : trimSpace (unescapeBars (c :: cell)) =
      c :: (unescapeBars cell).dropEndWhile isSpace := by
    rw [hunescape, trimSpace, List.dropWhile_cons, if_neg (by simp [hspace]), trimSpaceEnd]
    exact Reflink.dropEndWhile_append_cons hspace [] _
  simp [columnAligns?, rowCells, hparts, hcell, columnAlign?_eq_none hcolon hdash]

/-- Of most lines the first character tells that they begin no block. -/
theorem beginsNone_cons (hblank : isBlank c = false)
    (hc : c ∉ ">#<:~*-+_=|\\".toList) (hdigit : c.isDigit = false)
    (hfence : fence? (c :: rest) = none) (hnote : footnoteLabel? (c :: rest) = none)
    (interrupts : Bool) : BeginsNone interrupts (c :: rest) := by
  simp only [String.reduceToList, List.mem_cons, List.not_mem_nil, or_false, not_or] at hc
  obtain ⟨h1, h2, h3, h4, h5, h6, h7, h8, h9, h10, h11, h12⟩ := hc
  refine ⟨⟨c, rest, rfl, hblank, ?_⟩, hfence, hnote, ?_, ?_, fun _ => ⟨?_, ?_⟩⟩
  · simp [h1, h2, h3, h4, h5]
  · simp [isRule, h6, h7, h9]
  · simp [listMarker?, h6, h7, h8, hdigit]
  · simp [underline?, h7, h10]
  · exact columnAligns?_eq_none hblank (by simp [h4, h7, h11, h12])

end Beginning

section Continuing

/-- The frame of a paragraph with these lines. -/
def openParagraph (lines : List Text) : Frame :=
  { kind := .paragraph false, text := linesText lines }

variable (number : Nat) (done : List Closed) (defs : Definitions)

/-- A line that begins no block goes on with the paragraph before it. -/
theorem addLine_continues {line : Text} (h : BeginsNone true line) (lines : List Text) :
    (⟨openParagraph lines, [{ kind := .document, done }], defs⟩ : Reading).addLine number line =
      ⟨openParagraph (lines ++ [line]), [{ kind := .document, done }], defs⟩ := by
  obtain ⟨c, rest, rfl, hc, -⟩ := h.head
  have hblank := isBlank_cons hc rest 0 false
  have hopen := fun situation n => @openBlocks_of_beginsNone _ _ h situation n
    ⟨openParagraph lines, [{ kind := .document, done }], [], defs⟩ rfl
  have hrest : (Site.mk (openParagraph lines) [{ kind := .document, done }] [] defs).addRest
      ⟨c :: rest, 0, false⟩ =
        ⟨openParagraph (lines ++ [c :: rest]), [{ kind := .document, done }], [], defs⟩ := by
    have htext : linesText (lines ++ [c :: rest]) = linesText lines ++ (c :: rest ++ ['\n']) := by
      simp [linesText]
    rw [Site.addRest, openParagraph, openParagraph, htext]
    simp only [hblank, content_cons hc]
    rfl
  have hcontinue : continueFrames false [] ⟨c :: rest, 0, false⟩
      [{ kind := .document, done }, openParagraph lines] =
        ⟨[openParagraph lines, { kind := .document, done }], [], ⟨c :: rest, 0, false⟩, false⟩ := by
    simp only [continueFrames, Frame.Kind.continuation, openParagraph, hblank]
    rfl
  unfold Reading.addLine
  simp only [List.reverse_cons, List.reverse_nil, List.nil_append, List.cons_append,
    List.isEmpty_cons, hcontinue, hopen, hblank]
  exact congrArg (fun s : Site => (⟨s.frame, s.outer, s.defs⟩ : Reading)) hrest

theorem addLines_continue : ∀ {more lines : List Text} (number : Nat),
    (∀ line ∈ more, BeginsNone true line) → ∀ rest : List Text,
      (⟨openParagraph lines, [{ kind := .document, done }], defs⟩ : Reading).addLines number
          (more ++ rest) =
        (⟨openParagraph (lines ++ more), [{ kind := .document, done }], defs⟩ :
          Reading).addLines (number + more.length) rest
  | [], lines, number, _, rest => by simp
  | line :: more, lines, number, h, rest => by
    obtain ⟨hline, hmore⟩ := List.forall_mem_cons.1 h
    rw [List.cons_append, Reading.addLines, addLine_continues number done defs hline,
      addLines_continue (number + 1) hmore rest, List.length_cons]
    simp [Nat.add_assoc, Nat.add_comm 1]

theorem openBlock?_blank (situation : Situation) {site : Site}
    (hf : site.frame.kind = .document) : openBlock? situation ⟨site, ⟨[], 0, false⟩⟩ = none := by
  have hfootnote : openFootnote? situation ⟨site, ⟨[], 0, false⟩⟩ = none := by
    unfold openFootnote?
    split_ifs <;> rfl
  have hitem : openItem? situation ⟨site, ⟨[], 0, false⟩⟩ = none := by
    unfold openItem?
    split_ifs <;> rfl
  have hunderlined : openUnderlined? ⟨site, ⟨[], 0, false⟩⟩ = none := by
    simp only [openUnderlined?, hf]
  have htable : openTable? ⟨site, ⟨[], 0, false⟩⟩ = none := by
    simp only [openTable?, hf]
  have hrule : openRule? situation ⟨site, ⟨[], 0, false⟩⟩ = none := rfl
  have hhtml : openHtml? ⟨site, ⟨[], 0, false⟩⟩ = none := rfl
  have hindent : (Cursor.mk [] 0 false).indent < 4 := by decide
  rw [openBlock?, if_pos hindent, hfootnote, hitem, hunderlined, htable, hrule, hhtml]
  rfl

theorem openBlocks_blank (situation : Situation) (n : Nat) {site : Site}
    (hf : site.frame.kind = .document) :
    openBlocks situation n ⟨site, ⟨[], 0, false⟩⟩ = ⟨site, ⟨[], 0, false⟩⟩ := by
  rcases n with _ | n
  · rfl
  · rw [openBlocks, openBlock?_blank situation hf]
    simp [hf, Frame.Kind.isVerbatim]

theorem readAll_of_head_ne {t : Text} (h : t.head? ≠ some '[') (n : Nat) :
    defs.readAll n t = (defs, t) := by
  have hlabel : label? t = none := by
    unfold label?
    split
    · exact absurd rfl h
    · rfl
  rcases n with _ | n
  · rfl
  · rw [Definitions.readAll, Definitions.read?, hlabel]
    rfl

/-- A blank line ends a paragraph that does not begin with a definition. -/
theorem addLine_blank {lines : List Text} (hhead : (linesText lines).head? ≠ some '[')
    (hshows : startsBlank (linesText lines) = false) :
    (⟨openParagraph lines, [{ kind := .document, done }], defs⟩ : Reading).addLine number [] =
      ⟨{ kind := .document
         done := { part := .block (.paragraph (linesText lines)), blank := true } :: done
         blank := true }, [], defs⟩ := by
  have hclose : closeFrames false defs [{ openParagraph lines with blank := true }] =
      (some { part := .block (.paragraph (linesText lines)), blank := true }, defs) := by
    simp only [closeFrames, openParagraph, Frame.add, Frame.close, readAll_of_head_ne defs hhead,
      hshows]
    rfl
  have hcontinue : continueFrames true [] ⟨[], 0, false⟩
      [{ kind := .document, done }, openParagraph lines] =
        ⟨[{ kind := .document, done }], [openParagraph lines], ⟨[], 0, false⟩, false⟩ := rfl
  have hopen := fun situation n => @openBlocks_blank situation n
    ⟨{ kind := .document, done }, [], [openParagraph lines], defs⟩ rfl
  have hblank : (Cursor.mk [] 0 false).isBlank = true := rfl
  have hnote : (Site.mk { kind := .document, done } [] [openParagraph lines] defs).noteBlank number
      true = ⟨{ kind := .document, done, blank := true }, [],
        [{ openParagraph lines with blank := true }], defs⟩ := rfl
  have hsettle : (Site.mk { kind := .document, done, blank := true } []
      [{ openParagraph lines with blank := true }] defs).settle =
        ⟨{ kind := .document
           done := { part := .block (.paragraph (linesText lines)), blank := true } :: done
           blank := true }, [], [], defs⟩ := by
    rw [Site.settle, hclose]
    rfl
  unfold Reading.addLine
  simp only [List.reverse_cons, List.reverse_nil, List.nil_append, List.cons_append,
    List.isEmpty_nil, hcontinue, hopen, hblank, hnote, hsettle, Bool.not_true, Bool.and_false]
  rfl

end Continuing

section Defining

/-- A character of an address that stands there as it is, without brackets around the address. -/
def isAddress (c : Char) : Bool :=
  !isBlank c && !("()<>\\`".toList.contains c) && 32 ≤ c.toNat && c.toNat != 127

/-- A label of letters and the address that it stands for. -/
structure Defines (label url : Text) : Prop where
  label_ne_nil : label ≠ []
  letters : label.all isLetter = true
  short : label.byteLength ≤ maxLabel
  url_ne_nil : url ≠ []
  address : url.all isAddress = true

/-- The line that defines a label. -/
def definitionLine (label url : Text) : Text :=
  '[' :: (label ++ "]: ".toList ++ url)

theorem ne_of_isAddress {c d : Char} (hc : isAddress c = true) (hd : isAddress d = false) :
    c ≠ d := by
  rintro rfl
  rw [hc] at hd
  cases hd

theorem isBlank_of_isAddress {c : Char} (hc : isAddress c = true) : isBlank c = false := by
  simp only [isAddress, Bool.and_eq_true, Bool.not_eq_true'] at hc
  exact hc.1.1.1

theorem labelRest?_word {rest : Text} : ∀ {used : Nat} {label : Text}, label.all isLetter = true →
    used + label.byteLength ≤ maxLabel →
      labelRest? used false (label ++ ']' :: rest) = some (label, rest)
  | used, [], _, _ => by simp [labelRest?]
  | used, c :: label, h, hlen => by
    rw [List.all_cons, Bool.and_eq_true] at h
    rw [byteLength] at hlen
    have h1 : c ≠ ']' := ne_of_isLetter h.1 (by decide)
    have h2 : c ≠ '[' := ne_of_isLetter h.1 (by decide)
    have h3 : (c == '\\') = false := beq_false_of_ne (ne_of_isLetter h.1 (by decide))
    have hlong : ¬ maxLabel < used + c.utf8Size := by omega
    have ih := @labelRest?_word rest (used + c.utf8Size) label h.2 (by omega)
    simp [labelRest?, h1, h2, hlong, escapesNext, h3, ih]

theorem trimSpace_of_not_isSpace {t : Text} (h : ∀ c ∈ t, isSpace c = false) : trimSpace t = t := by
  have hstart : t.dropWhile isSpace = t := by
    rcases t with _ | ⟨c, t⟩
    · rfl
    · simp [h c List.mem_cons_self]
  rw [trimSpace, hstart, trimSpaceEnd]
  exact Reflink.dropEndWhile_eq_self fun hs => h _ (List.getLast_mem hs)

theorem trimSpace_word {t : Text} (h : t.all isLetter = true) : trimSpace t = t :=
  trimSpace_of_not_isSpace fun c hc =>
    isSpace_of_not_isBlank (isBlank_of_isLetter (List.all_eq_true.1 h c hc))

theorem bareUrl?_address {rest : Text} : ∀ {url : Text}, url.all isAddress = true →
    bareUrl? 0 false (url ++ '\n' :: rest) = some (url, '\n' :: rest)
  | [], _ => by simp [bareUrl?, endsUrl, isSpace]
  | c :: url, h => by
    rw [List.all_cons, Bool.and_eq_true] at h
    obtain ⟨hc, hurl⟩ := h
    have h1 : c ≠ '(' := ne_of_isAddress hc (by decide)
    have h2 : c ≠ ')' := ne_of_isAddress hc (by decide)
    have h3 : (c == '\\') = false := beq_false_of_ne (ne_of_isAddress hc (by decide))
    have hends : endsUrl c = false := by
      have hblank := isSpace_of_not_isBlank (isBlank_of_isAddress hc)
      simp only [isAddress, Bool.and_eq_true, decide_eq_true_eq, bne_iff_ne] at hc
      simp only [endsUrl, hblank, Bool.or_eq_false_iff, decide_eq_false_iff_not,
        beq_eq_false_iff_ne]
      exact ⟨⟨trivial, by omega⟩, hc.2⟩
    simp [bareUrl?, h1, h2, hends, escapesNext, h3, bareUrl?_address hurl]

variable {label url : Text}

theorem label?_definitionLine (h : Defines label url) (rest : Text) :
    label? (definitionLine label url ++ '\n' :: rest) =
      some (label, ':' :: ' ' :: (url ++ '\n' :: rest)) := by
  have hword := @labelRest?_word (':' :: ' ' :: (url ++ '\n' :: rest)) 0 label h.letters
    (by have := h.short; omega)
  have htext : definitionLine label url ++ '\n' :: rest =
      '[' :: (label ++ ']' :: ':' :: ' ' :: (url ++ '\n' :: rest)) := by
    simp [definitionLine]
  rw [htext, label?, hword]
  simp [trimSpace_word h.letters]

theorem skipLineEnd_space {c : Char} (hc : isBlank c = false) (t : Text) :
    skipLineEnd (' ' :: c :: t) = c :: t := by
  have hi : isIndent c = false := isIndent_of_not_isBlank hc
  have hn : c ≠ '\n' := ne_of_not_isBlank hc (by decide)
  have hdrop : (' ' :: c :: t).dropWhile isIndent = c :: t := by
    rw [List.dropWhile_cons, if_pos (by decide), List.dropWhile_cons, if_neg (by simp [hi])]
  unfold skipLineEnd
  rw [hdrop]
  split
  · next heq => exact absurd (List.cons.inj heq).1 hn
  · rfl

/-- At the end of a line there is no title, and no next line that begins a definition is one. -/
theorem definitionTitle?_newline {rest : Text} (hrest : ∀ c ∈ rest.head?, c = '[') :
    definitionTitle? ('\n' :: rest) = some ([], rest) := by
  obtain ⟨hindent, hnone⟩ : rest.dropWhile isIndent = rest ∧ title? rest = none := by
    rcases rest with _ | ⟨d, rest⟩
    · exact ⟨rfl, rfl⟩
    · obtain rfl := hrest d rfl
      exact ⟨rfl, rfl⟩
  have hskip : skipLineEnd ('\n' :: rest) = rest := hindent
  simp only [definitionTitle?, hskip, hnone, ite_self]
  rfl

theorem read?_definitionLine (h : Defines label url) (defs : Definitions) {rest : Text}
    (hrest : ∀ c ∈ rest.head?, c = '[') :
    ∃ defs', defs.read? (definitionLine label url ++ '\n' :: rest) = some (defs', rest) := by
  have hlabel := label?_definitionLine h rest
  have hempty : label.isEmpty = false := by simpa using h.label_ne_nil
  obtain ⟨c, url, rfl⟩ := List.exists_cons_of_ne_nil h.url_ne_nil
  have hc : isAddress c = true := List.all_eq_true.1 h.address c List.mem_cons_self
  have hcolon : Text.strip? ":" (':' :: ' ' :: (c :: url ++ '\n' :: rest)) =
      some (' ' :: (c :: url ++ '\n' :: rest)) := by
    simp [Text.strip?]
  have hskip : skipLineEnd (' ' :: (c :: url ++ '\n' :: rest)) = c :: url ++ '\n' :: rest :=
    skipLineEnd_space (isBlank_of_isAddress hc) _
  have hurl : url? (c :: url ++ '\n' :: rest) = some (c :: url, '\n' :: rest) := by
    have hangle : c ≠ '<' := ne_of_isAddress hc (by decide)
    rw [← bareUrl?_address h.address, List.cons_append, url?]
    simpa using hangle
  refine ⟨defs.add label (cleanUrl (c :: url)) (plainText []), ?_⟩
  simp only [Definitions.read?, Option.bind_eq_bind, hlabel, Option.bind_some, hempty,
    Bool.false_eq_true, if_false, Option.pure_def, hcolon, hskip, hurl,
    definitionTitle?_newline hrest]

/-- The lines that define labels. -/
def definitionLines (defined : List (Text × Text)) : List Text :=
  defined.map fun d => definitionLine d.1 d.2

theorem head?_definitionLines (defined : List (Text × Text)) :
    ∀ c ∈ (linesText (definitionLines defined)).head?, c = '[' := by
  rcases defined with _ | ⟨d, defined⟩
  · simp [definitionLines, linesText]
  · rw [definitionLines, List.map_cons, linesText_cons, definitionLine]
    simp

/-- A paragraph of definitions is nothing else. -/
theorem readAll_definitionLines : ∀ {defined : List (Text × Text)} (defs : Definitions) (n : Nat),
    (∀ d ∈ defined, Defines d.1 d.2) → defined.length ≤ n →
      ∃ defs', defs.readAll n (linesText (definitionLines defined)) = (defs', [])
  | [], defs, n, _, _ => by
    refine ⟨defs, ?_⟩
    rcases n with _ | n <;> rfl
  | d :: defined, defs, 0, _, hn => by simp at hn
  | d :: defined, defs, n + 1, h, hn => by
    obtain ⟨hd, hdefined⟩ := List.forall_mem_cons.1 h
    obtain ⟨defs₁, h₁⟩ := read?_definitionLine hd defs (head?_definitionLines defined)
    obtain ⟨defs₂, h₂⟩ := readAll_definitionLines defs₁ n hdefined (Nat.le_of_succ_le_succ hn)
    refine ⟨defs₂, ?_⟩
    rw [definitionLines, List.map_cons, linesText_cons, Definitions.readAll]
    rw [definitionLines] at h₁ h₂
    simp only [h₁, h₂]

theorem beginsNone_definitionLine (h : Defines label url) (interrupts : Bool) :
    BeginsNone interrupts (definitionLine label url) := by
  refine beginsNone_cons (by decide) (by decide) (by decide) rfl ?_ interrupts
  obtain ⟨c, label, rfl⟩ := List.exists_cons_of_ne_nil h.label_ne_nil
  have hletter := List.all_eq_true.1 h.letters c List.mem_cons_self
  have hc : c ≠ '^' := ne_of_isLetter hletter (by decide)
  simp [footnoteLabel?, hc]

end Defining

section Reading

theorem not_mem_definitionLine {label url : Text} (h : Defines label url) {c : Char}
    (haddress : isAddress c = false) (hletter : isLetter c = false) (hmark : c ∉ "[]: ".toList) :
    c ∉ definitionLine label url := by
  have hlabel : c ∉ label := fun hc =>
    ne_of_isLetter (List.all_eq_true.1 h.letters c hc) hletter rfl
  have hurl : c ∉ url := fun hc =>
    ne_of_isAddress (List.all_eq_true.1 h.address c hc) haddress rfl
  simp only [String.reduceToList, List.mem_cons, List.not_mem_nil, or_false, not_or] at hmark
  simp [definitionLine, hlabel, hurl, hmark]

theorem isClean_iff {t : Text} : IsClean t ↔ '\n' ∉ t ∧ '\r' ∉ t ∧ '\x00' ∉ t := by
  constructor
  · intro h
    exact ⟨fun hn => (h _ hn).1 rfl, fun hr => (h _ hr).2.1 rfl, fun h0 => (h _ h0).2.2 rfl⟩
  · rintro ⟨h1, h2, h3⟩ c hc
    refine ⟨fun h => h1 (h ▸ hc), fun h => h2 (h ▸ hc), toNat_ne fun h => h3 ?_⟩
    rw [h] at hc
    exact hc

theorem isClean_definitionLine {label url : Text} (h : Defines label url) :
    IsClean (definitionLine label url) := by
  rw [isClean_iff]
  exact ⟨not_mem_definitionLine h (by decide) (by decide) (by decide),
    not_mem_definitionLine h (by decide) (by decide) (by decide),
    not_mem_definitionLine h (by decide) (by decide) (by decide)⟩

/-- What the first line of a paragraph is: it begins no block, no definition and no source. -/
structure BeginsParagraph (line : Text) : Prop where
  none : BeginsNone false line
  head : ∀ c ∈ line.head?, c ≠ '[' ∧ c.toNat ≠ 0xFEFF

variable {line : Text} {more : List Text} {defined : List (Text × Text)}

/-- What has been read when there are no more lines. -/
def Reading.finish (r : Reading) : List (Block Text) × Definitions :=
  match (r.frame :: r.outer).reverse with
  | [] => ([], r.defs)
  | document :: inner =>
    let (child, defs) := closeFrames false r.defs inner
    (blocksOf (document.add child).done, defs)

theorem readBlocks_eq_finish (source : Text) : readBlocks source =
    (({} : Reading).addLines 1 (dropByteOrderMark (sourceLines source))).finish := rfl

theorem length_le_length_linesText : ∀ lines : List Text,
    lines.length ≤ (linesText lines).length
  | [] => Nat.zero_le _
  | line :: lines => by
    have := length_le_length_linesText lines
    simp only [linesText_cons, List.length_append, List.length_cons]
    omega

/-- The lines of definitions leave nothing behind in a document. -/
theorem finish_definitionLines (h : ∀ d ∈ defined, Defines d.1 d.2) (number : Nat)
    (done : List Closed) (blank : Bool) (defs : Definitions) : ∃ defs',
      ((⟨{ kind := .document, done, blank }, [], defs⟩ : Reading).addLines number
        (definitionLines defined)).finish = (blocksOf done, defs') := by
  rcases defined with _ | ⟨d, defined⟩
  · exact ⟨defs, rfl⟩
  · obtain ⟨hd, hdefined⟩ := List.forall_mem_cons.1 h
    have hmore : ∀ l ∈ definitionLines defined, BeginsNone true l := by
      intro l hl
      obtain ⟨e, he, rfl⟩ := List.mem_map.1 hl
      exact beginsNone_definitionLine (hdefined e he) true
    have hframe : paragraphFrame (definitionLine d.1 d.2) =
        openParagraph [definitionLine d.1 d.2] := by
      simp [paragraphFrame, openParagraph, linesText]
    have hlines : definitionLines (d :: defined) =
        [definitionLine d.1 d.2] ++ definitionLines defined := rfl
    have hlength : (d :: defined).length ≤ (linesText (definitionLines (d :: defined))).length := by
      have := length_le_length_linesText (definitionLines (d :: defined))
      simpa [definitionLines] using this
    obtain ⟨defs', hread⟩ := readAll_definitionLines defs _ h hlength
    refine ⟨defs', ?_⟩
    have hclose : closeFrames false defs [openParagraph (definitionLines (d :: defined))] =
        (none, defs') := by
      simp only [closeFrames, openParagraph, Frame.add, Frame.close, hread]
      rfl
    have haddLines := @addLines_continue done defs _ [definitionLine d.1 d.2] (number + 1)
      hmore []
    rw [List.append_nil, ← hlines] at haddLines
    rw [hlines, List.singleton_append, Reading.addLines,
      addLine_of_beginsNone (beginsNone_definitionLine hd false), hframe, haddLines,
      Reading.addLines]
    simp only [Reading.finish, List.reverse_cons, List.reverse_nil, List.nil_append,
      List.cons_append, hclose]
    rfl

/-- Lines that begin no block are one paragraph up to a blank line, and definitions behind that are
no block. -/
theorem readBlocks_paragraph (hline : BeginsParagraph line)
    (hmore : ∀ l ∈ more, BeginsNone true l) (hclean : ∀ l ∈ line :: more, IsClean l)
    (hdefined : ∀ d ∈ defined, Defines d.1 d.2) : ∃ defs,
      readBlocks (linesText (line :: more ++ [] :: definitionLines defined)) =
        ([.paragraph (linesText (line :: more))], defs) := by
  obtain ⟨c, rest, rfl, hblank, -⟩ := hline.none.head
  obtain ⟨hbracket, hmark⟩ := hline.head c rfl
  have hall : ∀ l ∈ (c :: rest) :: more ++ [] :: definitionLines defined, IsClean l := by
    intro l hl
    rcases List.mem_append.1 hl with hl | hl
    · exact hclean l hl
    · rcases List.mem_cons.1 hl with rfl | hl
      · exact fun c hc => nomatch hc
      · obtain ⟨d, hd, rfl⟩ := List.mem_map.1 hl
        exact isClean_definitionLine (hdefined d hd)
  have hframe : paragraphFrame (c :: rest) = openParagraph [c :: rest] := by
    simp [paragraphFrame, openParagraph, linesText]
  have htext : linesText ((c :: rest) :: more) = c :: (rest ++ '\n' :: linesText more) := by
    rw [linesText_cons, List.cons_append]
  have hhead : (linesText ((c :: rest) :: more)).head? ≠ some '[' := by
    rw [htext]
    simpa using hbracket
  have hshows : startsBlank (linesText ((c :: rest) :: more)) = false := by
    have hn : c ≠ '\n' := (hclean _ List.mem_cons_self c List.mem_cons_self).1
    simp [htext, startsBlank, hn, isIndent_of_not_isBlank hblank]
  have hstart : dropByteOrderMark ((c :: rest) :: more ++ [] :: definitionLines defined) =
      (c :: rest) :: (more ++ [] :: definitionLines defined) := by
    simp [dropByteOrderMark, hmark]
  obtain ⟨defs, hfinish⟩ := finish_definitionLines hdefined (1 + 1 + more.length + 1)
    [{ part := .block (.paragraph (linesText ((c :: rest) :: more))), blank := true }] true {}
  refine ⟨defs, ?_⟩
  have hbegin : ({} : Reading).addLine 1 (c :: rest) =
      ⟨openParagraph [c :: rest], [{ kind := .document, done := [] }], {}⟩ := by
    rw [← hframe]
    exact addLine_of_beginsNone hline.none 1 [] false {}
  rw [readBlocks_eq_finish, sourceLines_linesText hall, hstart, Reading.addLines, hbegin,
    addLines_continue [] {} (1 + 1) hmore, Reading.addLines]
  rw [List.singleton_append, addLine_blank _ [] {} hhead hshows, hfinish]
  rfl

end Reading

end TidyMark.Markdown
