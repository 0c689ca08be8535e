import TidyMark.Proofs.Verbatim
import TidyMark.Render.Block

/-!
# Fenced code read back

A document that begins with a fence of backticks is in its code after the first line
(`addLine_begins`), stays there with each line that does not close the fence (`addLine_within`) and
is at its end with the same fence again (`addLine_closes`). What was read is one piece of fenced code
with the lines as they stand (`tokenize_fence`).
-/

namespace TidyMark.Markdown

open Render (ticks)

section Fences

variable {n : Nat} {t : Text}

/-- A fence and what stands behind it on its line. -/
structure Begins (n : Nat) (lang : Text) : Prop where
  long : 3 ≤ n
  no_tick : '`' ∉ lang

theorem Begins.head? (h : Begins n t) : t.head? ≠ some '`' := fun ht =>
  h.no_tick (List.mem_of_mem_head? ht)

theorem exists_ticks_append (h : 3 ≤ n) (t : Text) : ∃ rest, ticks n ++ t = '`' :: rest := by
  obtain ⟨m, rfl⟩ : ∃ m, n = m + 1 := ⟨n - 1, by omega⟩
  exact ⟨List.replicate m '`' ++ t, rfl⟩

theorem runLength_ticks (ht : t.head? ≠ some '`') : runLength '`' (ticks n ++ t) = n := by
  rw [runLength, ticks, takeWhile_replicate_append n ht, List.length_replicate]

theorem fence?_ticks (h : Begins n t) : fence? (ticks n ++ t) = some ('`', n) := by
  have hrun := runLength_ticks (n := n) h.head?
  have hdrop : (ticks n ++ t).drop n = t := List.drop_left' (List.length_replicate ..)
  obtain ⟨rest, hrest⟩ := exists_ticks_append h.long t
  rw [hrest] at hrun hdrop ⊢
  simp [fence?, hrun, hdrop, h.long, h.no_tick]

theorem closesFence_ticks (h : 3 ≤ n) : closesFence '`' n (ticks n) = true := by
  have hrun : runLength '`' (ticks n ++ []) = n := runLength_ticks (by simp)
  have hdrop : (ticks n ++ []).dropWhile (· == '`') = [] := dropWhile_replicate_append n (by simp)
  rw [List.append_nil] at hrun hdrop
  simp [closesFence, hrun, hdrop, h]

end Fences

section Lines

variable {n : Nat} (number : Nat)

/-- Code below a fence of `n` backticks that begins its line. -/
def fenceFrame (n : Nat) (text : Text) : Frame :=
  { kind := .fence '`' n 0, text }

/-- Reading a document that has begun with fenced code. -/
def inFence (n : Nat) (text : Text) : Reading :=
  ⟨fenceFrame n text, [{ kind := .document }], {}⟩

theorem skipFrom_ticks : ∀ (n column : Nat) (t : Text),
    Cursor.skipFrom n column false (ticks n ++ t) = ⟨t, column + n, false⟩
  | 0, column, [] => rfl
  | 0, column, c :: t => rfl
  | n + 1, column, t => by
    rw [ticks, List.replicate_succ, List.cons_append, Cursor.skipFrom, if_neg (by decide), ← ticks,
      skipFrom_ticks n (column + 1) t, Nat.add_assoc, Nat.add_comm 1 n]

variable {lang : Text} (h : Begins n lang)

include h

theorem openBlock?_ticks (situation : Situation) :
    openBlock? situation ⟨⟨{ kind := .document }, [], [], {}⟩, ⟨ticks n ++ lang, 0, false⟩⟩ =
      some ⟨⟨fenceFrame n [], [{ kind := .document }], [], {}⟩, ⟨lang, n, false⟩⟩ := by
  have hfence := fence?_ticks h
  have hskip := skipFrom_ticks n 0 lang
  obtain ⟨rest, hrest⟩ := exists_ticks_append h.long lang
  rw [hrest] at hfence hskip ⊢
  have hcontent := content_cons (c := '`') rfl rest 0 false
  have hindent := indent_cons (c := '`') rfl rest 0 false
  have hlength : (Cursor.mk ('`' :: rest) 0 false).indentLength = 0 := rfl
  have hquote : openQuote? ⟨⟨{ kind := .document }, [], [], {}⟩, ⟨'`' :: rest, 0, false⟩⟩ = none := by
    simp [openQuote?, hcontent]
  have hheading : openHeading? ⟨⟨{ kind := .document }, [], [], {}⟩, ⟨'`' :: rest, 0, false⟩⟩ =
      none := by
    simp [openHeading?, hcontent, numberSigns?, runLength]
  have hopen : openFence? ⟨⟨{ kind := .document }, [], [], {}⟩, ⟨'`' :: rest, 0, false⟩⟩ =
      some ⟨⟨fenceFrame n [], [{ kind := .document }], [], {}⟩, ⟨lang, n, false⟩⟩ := by
    have hcursor : (Cursor.mk ('`' :: rest) 0 false).skip (0 + n) = ⟨lang, n, false⟩ := by
      rw [Nat.zero_add, Cursor.skip, hskip, Nat.zero_add]
    rw [openFence?, hcontent, hfence, Option.map_some]
    dsimp only
    rw [hlength, hcursor]
    rfl
  rw [openBlock?, if_pos (by rw [hindent]; decide), hquote, hheading, hopen]
  rfl

omit h in
theorem noteBlank_fenceFrame (text : Text) (blank : Bool) :
    (Site.mk (fenceFrame n text) [{ kind := .document }] [] {}).noteBlank number blank =
      ⟨fenceFrame n text, [{ kind := .document }], [], {}⟩ := by
  cases blank <;> rfl

theorem addLine_begins :
    ({} : Reading).addLine number (ticks n ++ lang) = inFence n (lang ++ ['\n']) := by
  have hopen : ∀ k situation, openBlocks situation (k + 1)
      ⟨⟨{ kind := .document }, [], [], {}⟩, ⟨ticks n ++ lang, 0, false⟩⟩ =
        ⟨⟨fenceFrame n [], [{ kind := .document }], [], {}⟩, ⟨lang, n, false⟩⟩ := by
    intro k situation
    rw [openBlocks, openBlock?_ticks h]
    rfl
  unfold Reading.addLine
  simp only [List.reverse_cons, List.reverse_nil, List.nil_append, continueFrames,
    Frame.Kind.continuation, List.isEmpty_nil, hopen, noteBlank_fenceFrame]
  rfl

omit h in
/-- A line that does not close the fence is a line of the code as it stands. -/
theorem addLine_within {line : Text} (hline : closesFence '`' n (line.dropWhile isIndent) = false)
    (text : Text) :
    (inFence n text).addLine number line = inFence n (text ++ (line ++ ['\n'])) := by
  have hskip : (Cursor.mk line 0 false).skipIndent 0 = ⟨line, 0, false⟩ := by
    rw [Cursor.skipIndent, Nat.zero_min]
    cases line <;> rfl
  have hcontinue : continueFrames line.isEmpty [] ⟨line, 0, false⟩
      [{ kind := .document }, fenceFrame n text] =
        ⟨[fenceFrame n text, { kind := .document }], [], ⟨line, 0, false⟩, false⟩ := by
    simp only [continueFrames, Frame.Kind.continuation, fenceFrame, Cursor.content, hline,
      Bool.and_false, Bool.false_eq_true, if_false, hskip]
  have hopen : ∀ k situation, openBlocks situation (k + 1)
      ⟨⟨fenceFrame n text, [{ kind := .document }], [], {}⟩, ⟨line, 0, false⟩⟩ =
        ⟨⟨fenceFrame n text, [{ kind := .document }], [], {}⟩, ⟨line, 0, false⟩⟩ :=
    fun k situation => rfl
  unfold Reading.addLine
  simp only [inFence, List.reverse_cons, List.reverse_nil, List.nil_append, List.cons_append,
    hcontinue, hopen, noteBlank_fenceFrame]
  rfl

omit h in
theorem addLine_closes (hlong : 3 ≤ n) (text : Text) :
    (inFence n text).addLine number (ticks n) =
      ⟨{ kind := .document
         done := [{ part := .block (.fence (splitInfo text).1 (splitInfo text).2) }] }, [], {}⟩ := by
  have hcloses := closesFence_ticks hlong
  obtain ⟨rest, hrest⟩ := exists_ticks_append hlong []
  rw [List.append_nil] at hrest
  rw [hrest] at hcloses ⊢
  have hcontinue : continueFrames false [] ⟨'`' :: rest, 0, false⟩
      [{ kind := .document }, fenceFrame n text] =
        ⟨[fenceFrame n text, { kind := .document }], [], ⟨'`' :: rest, 0, false⟩, true⟩ := by
    simp only [continueFrames, Frame.Kind.continuation, fenceFrame,
      content_cons (c := '`') rfl, indent_cons (c := '`') rfl, hcloses]
    rfl
  unfold Reading.addLine
  simp only [inFence, List.reverse_cons, List.reverse_nil, List.nil_append, List.cons_append,
    List.isEmpty_cons, hcontinue]
  rfl

omit h in
theorem addLines_within : ∀ {lines : List Text} (number : Nat) (text : Text),
    (∀ line ∈ lines, closesFence '`' n (line.dropWhile isIndent) = false) → ∀ rest : List Text,
      (inFence n text).addLines number (lines ++ rest) =
        (inFence n (text ++ linesText lines)).addLines (number + lines.length) rest
  | [], number, text, _, rest => by simp [linesText]
  | line :: lines, number, text, h, rest => by
    obtain ⟨hline, hlines⟩ := List.forall_mem_cons.1 h
    have htext : text ++ (line ++ ['\n']) ++ linesText lines = text ++ linesText (line :: lines) := by
      simp [linesText]
    rw [List.cons_append, Reading.addLines, addLine_within number hline,
      addLines_within (number + 1) _ hlines rest, htext, List.length_cons, Nat.add_assoc,
      Nat.add_comm 1]

end Lines

section Documents

variable {n : Nat} {lang : Text} {lines : List Text}

/-- The information that is read where a text stands behind a fence. -/
def infoOf (t : Text) : Text :=
  (splitInfo (t.map readAs ++ ['\n'])).1

theorem sourceLines_go_readAs : ∀ {line : Text} (begun : Bool),
    (∀ c ∈ line, c ≠ '\n' ∧ c ≠ '\r') → ∀ rest : Text,
      sourceLines.go begun (line ++ '\n' :: rest) = line.map readAs :: sourceLines.go false rest
  | [], begun, _, rest => by
    rw [List.nil_append, sourceLines.go]
    · rfl
    · simp
  | c :: line, begun, h, rest => by
    obtain ⟨h1, h2⟩ := h c List.mem_cons_self
    have ih := sourceLines_go_readAs true (fun d hd => h d (List.mem_cons_of_mem _ hd)) rest
    rw [List.cons_append, sourceLines.go, ih]
    · simp [h1, h2, readAs]
    · simp [h2]

theorem splitInfo_line {t : Text} (ht : '\n' ∉ t) (rest : Text) :
    splitInfo (t ++ '\n' :: rest) = ((splitInfo (t ++ ['\n'])).1, rest) := by
  simp [splitInfo, Text.takeWhile_ne_append ht, Text.dropWhile_ne_append ht]

theorem readAs_eq_self {c : Char} (h : c.toNat ≠ 0) : readAs c = c := by
  simp [readAs, h]

theorem readAs_ne {c d : Char} (hd : d ≠ Char.ofNat 0xFFFD) (h : c ≠ d) : readAs c ≠ d := by
  unfold readAs
  split_ifs
  · exact hd.symm
  · exact h

theorem decodeEntities_of_not_mem : ∀ {t : Text}, '&' ∉ t → decodeEntities 0 t = t
  | [], _ => rfl
  | c :: t, h => by
    have hc : (c == '&') = false := beq_false_of_ne fun he => h (he ▸ List.mem_cons_self)
    have ih := decodeEntities_of_not_mem fun hmem => h (List.mem_cons_of_mem c hmem)
    rw [decodeEntities, hc, if_neg Bool.false_ne_true, ih]

theorem unescape_of_not_mem {t : Text} (h : '\\' ∉ t) : unescape t = t := by
  fun_induction unescape t with
  | case1 c rest hc ih => exact absurd List.mem_cons_self h
  | case2 c rest hc ih => exact absurd List.mem_cons_self h
  | case3 c rest hc ih => rw [ih fun hmem => h (List.mem_cons_of_mem c hmem)]
  | case4 => rfl

/-- Behind a fence a word stands for itself unless it has an ampersand, a backslash or a null
character. -/
theorem infoOf_eq_self {t : Text} (hblank : ∀ c ∈ t, isBlank c = false) (hreference : '&' ∉ t)
    (hescape : '\\' ∉ t) (hnull : '\x00' ∉ t) : infoOf t = t := by
  have hread : t.map readAs = t.map id :=
    List.map_congr_left fun c hc => readAs_eq_self (toNat_ne fun he => hnull (he ▸ hc))
  have hline : '\n' ∉ t := fun hn => ne_of_not_isBlank (hblank _ hn) rfl rfl
  have htake : (t ++ ['\n']).takeWhile (· != '\n') = t := Text.takeWhile_ne_append hline []
  rw [infoOf, hread, List.map_id, splitInfo, htake, decodeEntities_of_not_mem hreference,
    trimSpace_of_not_isSpace fun c hc => isSpace_of_not_isBlank (hblank c hc),
    unescape_of_not_mem hescape]

theorem readBlocks_fence (h : Begins n lang) (hlang : ∀ c ∈ lang, c ≠ '\n' ∧ c ≠ '\r')
    (hclean : ∀ line ∈ lines, IsClean line)
    (hlines : ∀ line ∈ lines, closesFence '`' n (line.dropWhile isIndent) = false) :
    readBlocks (ticks n ++ lang ++ '\n' :: linesText (lines ++ [ticks n])) =
      ([.fence (infoOf lang) (linesText lines)], {}) := by
  have hbegins : Begins n (lang.map readAs) := by
    refine ⟨h.long, fun hmem => ?_⟩
    obtain ⟨c, hc, he⟩ := List.mem_map.1 hmem
    exact readAs_ne (by decide) (fun htick : c = '`' => h.no_tick (htick ▸ hc)) he
  have hn : '\n' ∉ lang.map readAs := by
    rintro hmem
    obtain ⟨c, hc, he⟩ := List.mem_map.1 hmem
    exact readAs_ne (by decide) (hlang c hc).1 he
  have hticks : IsClean (ticks n) := by
    intro c hc
    obtain ⟨-, rfl⟩ := List.mem_replicate.1 hc
    decide
  have hfirst : ∀ c ∈ ticks n ++ lang, c ≠ '\n' ∧ c ≠ '\r' := by
    intro c hc
    rcases List.mem_append.1 hc with hc | hc
    · exact ⟨(hticks c hc).1, (hticks c hc).2.1⟩
    · exact hlang c hc
  have hfence : (ticks n ++ lang).map readAs = ticks n ++ lang.map readAs := by
    have hself : (ticks n).map readAs = (ticks n).map id :=
      List.map_congr_left fun c hc => readAs_eq_self (hticks c hc).2.2
    rw [List.map_append, hself, List.map_id]
  have hrest : sourceLines.go false (linesText (lines ++ [ticks n])) = lines ++ [ticks n] := by
    refine sourceLines_linesText fun line hl => ?_
    rcases List.mem_append.1 hl with hl | hl
    · exact hclean line hl
    · rwa [List.mem_singleton.1 hl]
  have hmark : dropByteOrderMark ((ticks n ++ lang.map readAs) :: (lines ++ [ticks n])) =
      (ticks n ++ lang.map readAs) :: (lines ++ [ticks n]) := by
    obtain ⟨rest, he⟩ := exists_ticks_append h.long (lang.map readAs)
    rw [he]
    rfl
  rw [readBlocks_eq_finish, sourceLines, sourceLines_go_readAs false hfirst, hfence, hrest, hmark,
    Reading.addLines, addLine_begins 1 hbegins, addLines_within 2 _ hlines, Reading.addLines,
    addLine_closes _ h.long, Reading.addLines, List.append_assoc, List.singleton_append,
    splitInfo_line hn]
  rfl

/-- A fence, lines that do not close it and the same fence again are fenced code and nothing
else. -/
theorem tokenize_fence (h : Begins n lang) (hlang : ∀ c ∈ lang, c ≠ '\n' ∧ c ≠ '\r')
    (hclean : ∀ line ∈ lines, IsClean line)
    (hlines : ∀ line ∈ lines, closesFence '`' n (line.dropWhile isIndent) = false) :
    tokenize (ticks n ++ lang ++ '\n' :: linesText (lines ++ [ticks n])) =
      [fenceToken (infoOf lang) (linesText lines)] := by
  rw [tokenize, Document.ofText, readBlocks_fence h hlang hclean hlines]
  rfl

end Documents

end TidyMark.Markdown
