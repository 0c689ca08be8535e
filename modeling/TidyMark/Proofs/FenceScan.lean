import TidyMark.Proofs.FenceKept
import TidyMark.Proofs.Separation

/-!
# Fenced code before the scanner

The rules choose the fence of code by its longest run of backticks, and the scanner of the expander
has a fence of its own to keep track of. The two agree: the fence that is written opens one for the
scanner (`step_opening`), no line of the code closes it, whatever it holds (`step_inside`), and the
fence below the code does (`step_closing`). So a fenced block is code from its first line to its
last one, and what follows is scanned as at the start of a text, save that no blank line stands
before it (`mark_fencedLines`).
-/

namespace TidyMark

open Text Reflink Render

section Block

/-- Whether a token is written as fenced code. -/
def Token.isFenced (t : Token) : Bool :=
  t.kind == .leaf .fence || t.kind == .leaf .code && t.block

/-- What stands behind the opening fence of a token. -/
def Token.fenceLanguage (t : Token) : Text :=
  if t.kind == .leaf .fence then language t.params else []

/-- The block that is written for a token of fenced code, from its opening fence to the end of its
closing one. -/
def Token.fencedBlock (t : Token) : Text :=
  let body := trimLineFeeds t.content
  fenceFor body ++ t.fenceLanguage ++ '\n' :: (body ++ '\n' :: fenceFor body)

/-- The lines of fenced code, both fences included. -/
def fencedLines (lang body : Text) : List Text :=
  (fenceFor body ++ lang) :: (splitLines body ++ [fenceFor body])

end Block

namespace Reflink

section Scanning

variable {n : Nat} {line lang : Text} {region : Region}

/-- What the scanner knows inside a fence of `n` backticks that stands below no list. -/
def insideFence (n : Nat) (afterBlank : Bool) : Region :=
  { fence := some ('`', n), afterBlank }

theorem ofLine?_ticks (hn : 3 ≤ n) (hlang : lang.head? ≠ some '`') :
    FenceMark.ofLine? (ticks n ++ lang) = some ⟨'`', n, lang⟩ := by
  obtain ⟨rest, hrest⟩ := Markdown.exists_ticks_append hn lang
  have htake : ('`' :: rest).takeWhile (· == '`') = ticks n := by
    rw [← hrest]
    exact takeWhile_replicate_append n hlang
  have hdrop : ('`' :: rest).dropWhile (· == '`') = lang := by
    rw [← hrest]
    exact dropWhile_replicate_append n hlang
  have hlength : (ticks n).length = n := List.length_replicate ..
  rw [hrest, FenceMark.ofLine?, List.takeWhile_cons_of_neg (by decide),
    List.dropWhile_cons_of_neg (by decide)]
  dsimp only
  rw [htake, hdrop, hlength]
  simp [hn]

/-- A line whose first run of backticks is shorter closes no fence. -/
theorem closesFence_of_runLength_lt
    (h : Markdown.runLength '`' (line.dropWhile (· == ' ')) < n) :
    closesFence ('`', n) line = false := by
  unfold closesFence FenceMark.ofLine?
  split_ifs
  · rfl
  dsimp only
  cases hline : line.dropWhile (· == ' ') with
  | nil => rfl
  | cons c rest =>
    rw [hline, Markdown.runLength] at h
    dsimp only
    split_ifs
    · by_cases hc : c = '`'
      · subst hc
        dsimp only
        rw [decide_eq_false (Nat.not_le.2 h), Bool.and_false, Bool.false_and]
      · simp [hc]
    · rfl

theorem allBlank_ticks (hn : 3 ≤ n) (lang : Text) : (ticks n ++ lang).allBlank = false := by
  obtain ⟨rest, hrest⟩ := Markdown.exists_ticks_append hn lang
  rw [hrest]
  rfl

theorem indentWidth_ticks (hn : 3 ≤ n) (lang : Text) : indentWidth (ticks n ++ lang) = 0 := by
  obtain ⟨rest, hrest⟩ := Markdown.exists_ticks_append hn lang
  rw [hrest]
  rfl

theorem step_opening (hn : 3 ≤ n) (hlang : lang.head? ≠ some '`') :
    Region.step {} (ticks n ++ lang) = (true, insideFence n false) := by
  simp [Region.step, Region.classify, insideFence, allBlank_ticks hn, indentWidth_ticks hn,
    ofLine?_ticks hn hlang]

theorem step_inside (h : closesFence ('`', n) line = false) (afterBlank : Bool) :
    (insideFence n afterBlank).step line = (true, insideFence n line.allBlank) := by
  simp [Region.step, Region.classify, insideFence, h]

theorem step_closing (hn : 3 ≤ n) (afterBlank : Bool) :
    (insideFence n afterBlank).step (ticks n) = (true, { afterBlank := false }) := by
  have hmark : FenceMark.ofLine? (ticks n ++ []) = _ := ofLine?_ticks hn (by simp)
  have hblank := allBlank_ticks hn []
  rw [List.append_nil] at hmark hblank
  have hcloses : closesFence ('`', n) (ticks n) = true := by
    simp [closesFence, hmark, allBlank]
  simp [Region.step, Region.classify, insideFence, hcloses, hblank]

theorem mark_append (ps qs : List Text) : ∀ region : Region,
    Line.mark region (ps ++ qs) = Line.mark region ps ++ Line.mark (region.after ps) qs := by
  induction ps with
  | nil => exact fun _ => rfl
  | cons p ps ih =>
    intro region
    exact congrArg (List.cons _) (ih (region.step (lineText p)).2)

/-- Lines that do not close the fence leave it open and are code. -/
theorem mark_inside : ∀ {ps : List Text}, (∀ p ∈ ps, closesFence ('`', n) (lineText p) = false) →
    ∀ afterBlank : Bool, (∀ l ∈ Line.mark (insideFence n afterBlank) ps, l.inCode = true) ∧
      ∃ afterBlank', (insideFence n afterBlank).after ps = insideFence n afterBlank'
  | [], _, afterBlank => ⟨by simp [Line.mark], afterBlank, rfl⟩
  | p :: ps, h, afterBlank => by
    obtain ⟨hp, hps⟩ := List.forall_mem_cons.1 h
    obtain ⟨hcode, hafter⟩ := mark_inside hps (lineText p).allBlank
    have hstep := step_inside hp afterBlank
    rw [Line.mark, Region.after, List.foldl_cons, hstep]
    exact ⟨List.forall_mem_cons.2 ⟨rfl, hcode⟩, hafter⟩

/-- A line with a fence ends where it is written to end. -/
theorem lineText_ticks (hlang : ∀ c ∈ lang, isBlank c = false) :
    lineText (ticks n ++ lang ++ ['\n']) = ticks n ++ lang := by
  have hmem : ∀ c ∈ ticks n ++ lang, isBlank c = false := List.forall_mem_append.2
    ⟨fun c hc => by rw [List.eq_of_mem_replicate hc]; decide, hlang⟩
  refine IsLine.lineText_append ⟨fun h => ?_, fun h => ?_, [], by simp, .inr rfl⟩
  · cases hmem _ h
  · cases hmem _ (List.mem_of_getLast? h)

/-- A line of a text that is written above a longer fence does not close it. -/
theorem closesFence_of_mem {body : Text} (hn : longestTicks 0 body < n) {l : Text}
    (hl : l ∈ splitLines body) : closesFence ('`', n) (lineText (l ++ ['\n'])) = false := by
  have hbody : longestTicks 0 (Markdown.linesText (splitLines body)) < n := by
    rwa [linesText_splitLines, longestTicks_newline]
  have hline : lineText l <:+: l :=
    ((dropEndWhile_initial (· == '\r') _).trans (dropEndWhile_initial (· == '\n') l)).isInfix
  have hinfix := (List.dropWhile_suffix (· == ' ')).isInfix.trans
    (hline.trans (infix_linesText hl))
  rw [lineText_append_newline (newline_not_mem_of_mem_splitLines hl)]
  exact closesFence_of_runLength_lt ((runLength_le_of_isInfix hinfix).trans_lt hbody)

theorem mark_fencedLines (body : Text) (hlang : ∀ c ∈ lang, isBlank c = false)
    (htick : lang.head? ≠ some '`') :
    (∀ l ∈ Line.mark {} ((fencedLines lang body).map (· ++ ['\n'])), l.inCode = true) ∧
      Region.after {} ((fencedLines lang body).map (· ++ ['\n'])) = { afterBlank := false } := by
  obtain ⟨n, hfence, hn, hlong⟩ : ∃ n, fenceFor body = ticks n ∧ 3 ≤ n ∧ longestTicks 0 body < n :=
    ⟨_, rfl, Nat.le_max_left _ _, Nat.lt_of_succ_le (Nat.le_max_right _ _)⟩
  have hfirst := lineText_ticks (n := n) hlang
  have hlast : lineText (ticks n ++ [] ++ ['\n']) = _ := lineText_ticks (by simp)
  rw [List.append_nil] at hlast
  have hinside : ∀ p ∈ (splitLines body).map (· ++ ['\n']),
      closesFence ('`', n) (lineText p) = false :=
    List.forall_mem_map.2 fun l hl => closesFence_of_mem hlong hl
  obtain ⟨hcode, afterBlank, hafter⟩ := mark_inside hinside false
  have hopen := step_opening hn htick
  have hclose := step_closing hn afterBlank
  have hpieces : (fencedLines lang body).map (· ++ ['\n']) = (ticks n ++ lang ++ ['\n']) ::
      ((splitLines body).map (· ++ ['\n']) ++ [ticks n ++ ['\n']]) := by
    rw [fencedLines, hfence, List.map_cons, List.map_append]
    rfl
  rw [hpieces]
  constructor
  · rw [Line.mark, hfirst, hopen]
    dsimp only
    rw [mark_append, hafter, Line.mark, hlast, hclose, List.forall_mem_cons, List.forall_mem_append]
    exact ⟨rfl, hcode, by simp [Line.mark]⟩
  · rw [Region.after, List.foldl_cons, hfirst, hopen, List.foldl_append]
    rw [Region.after] at hafter
    rw [hafter, List.foldl_cons, hlast, hclose]
    rfl

end Scanning

end Reflink

section Rendering

variable {setting : Setting} {state : State} {s : Sight} {t : Token}

theorem linesText_fencedLines (t : Token) :
    Markdown.linesText (fencedLines t.fenceLanguage (trimLineFeeds t.content)) =
      t.fencedBlock ++ ['\n'] := by
  rw [fencedLines, Markdown.linesText_cons, linesText_splitLines_concat, Token.fencedBlock]
  simp

theorem newline_not_mem_fencedLines {lang body : Text} (hlang : '\n' ∉ lang) :
    ∀ l ∈ fencedLines lang body, '\n' ∉ l := by
  have hfence : '\n' ∉ fenceFor body := fun h => absurd (List.eq_of_mem_replicate h) (by decide)
  intro l hl
  rcases List.mem_cons.1 hl with rfl | hl
  · exact fun h => (List.mem_append.1 h).elim hfence hlang
  · rcases List.mem_append.1 hl with hl | hl
    · exact newline_not_mem_of_mem_splitLines hl
    · rwa [List.mem_singleton.1 hl]

theorem isBlank_of_mem_fenceLanguage (t : Token) : ∀ c ∈ t.fenceLanguage, isBlank c = false := by
  unfold Token.fenceLanguage
  split_ifs
  · exact isBlank_of_mem_language t.params
  · simp

theorem rule_of_isFenced (h : s.token.isFenced = true) :
    (rule setting state s).2 = '\n' :: (s.token.fencedBlock ++ '\n' :: breakBefore s.after) := by
  have hfenced : ∀ lang content after, fenced lang content after =
      '\n' :: (fenceFor (trimLineFeeds content) ++ lang ++ '\n' :: (trimLineFeeds content ++
        '\n' :: fenceFor (trimLineFeeds content)) ++ '\n' :: breakBefore after) := by
    simp [fenced]
  simp only [Token.isFenced, Bool.or_eq_true, Bool.and_eq_true, beq_iff_eq] at h
  rcases h with h | ⟨h, hblock⟩
  · have hlang : s.token.fenceLanguage = language s.token.params := by simp [Token.fenceLanguage, h]
    rw [rule, h, Token.fencedBlock, hlang]
    exact hfenced _ _ _
  · have hlang : s.token.fenceLanguage = [] := by simp [Token.fenceLanguage, h]
    rw [rule, h, Token.fencedBlock, hlang]
    dsimp only [leafRule]
    rw [code, if_pos hblock]
    exact hfenced _ _ _

/-- A line that no open fence stands above is code only if it is indented or a fence itself. -/
theorem inCode_of_mem_head? {region : Region} (hfence : region.fence = none)
    (hindented : region.indented = false) {ps : List Text} {l : Line}
    (hl : l ∈ (Line.mark region ps).head?) (hindent : indentWidth l.text < 4)
    (hmark : FenceMark.ofLine? l.text = none) : l.inCode = false := by
  rcases ps with _ | ⟨p, ps⟩
  · cases hl
  · obtain rfl := Option.mem_some.1 hl
    have hclass : region.classify (lineText p) = (false, none, false) := by
      have hindent : ¬4 ≤ indentWidth (lineText p) := Nat.not_le.2 hindent
      have hmark : FenceMark.ofLine? (lineText p) = none := hmark
      rw [classify_eq_not_code]
      simp [hfence, hindented, hindent, hmark]
    exact congrArg Prod.fst hclass

/-- Fenced code is code for the scanner from the line of its opening fence through the line of its
closing one, and the lines behind it are scanned with no fence open. -/
theorem ofSource_fencedBlock (h : s.token.isFenced = true) (htick : '`' ∉ s.token.fenceLanguage) :
    (rule setting state s).2 = '\n' :: (s.token.fencedBlock ++ '\n' :: breakBefore s.after) ∧
      ∀ rest : Text, ∃ code below : List Line,
        Line.ofSource (s.token.fencedBlock ++ '\n' :: rest) = code ++ below ∧
          Line.source code = s.token.fencedBlock ++ ['\n'] ∧ Line.source below = rest ∧
          (∀ l ∈ code, l.inCode = true) ∧
          below = Line.mark { afterBlank := false } rest.pieces ∧
          ∀ l ∈ below.head?, indentWidth l.text < 4 → FenceMark.ofLine? l.text = none →
            l.inCode = false := by
  refine ⟨rule_of_isFenced h, fun rest => ?_⟩
  have hlang := isBlank_of_mem_fenceLanguage s.token
  have hnewline : '\n' ∉ s.token.fenceLanguage := fun hn => absurd (hlang _ hn) (by decide)
  have hhead : s.token.fenceLanguage.head? ≠ some '`' := fun hh =>
    htick (List.mem_of_mem_head? hh)
  obtain ⟨hcode, hafter⟩ := mark_fencedLines (trimLineFeeds s.token.content) hlang hhead
  have hpieces : pieces (s.token.fencedBlock ++ '\n' :: rest) =
      (fencedLines s.token.fenceLanguage (trimLineFeeds s.token.content)).map (· ++ ['\n']) ++
        rest.pieces := by
    have htext : s.token.fencedBlock ++ '\n' :: rest =
        ((fencedLines s.token.fenceLanguage (trimLineFeeds s.token.content)).map
          (· ++ ['\n'])).flatten ++ rest := by
      rw [← List.flatMap_def, ← Markdown.linesText, linesText_fencedLines, List.append_assoc]
      rfl
    rw [htext, pieces_flatten_append]
    exact List.forall_mem_map.2 fun l hl => ⟨l, rfl, newline_not_mem_fencedLines hnewline l hl⟩
  refine ⟨_, _, ?_, ?_, ?_, hcode, rfl, ?_⟩
  · rw [Line.ofSource, hpieces, mark_append, hafter]
  · rw [source_mark, ← linesText_fencedLines, Markdown.linesText, List.flatMap_def]
  · rw [source_mark, flatten_pieces]
  · exact fun l hl hindent hmark => inCode_of_mem_head? rfl rfl hl hindent hmark

/-- Code that would close a shorter fence. -/
theorem ofSource_fencedBlock_ticks :
    ∃ code below : List Line,
      Line.ofSource "````rust\n```\n````\n[a][b]" = code ++ below ∧
        Line.source code = "````rust\n```\n````\n" ∧ Line.source below = "[a][b]" ∧
        (∀ l ∈ code, l.inCode = true) ∧
        below = Line.mark { afterBlank := false } (pieces "[a][b]") ∧
        ∀ l ∈ below.head?, indentWidth l.text < 4 → FenceMark.ofLine? l.text = none →
          l.inCode = false :=
  (@ofSource_fencedBlock (.ofOptions {}) {}
    ⟨[], { kind := .leaf .fence, params := "rust", content := "```\n" }, [], 0⟩ rfl
    (by decide)).2 "[a][b]"

end Rendering

end TidyMark
