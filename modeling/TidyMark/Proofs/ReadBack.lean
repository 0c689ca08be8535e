import TidyMark.Proofs.Course

/-!
# Escaped text read back

An escaped text is read on course (`Course.step`, `Course.read`): marks that stay as they are can do
nothing, by what stands beside them. At the end no run is paired, a footnote reference without a
footnote is text again, and what was one text is one text (`tokenize_render_text`). For this the
text must be covered (`Covers`): two pairs of tildes are not, and what stands between them is struck
out (`not_forall_tokenize_render_text`).
-/

namespace TidyMark

namespace Markdown

open Escape

section Steps

variable {t : Text} {notes : List Bool} {r : Reader} {before done rest : Text} {c : Char}

section Alone

/-- A mark that can neither open nor close anything is text. -/
theorem advances_idle (h : Course t notes r before done (c :: rest)) (hc : c = '*' ∨ c = '_')
    (he : needsEscape .plain 0 done.head? c rest = false) (hrest : rest.head? ≠ some c)
    (hidle : ((Run.read c 1 done rest).canOpen || (Run.read c 1 done rest).canClose) = false) :
    Advances t r before done (c :: rest) := by
  have hplain : c ≠ '\\' ∧ c ∈ ['~', '^', '*', '_'] ∧ isSpecial r.inBrackets c = true ∧
      isDelimiter r.inBrackets c = false ∧ c ≠ ']' ∧ c ≠ '[' ∧ c ≠ '~' := by
    rcases hc with rfl | rfl <;> simp [isSpecial, isDelimiter]
  obtain ⟨hbackslash, hrun, hspecial, hd, hclose, hopen, htilde⟩ := hplain
  have hpiece : (Run.read c 1 done rest).piece = .node (.text [c]) := by
    obtain ⟨hchar, hcount⟩ := char_count_read c 1 done rest
    rw [Run.piece, hidle, Bool.false_and, if_neg Bool.false_ne_true, Run.text, hchar, hcount]
    rfl
  have hstep := @readRun_replicate r before c 0 _ (head?_inLine_ne hbackslash hrest (some c))
  rw [List.replicate_zero, List.nil_append, read_inLine h.flanked, hpiece] at hstep
  exact advances_alone h he ((step_run hrun hspecial).trans hstep) hd hclose hopen htilde

theorem flank_of_head? {u : Text} {d : Char} (hd : u.head? = some d) (htilde : d ≠ '~') :
    flank u = d := by
  rcases u with _ | ⟨c, u⟩
  · cases hd
  · cases hd
    exact flank_cons htilde u

/-- A run between white space can do nothing. -/
theorem idle_of_isBlank {n : Nat} (hbefore : isBlank (flank done) = true)
    (hafter : isBlank (flank rest) = true) :
    ((Run.read c n done rest).canOpen || (Run.read c n done rest).canClose) = false := by
  unfold Run.read
  simp only [hbefore, hafter]
  split_ifs <;> rfl

theorem advances_asterisk (h : Course t notes r before done ('*' :: rest))
    (he : needsEscape .plain 0 done.head? '*' rest = false) :
    Advances t r before done ('*' :: rest) := by
  have hspaced : done.head?.any isBlank = true ∧ rest.head?.any isBlank = true := by
    simpa [needsEscape] using he
  obtain ⟨⟨b, hb, hbefore⟩, ⟨a, ha, hafter⟩⟩ :=
    hspaced.imp (Option.any_eq_true _ _).1 (Option.any_eq_true _ _).1
  have hne : ∀ {d e : Char}, isBlank d = true → isBlank e = false → d ≠ e := by
    rintro d _ hd he rfl
    rw [hd] at he
    cases he
  refine advances_idle h (.inl rfl) he ?_ (idle_of_isBlank ?_ ?_)
  · rw [ha]
    exact fun hs => hne hafter (by decide) (Option.some.inj hs)
  · rwa [flank_of_head? hb (hne hbefore (by decide))]
  · rwa [flank_of_head? ha (hne hafter (by decide))]

/-- A character that stays is not misread. -/
theorem Course.isMisread_eq_false (h : Course t notes r before done (c :: rest))
    (he : needsEscape .plain 0 done.head? c rest = false) :
    isMisread done.head? c rest = false := by
  have hreads := h.reads
  rw [misreads, he, Bool.or_eq_false_iff] at hreads
  simpa using hreads.1

theorem advances_underscore (h : Course t notes r before done ('_' :: rest))
    (he : needsEscape .plain 0 done.head? '_' rest = false) :
    Advances t r before done ('_' :: rest) := by
  have hbeside : done.head?.any isBlank = true ∧ rest.head?.any isBlank = true ∨
      done.head?.any isAlphanumeric = true ∧ rest.head?.any isAlphanumeric = true := by
    simpa [needsEscape, ← imp_iff_not_or, or_iff_not_imp_left] using he
  have hmarks : ∀ d, d = '~' ∨ d = '_' → isBlank d = false ∧ isAlphanumeric d = false := by
    rintro d (rfl | rfl) <;> decide
  obtain ⟨b, a, hb, ha, htilde, hmark⟩ : ∃ b a, done.head? = some b ∧ rest.head? = some a ∧
      b ≠ '~' ∧ a ≠ '_' := by
    simp only [Option.any_eq_true] at hbeside
    obtain ⟨⟨b, hb, hbefore⟩, ⟨a, ha, hafter⟩⟩ | ⟨⟨b, hb, hbefore⟩, ⟨a, ha, hafter⟩⟩ := hbeside
    · refine ⟨b, a, hb, ha, fun hd => ?_, fun hd => ?_⟩
      · rw [(hmarks b (.inl hd)).1] at hbefore
        cases hbefore
      · rw [(hmarks a (.inr hd)).1] at hafter
        cases hafter
    · refine ⟨b, a, hb, ha, fun hd => ?_, fun hd => ?_⟩
      · rw [(hmarks b (.inl hd)).2] at hbefore
        cases hbefore
      · rw [(hmarks a (.inr hd)).2] at hafter
        cases hafter
  have hflank : flank done = flank done.head?.toList := by
    rw [flank_of_head? hb htilde, hb]
    exact (flank_cons htilde []).symm
  have hread : Run.read '_' 1 done rest = Run.read '_' 1 done.head?.toList rest := by
    unfold Run.read
    rw [hflank]
  refine advances_idle h (.inr rfl) he ?_ (hread ▸ h.isMisread_eq_false he)
  rw [ha]
  exact fun hs => hmark (Option.some.inj hs)

/-- A backslash is text before anything but punctuation. -/
theorem advances_backslash (h : Course t notes r before done ('\\' :: rest))
    (he : needsEscape .plain 0 done.head? '\\' rest = false) :
    Advances t r before done ('\\' :: rest) := by
  have hnext : ∃ d rest', rest = d :: rest' ∧ isAsciiPunctuation d = false := by
    rcases rest with _ | ⟨d, rest⟩
    · simp [needsEscape] at he
    · exact ⟨d, rest, rfl, by simpa [needsEscape] using he⟩
  obtain ⟨d, rest', rfl, hd⟩ := hnext
  have hplain : d ∉ escapable := by
    intro hm
    have hmarks : escapable.all isAsciiPunctuation = true := by decide
    rw [List.all_eq_true.1 hmarks d hm] at hd
    cases hd
  have hline : d ≠ '\n' := by
    rintro rfl
    exact h.one_line (by simp)
  refine advances_alone h he ?_ (by simp [isDelimiter]) (by decide) (by decide) (by decide)
  rw [inLine_cons_of_not (needsEscape_eq_false hplain)]
  unfold Reader.step
  simp [isSpecial, readBackslash, hd, hline]

theorem advances_ampersand (h : Course t notes r before done ('&' :: rest))
    (he : needsEscape .plain 0 done.head? '&' rest = false) :
    Advances t r before done ('&' :: rest) := by
  have hentity : entity? (inLine (some '&') rest) = none := by
    rw [← Option.not_isSome_iff_eq_none, Bool.not_eq_true]
    exact h.isMisread_eq_false he
  refine advances_alone h he ?_ (by simp [isDelimiter]) (by decide) (by decide) (by decide)
  unfold Reader.step
  simp [isSpecial, hentity]

/-- Neither an address nor raw HTML begins behind a less-than sign that is not escaped. -/
theorem advances_angle (h : Course t notes r before done ('<' :: rest))
    (he : needsEscape .plain 0 done.head? '<' rest = false) :
    Advances t r before done ('<' :: rest) := by
  have hmail : autolinkMail? (inLine (some '<') rest) = none := by
    rw [← Option.not_isSome_iff_eq_none, Bool.not_eq_true]
    exact h.isMisread_eq_false he
  have hnext : ∀ d ∈ (inLine (some '<') rest).head?,
      (d.isAlpha || d == '/' || d == '!' || d == '?') = false := by
    intro d hd
    rcases head?_inLine (some '<') rest with hw | ⟨hw, -⟩
    · have hnone : rest.head?.any (fun d => d.isAlpha || d == '/' || d == '!' || d == '?') =
          false := he
      rw [← hw, hd] at hnone
      exact hnone
    · rw [hw] at hd
      cases hd
      decide
  have hangle : readAngle r (inLine (some '<') rest) = (1, r.add (.text ['<'])) := by
    rcases hw : inLine (some '<') rest with _ | ⟨d, w⟩
    · rfl
    · have hd := hnext d (by rw [hw]; rfl)
      simp only [Bool.or_eq_false_iff, beq_eq_false_iff_ne] at hd
      obtain ⟨⟨⟨halpha, hslash⟩, hexclamation⟩, hquestion⟩ := hd
      have hurl : autolinkUrl? (d :: w) = none := by
        simp [autolinkUrl?, halpha]
      have hraw : rawHtml r.unended (d :: w) = .nothing := by
        unfold rawHtml
        split
        · next he => exact absurd (List.cons.inj he).1 hexclamation
        · next he => exact absurd (List.cons.inj he).1 hquestion
        · simp [RawHtml.ofOption, tag?, openTag?, tagName?, closeTag?, halpha, hslash]
      rw [hw] at hmail
      unfold readAngle
      rw [hurl, hmail, hraw]
  refine advances_alone h he ?_ (by simp [isDelimiter]) (by decide) (by decide) (by decide)
  unfold Reader.step
  rw [if_neg (by simp [isSpecial])]
  exact hangle

/-- An exclamation mark is text unless a bracket behind it opens an image. -/
theorem step_exclamation {w : Text}
    (hw : ∀ after, w = '[' :: after → after.head? = some '^') :
    r.step {} before '!' w = (1, r.add (.text ['!'])) := by
  unfold Reader.step
  rw [if_neg (by simp [isSpecial])]
  rcases w with _ | ⟨d, w⟩
  · rfl
  · by_cases hd : d = '['
    · subst hd
      simp [hw w rfl]
    · simp [hd]

theorem advances_exclamation (h : Course t notes r before done ('!' :: rest)) :
    Advances t r before done ('!' :: rest) := by
  have he : needsEscape .plain 0 done.head? '!' rest = false := needsEscape_eq_false (by decide)
  by_cases himage : ∃ after, rest = '[' :: after ∧
      needsEscape .plain 0 (some '!') '[' after = false ∧ after.head? ≠ some '^'
  · obtain ⟨after, rfl, hbracket, hnote⟩ := himage
    exact advances_openImage h hbracket hnote
  · refine advances_alone h he (step_exclamation fun after hw => ?_) (by simp [isDelimiter])
      (by decide) (by decide) (by decide)
    rcases rest with _ | ⟨d, rest⟩
    · cases hw
    · rw [inLine_cons] at hw
      split_ifs at hw with hd
      · cases (List.cons.inj hw).1
      · obtain ⟨rfl, rfl⟩ := List.cons.inj hw
        have hnote : rest.head? = some '^' := by
          by_contra hn
          exact himage ⟨rest, rfl, Bool.eq_false_iff.2 hd, hn⟩
        rcases head?_inLine (some '[') rest with hs | ⟨-, c, hc, hmem⟩
        · exact hs.trans hnote
        · rw [hnote] at hc
          cases hc
          exact absurd hmem (by decide)

end Alone

/-- Whatever is read next, it is read as literal content. -/
theorem Course.step (h : Course t notes r before done (c :: rest)) :
    Advances t r before done (c :: rest) := by
  rcases he : needsEscape .plain 0 done.head? c rest with _ | _
  case true => exact advances_escaped h he
  case false =>
    by_cases hd : isDelimiter r.inBrackets c = true
    · exact advances_run h hd
    by_cases hs : isSpecial r.inBrackets c = true
    · unfold isSpecial at hs
      split at hs
      · exact absurd List.mem_cons_self h.one_line
      · exact advances_underscore h he
      · exact advances_asterisk h he
      · simp [needsEscape] at he
      · exact advances_backslash h he
      · exact advances_ampersand h he
      · exact advances_angle h he
      · exact advances_open h he
      · exact advances_close h
      · exact advances_exclamation h
      · exact absurd (by simp [isDelimiter]) hd
      · exact absurd (by simpa [isDelimiter] using hs) hd
      · cases hs
    · exact advances_text h (Bool.eq_false_iff.2 hs)

/-- On course to the end, what is read is literal content that stands for the text. -/
theorem Course.finish (h : Course t notes r before done []) :
    (∀ x ∈ r.finish, x.isLiteral = true) ∧ r.finish.flatMap Inline.spelled = t := by
  have hfinish : r.finish = r.merged.reverse.map Piece.inline := by
    refine resolve_of_apart (fun run hrun => h.told.counts run ?_) ?_
    · rw [List.filterMap_reverse, List.mem_reverse] at hrun
      exact hrun
    · have hapart := h.told.apart
      rwa [delimiters, List.append_nil] at hapart
  rw [hfinish]
  constructor
  · intro x hx
    obtain ⟨p, hp, rfl⟩ := List.mem_map.1 hx
    exact h.told.literal p (List.mem_reverse.1 hp)
  · rw [List.flatMap_map, ← h.told.spelled, List.append_nil]
    rfl

theorem Course.read (h : Course t notes r before done rest) :
    (∀ x ∈ (r.read {} before 0 (inLine done.head? rest)).finish, x.isLiteral = true) ∧
      (r.read {} before 0 (inLine done.head? rest)).finish.flatMap Inline.spelled = t := by
  induction hn : rest.length using Nat.strongRecOn generalizing notes r before done rest with
  | _ n ih =>
    rcases rest with _ | ⟨c, rest⟩
    · exact h.finish
    · obtain ⟨notes', r', before', done', rest', hlen, hcourse, hread⟩ := h.step
      rw [hread]
      exact ih rest'.length (hn ▸ hlen) hcourse rfl

end Steps

/-- What is covered when it is escaped is read as literal content. -/
theorem read_of_covers {t : Text} (h : Covers t) (hn : '\n' ∉ t) :
    (∀ x ∈ (({} : Reader).read {} [] 0 (inLine none t)).finish, x.isLiteral = true) ∧
      (({} : Reader).read {} [] 0 (inLine none t)).finish.flatMap Inline.spelled = t := by
  have htold : Told t [] t (delimiters false [] t) :=
    ⟨by simp, by simp, rfl, h.delimiters⟩
  have hcourse : Course t [] {} [] [] t := {
    told := htold
    regions := trivial
    flanked := rfl
    fresh := fun _ _ _ hd => by cases hd
    one_line := hn
    reads := h.reads
    brackets := h.brackets }
  exact hcourse.read

section Prose

theorem of_isAlpha {c : Char} (hc : c.isAlpha = true) :
    isLetter c = true ∧ isDigit c = false ∧ c.isDigit = false := by
  have hlt : c.toNat < 128 := by
    have hcase : (decide (c.val ≥ 'A'.val ∧ c.val ≤ 'Z'.val) ||
        (decide (c.val ≥ 'a'.val) && decide (c.val ≤ 'z'.val))) = true := hc
    simp only [Bool.or_eq_true, Bool.and_eq_true, decide_eq_true_eq] at hcase
    have hval : c.toNat = c.val.toNat := rfl
    rw [hval]
    rcases hcase with ⟨-, h⟩ | ⟨-, h⟩ <;>
      exact Nat.lt_of_le_of_lt (UInt32.le_iff_toNat_le.1 h) (by decide)
  have hall : ∀ n < 128, (Char.ofNat n).isAlpha = true → isLetter (Char.ofNat n) = true ∧
      isDigit (Char.ofNat n) = false ∧ (Char.ofNat n).isDigit = false := by
    decide
  have h := hall c.toNat hlt
  rw [Char.ofNat_toNat] at h
  exact h hc

theorem getLast?_inLine : ∀ (before : Option Char) (t : Text),
    (inLine before t).getLast? = t.getLast?
  | _, [] => rfl
  | before, c :: t => by
    have ih := getLast?_inLine (some c) t
    rw [inLine_cons, List.getLast?_cons]
    split_ifs <;> simp [List.getLast?_cons, ih]

variable {c : Char} (hc : c.isAlpha = true) (t : Text)

include hc

theorem inLine_cons_letter (before : Option Char) :
    inLine before (c :: t) = c :: inLine (some c) t := by
  refine inLine_cons_of_not (needsEscape_eq_false fun hm => ?_)
  have hmarks : escapable.all (fun c => !c.isAlpha) = true := by decide
  have hmark := List.all_eq_true.1 hmarks c hm
  rw [hc] at hmark
  cases hmark

/-- A line that begins with a letter opens nothing. -/
theorem escape_cons_letter (lineStart : Bool) :
    escape lineStart (c :: t) = inLine none (c :: t) := by
  obtain ⟨hletter, hdigit, -⟩ := of_isAlpha hc
  have hne : ∀ d, isLetter d = false → c ≠ d := fun d => ne_of_isLetter hletter
  have hordinal : ordinalPlace? (c :: t) = none := by
    simp [ordinalPlace?, hdigit]
  have hopens : opensBlock (c :: t) = false := by
    have h1 := hne '#' (by decide)
    have h2 := hne '>' (by decide)
    have h3 := hne '-' (by decide)
    have h4 := hne '+' (by decide)
    have h5 := hne '=' (by decide)
    have h6 := hne '~' (by decide)
    simp [opensBlock, h1, h2, h3, h4, h5, h6]
  have hplain : Start.ofLine (c :: t) = .plain := by
    rw [Start.ofLine, hordinal, hopens]
    rfl
  rw [escape, hplain, ite_self]
  rfl

theorem isProse_inLine (hlast : ∃ d ∈ (c :: t).getLast?, d.isAlpha = true)
    (hline : ∀ d ∈ c :: t, d ≠ '\n' ∧ d ≠ '\r' ∧ d.toNat ≠ 0) :
    IsProse (inLine none (c :: t)) := by
  obtain ⟨hletter, -, hdigit⟩ := of_isAlpha hc
  have hne : ∀ d, isLetter d = false → c ≠ d := fun d => ne_of_isLetter hletter
  have hcons := inLine_cons_letter hc t none
  refine ⟨⟨c, _, hcons, isBlank_of_isLetter hletter, fun hm => ?_, ?_⟩, fun d hd => ?_,
    fun d hd => ?_,
    isRule_of_letter hletter (by rw [hcons]; exact List.mem_cons_self), ?_⟩
  · have hmarks : blockMarks.all (fun d => !isLetter d) = true := by decide
    have hmark := List.all_eq_true.1 hmarks c hm
    rw [hletter] at hmark
    cases hmark
  · exact toNat_ne (hne _ (by decide +kernel))
  · obtain ⟨e, he, halpha⟩ := hlast
    rw [getLast?_inLine, he] at hd
    cases hd
    exact isBlank_of_isLetter (of_isAlpha halpha).1
  · rcases mem_escapeFrom hd with hd | rfl
    · exact hline d hd
    · decide
  · rw [hcons]
    simp [listMarker?, hne '*' (by decide), hne '-' (by decide), hne '+' (by decide), hdigit]

end Prose

end Markdown

section ReadBack

open Markdown

/-- A text that escaping covers is read back as it is. -/
theorem tokenize_render_text {t : Text} (h : Escape.Covers t)
    (hfirst : ∃ c ∈ t.head?, c.isAlpha = true) (hlast : ∃ c ∈ t.getLast?, c.isAlpha = true)
    (hline : ∀ c ∈ t, c ≠ '\n' ∧ c ≠ '\r' ∧ c.toNat ≠ 0) :
    ∃ r, (render {} (Token.paragraphAt 0 false [.text t])).result = .ok r ∧
      tokenize r.text = Token.paragraphAt 0 false [.text t] := by
  obtain ⟨c, hc, halpha⟩ := hfirst
  rcases t with _ | ⟨c', t⟩
  · cases hc
  cases hc
  have hprose := isProse_inLine halpha t hlast hline
  have hwrites := writes_text (t := c :: t) (writes_nil [{ content := c :: t }])
  rw [escape_cons_letter halpha, List.append_nil] at hwrites
  have hpolish : Render.polish {} (Escape.inLine none (c :: t) ++ ['\n', '\n']) =
      Escape.inLine none (c :: t) ++ ['\n'] := by
    refine polish_append (fun d hd => ⟨(hprose.one_line d hd).1, (hprose.one_line d hd).2.1⟩)
      (fun d hd => ?_) hprose.last (by decide)
    rw [inLine_cons_letter halpha] at hd
    cases hd
    exact isBlank_of_isLetter (of_isAlpha halpha).1
  obtain ⟨hliteral, hspelled⟩ := read_of_covers h fun hn => (hline _ hn).1 rfl
  have htext : Inline.ofText {} (Escape.inLine none (c :: t) ++ ['\n']) =
      (({} : Reader).read {} [] 0 (Escape.inLine none (c :: t))).finish := by
    rw [Inline.ofText, hprose.trimSpaceEnd]
  rw [← htext] at hliteral hspelled
  have htokens : Token.ofInlines [] [.text (c :: t)] = [{ content := c :: t }] := rfl
  have hne : Inline.ofText {} (Escape.inLine none (c :: t) ++ ['\n']) ≠ [] := by
    intro he
    rw [he] at hspelled
    cases hspelled
  refine ⟨_, Render.render_paragraphAt rfl hwrites.1, ?_⟩
  dsimp only
  rw [htokens, hwrites.2, hpolish,
    tokenize_of_isLoneLine hprose.isLoneLine (.inr rfl) (ofBlocks_of_isLiteral hliteral)]
  simp only [Token.paragraphAt, Token.inlineAt, Token.ofInlines_texts _ hne, hspelled, htokens]

/-- Marks of every kind are read back as text. -/
theorem tokenize_render_text_marks : ∃ r,
    (render {} (Token.paragraphAt 0 false
      [.text "a *b* _c_ d_e `f` [g](h) [^i] ![j] <k> <1 \\l \\* & ~m ^n! o"])).result = .ok r ∧
      tokenize r.text = Token.paragraphAt 0 false
        [.text "a *b* _c_ d_e `f` [g](h) [^i] ![j] <k> <1 \\l \\* & ~m ^n! o"] := by
  have hline : ("a *b* _c_ d_e `f` [g](h) [^i] ![j] <k> <1 \\l \\* & ~m ^n! o".toList.all
      fun c => c != '\n' && c != '\r' && c.toNat != 0) = true := by decide
  refine tokenize_render_text (by decide +kernel) ⟨'a', rfl, by decide⟩ ⟨'o', rfl, by decide⟩
    fun c hc => ?_
  simpa [and_assoc] using List.all_eq_true.1 hline c hc

/-- Tildes are not escaped, so two pairs of them strike out what they stand around. -/
theorem not_forall_tokenize_render_text :
    ¬ ∀ t : Text, (∃ c ∈ t.head?, c.isAlpha = true) → (∃ c ∈ t.getLast?, c.isAlpha = true) →
      '\n' ∉ t → ∃ r, (render {} (Token.paragraphAt 0 false [.text t])).result = .ok r ∧
        tokenize r.text = Token.paragraphAt 0 false [.text t] := by
  intro h
  obtain ⟨r, hr, ht⟩ := h "a~~b~~c" ⟨'a', rfl, by decide⟩ ⟨'c', rfl, by decide⟩ (by decide)
  have hrendered : (render {} (Token.paragraphAt 0 false [.text "a~~b~~c"])).result.toOption.map
      (·.text) = some "a~~b~~c\n".toList := by decide +kernel
  have hchildren : (tokenize "a~~b~~c\n").map (·.children.length) ≠
      (Token.paragraphAt 0 false [.text "a~~b~~c"]).map (·.children.length) := by decide +kernel
  have htext : r.text = "a~~b~~c\n".toList := by
    rw [hr] at hrendered
    exact Option.some.inj hrendered
  rw [htext] at ht
  rw [ht] at hchildren
  exact hchildren rfl

end ReadBack

end TidyMark
