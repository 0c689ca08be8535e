import TidyMark.Proofs.Word

/-!
# Rendering what has been rendered

Every rendered document ends in the newline that is asked for and has no other white space at its
ends (`exists_trimmed_of_tidy`), so that at its ends it has its final form. In between it may
change when it is rendered again: emphasis is written with underscores, which a word on one side of
it turns into literal text (`isSettled_emphasis_iff`).
-/

namespace TidyMark

section Trimmed

theorem dropWhile_eq_self_of_prefix {p : Char → Bool} {s t : Text} (h : s <+: t)
    (ht : t.dropWhile p = t) : s.dropWhile p = s := by
  rcases s with _ | ⟨c, s⟩
  · rfl
  · obtain ⟨rest, rfl⟩ := h
    rw [List.cons_append, List.dropWhile_cons] at ht
    split_ifs at ht with hc
    · have hlen := congrArg List.length ht
      have hle := (List.dropWhile_suffix p (l := s ++ rest)).length_le
      simp only [List.length_cons] at hlen
      omega
    · rw [List.dropWhile_cons, if_neg hc]

theorem trim_trim (t : Text) : Text.trim (Text.trim t) = Text.trim t := by
  have hstart : Text.trimStart (Text.trim t) = Text.trim t :=
    dropWhile_eq_self_of_prefix (List.rdropWhile_prefix _ _) (List.dropWhile_idempotent _ _)
  rw [Text.trim, hstart]
  exact List.rdropWhile_idempotent _ _

theorem exists_trimmed_of_render {options : Options} {tokens : List Token} {r : Rendered}
    (h : (render options tokens).result = .ok r) :
    ∃ body, r.text = body ++ options.newline.text ∧ Text.trim body = body := by
  unfold render Render.conclude at h
  dsimp only at h
  split at h
  · cases h
  · split at h
    · cases h
    · split at h
      · cases h
      · cases h
        exact ⟨_, rfl, trim_trim _⟩

/-- A rendered document has no white space at its ends but for its last newline. -/
theorem exists_trimmed_of_tidy {options : Options} {source : Text} {r : Rendered}
    (h : tidy options source = .ok r) :
    ∃ body, r.text = body ++ options.newline.text ∧ Text.trim body = body := by
  unfold tidy at h
  rcases hexp : Reflink.expand options source with e | expanded
  · rw [hexp] at h
    cases h
  · rw [hexp] at h
    exact exists_trimmed_of_render h

end Trimmed

section Emphasis

/-- Whether tokens inside a paragraph write a text, without changing the state. -/
def Writes (before tokens : List Token) (t : Text) : Prop :=
  (Render.walk (.ofOptions {}) {} before 0 false tokens).stopped = none ∧
    (Render.walk (.ofOptions {}) {} before 0 false tokens).written = t

theorem writes_nil (before : List Token) : Writes before [] [] := by
  rw [Writes, Render.walk_nil]
  exact ⟨rfl, rfl⟩

theorem writes_cons {before after : List Token} {t : Token} {written rest : Text}
    (hstep : Render.step (.ofOptions {}) {} before after 0 false t = ⟨{}, t, written, none⟩)
    (hlinks : Render.linksAfter 0 t.kind = 0) (htakes : Render.takesFragment 0 t.kind = false)
    (h : Writes (t :: before) after rest) : Writes before (t :: after) (written ++ rest) := by
  obtain ⟨hstop, hwritten⟩ := h
  rw [Writes, Render.walk_cons hstep rfl, hlinks, htakes]
  refine ⟨hstop, ?_⟩
  rw [Render.Walk.written] at hwritten ⊢
  rw [List.flatMap_cons, hwritten]

theorem writes_text {before after : List Token} {t rest : Text}
    (h : Writes ({ content := t } :: before) after rest) :
    Writes before ({ content := t } :: after)
      (Escape.escape (Render.atLineStart before) t ++ rest) := by
  refine writes_cons ?_ rfl rfl h
  rw [Render.step, if_neg (by decide), Render.stepLeaf]
  rfl

open Markdown (word Inline)

theorem tidy_of_writes {line ending body ends : Text} {content : List Inline}
    (h : Reads line content) (he : ending = [] ∨ ending = ['\n'])
    (hbody : ∀ c ∈ body, isBlank c = false) (hends : ends = [] ∨ ends = ['\n'])
    (hwrites : Writes [] (Token.ofInlines [] content) (body ++ ends)) :
    ∃ report, tidy {} (line ++ ending) = .ok ⟨body ++ ['\n'], report⟩ := by
  have hbreak : ∀ c ∈ body, c ≠ '\n' ∧ c ≠ '\r' := by
    intro c hc
    have hb := hbody c hc
    constructor
    · rintro rfl
      exact absurd hb (by decide)
    · rintro rfl
      exact absurd hb (by decide)
  have hpolish : Render.polish {} (body ++ (ends ++ ['\n', '\n'])) = body ++ ['\n'] := by
    refine polish_append hbreak (fun c hc => hbody c (List.mem_of_head? hc))
      (fun c hc => hbody c (List.mem_of_getLast? hc)) ?_
    rcases hends with rfl | rfl <;> decide
  rw [h.tidy_eq he, Render.render_paragraphAt rfl hwrites.1, hwrites.2, List.append_assoc, hpolish]
  exact ⟨_, rfl⟩

theorem writes_word {u : Text} (hu : u.all isLetter = true) (before : List Token) :
    Writes before (Token.ofInlines [] (word u)) u := by
  rcases u with _ | ⟨c, u⟩
  · exact writes_nil before
  · have h := writes_text (t := c :: u) (writes_nil ({ content := c :: u } :: before))
    rwa [Escape.escape_word _ hu, List.append_nil] at h

theorem writes_emphasis {before after : List Token} {v rest : Text} (hv : v.all isLetter = true)
    (h : ∀ before, Writes before after rest) :
    Writes before (Token.ofInlines after [.emphasis [.text v]])
      ("_" ++ (v ++ (Render.closeMark {} after "_" ++ rest))) := by
  let opening := Token.ofKind (.opening .emphasis)
  let closing := Token.ofKind (.closing .emphasis)
  have htokens : Token.ofInlines after [.emphasis [.text v]] =
      opening :: { content := v } :: closing :: after := rfl
  have hopen : ∀ before after : List Token, Render.step (.ofOptions {}) {} before after 0 false
      opening = ⟨{}, opening, "_", none⟩ := by
    intro before after
    unfold opening
    rw [Token.ofKind, Render.step, if_neg (by decide), Render.stepLeaf]
    rfl
  have hclose : ∀ before : List Token, Render.step (.ofOptions {}) {} before after 0 false
      closing = ⟨{}, closing, Render.closeMark {} after "_", none⟩ := by
    intro before
    unfold closing
    rw [Token.ofKind, Render.step, if_neg (by decide), Render.stepLeaf]
    rfl
  have htext := writes_text (t := v) (writes_cons (hclose ({ content := v } :: opening :: before))
    rfl rfl (h _))
  rw [Escape.escape_word _ hv] at htext
  rw [htokens]
  exact writes_cons (hopen before _) rfl rfl htext

variable {u v w : Text} (hu : u.all isLetter = true) (hv : v.all isLetter = true)
  (hw : w.all isLetter = true) (hne : v ≠ [])

include hu hv hw

theorem writes_emphasized : Writes [] (Token.ofInlines [] (word u ++ .emphasis [.text v] :: word w))
    (marked '_' u v w ++ if w.isEmpty then ['\n'] else []) := by
  have hend : Render.closeMark {} (Token.ofInlines [] (word w)) "_" ++ w =
      '_' :: w ++ if w.isEmpty then ['\n'] else [] := by
    rcases w with _ | ⟨c, w⟩
    · rfl
    · simp [Render.closeMark, Token.ofInlines, word, Token.ofInline, Token.consText,
        Render.following?]
  have hemphasis : ∀ before, Writes before
      (Token.ofInlines (Token.ofInlines [] (word w)) [.emphasis [.text v]])
        ("_" ++ (v ++ ('_' :: w ++ if w.isEmpty then ['\n'] else []))) := by
    intro before
    rw [← hend]
    exact writes_emphasis hv (writes_word hw)
  rcases u with _ | ⟨c, u⟩
  · have htokens : Token.ofInlines [] (word [] ++ .emphasis [.text v] :: word w) =
        Token.ofInlines (Token.ofInlines [] (word w)) [.emphasis [.text v]] := rfl
    rw [htokens]
    simpa [marked] using hemphasis []
  · have h := writes_text (t := c :: u) (hemphasis [{ content := c :: u }])
    have htokens : Token.ofInlines [] (word (c :: u) ++ .emphasis [.text v] :: word w) =
        { content := c :: u } ::
          Token.ofInlines (Token.ofInlines [] (word w)) [.emphasis [.text v]] := rfl
    rw [Escape.escape_word _ hu] at h
    rw [htokens]
    simpa [marked] using h

theorem no_bracket_marked {m : Char} (hm : m = '*' ∨ m = '_') : '[' ∉ marked m u v w := fun h =>
  Markdown.ne_of_mem_marked hu hv hw hm h (by decide) (by decide) (by decide) rfl

include hne

theorem reads_asterisks : Reads (marked '*' u v w) (word u ++ .emphasis [.text v] :: word w) where
  prose := Markdown.isProse_marked hu hv hw hne (.inl rfl)
  no_bracket := no_bracket_marked hu hv hw (.inl rfl)
  content := Markdown.ofText_asterisks hu hv hw hne {}
  no_notes := by cases u <;> cases w <;> rfl

theorem reads_underscores : Reads (marked '_' u v w)
    (if u.isEmpty && w.isEmpty then [.emphasis [.text v]]
      else word u ++ .text ['_'] :: .text v :: .text ['_'] :: word w) where
  prose := Markdown.isProse_marked hu hv hw hne (.inr rfl)
  no_bracket := no_bracket_marked hu hv hw (.inr rfl)
  content := Markdown.ofText_underscores hu hv hw hne {}
  no_notes := by cases u <;> cases w <;> rfl

theorem tidy_asterisks : ∃ report,
    tidy {} (marked '*' u v w) = .ok ⟨marked '_' u v w ++ ['\n'], report⟩ := by
  have hblank : ∀ c ∈ marked '_' u v w, isBlank c = false := fun c =>
    Markdown.isBlank_of_mem_marked hu hv hw (.inr rfl)
  have hends : (if w.isEmpty then ['\n'] else []) = [] ∨
      (if w.isEmpty then ['\n'] else []) = ['\n'] := by
    split_ifs <;> simp
  have h := tidy_of_writes (reads_asterisks hu hv hw hne) (.inl rfl) hblank hends
    (writes_emphasized hu hv hw)
  rwa [List.append_nil] at h

/-- A word between underscores stays as it is if there are no other words, and is literal text
otherwise. -/
theorem tidy_underscores : ∃ report, tidy {} (marked '_' u v w ++ ['\n']) = .ok
    ⟨(if u.isEmpty && w.isEmpty then marked '_' u v w
      else Escape.escape true (marked '_' u v w)) ++ ['\n'], report⟩ := by
  have hread := reads_underscores hu hv hw hne
  have hblank : ∀ c ∈ marked '_' u v w, isBlank c = false := fun c =>
    Markdown.isBlank_of_mem_marked hu hv hw (.inr rfl)
  split_ifs at hread ⊢ with h
  · simp only [Bool.and_eq_true, List.isEmpty_iff] at h
    obtain ⟨rfl, rfl⟩ := h
    have hwrites := writes_emphasized hu hv hw
    have hword : word [] = [] := rfl
    rw [hword, List.nil_append, if_pos List.isEmpty_nil] at hwrites
    exact tidy_of_writes hread (.inr rfl) hblank (.inr rfl) hwrites
  · have htokens : Token.ofInlines [] (word u ++ .text ['_'] :: .text v :: .text ['_'] :: word w) =
        [{ content := marked '_' u v w }] := by
      cases u <;> cases w <;> rfl
    have hwrites := writes_text (writes_nil [{ content := marked '_' u v w }])
    rw [← htokens, List.append_nil, ← List.append_nil (Escape.escape _ _)] at hwrites
    refine tidy_of_writes hread (.inr rfl) (fun c hc => ?_) (.inl rfl) hwrites
    rcases Escape.mem_escapeFrom hc with hc | rfl
    · exact hblank c hc
    · decide

end Emphasis

section Settled

/-- Whether rendering gives the source itself, but for the report. -/
def IsSettled (options : Options) (source : Text) : Prop :=
  ∃ r, tidy options source = .ok r ∧ r.text = source

/-- What becomes of a word between asterisks is settled exactly where there is a word on both sides
of it or on none: with one on one side only, the underscores that it gets are none of emphasis when
they are read again. -/
theorem isSettled_emphasis_iff {u v w : Text} (hu : u.all isLetter = true)
    (hv : v.all isLetter = true) (hw : w.all isLetter = true) (hne : v ≠ []) :
    ∃ r, tidy {} (marked '*' u v w) = .ok r ∧ (IsSettled {} r.text ↔ (u = [] ↔ w = [])) := by
  obtain ⟨report, hfirst⟩ := tidy_asterisks hu hv hw hne
  obtain ⟨report', hsecond⟩ := tidy_underscores hu hv hw hne
  have hsettled : IsSettled {} (marked '_' u v w ++ ['\n']) ↔
      (if u.isEmpty && w.isEmpty then marked '_' u v w
        else Escape.escape true (marked '_' u v w)) = marked '_' u v w := by
    constructor
    · rintro ⟨r, hr, ht⟩
      rw [hsecond] at hr
      cases hr
      exact List.append_cancel_right ht
    · intro h
      exact ⟨_, hsecond, congrArg (· ++ ['\n']) h⟩
  refine ⟨_, hfirst, hsettled.trans ?_⟩
  rw [Escape.escape_marked hu hv hw hne]
  rcases u with _ | ⟨c, u⟩ <;> rcases w with _ | ⟨d, w⟩ <;> simp [marked]

theorem not_isSettled_emphasis_before_word : ∃ r,
    tidy {} (marked '*' [] ['a'] ['b']) = .ok r ∧ ¬ IsSettled {} r.text := by
  obtain ⟨r, hr, h⟩ := isSettled_emphasis_iff (u := []) (v := ['a']) (w := ['b']) (by decide)
    (by decide) (by decide) (by simp)
  exact ⟨r, hr, fun hs => by simpa using h.1 hs⟩

theorem not_forall_isSettled :
    ¬ ∀ (source : Text) (r : Rendered), tidy {} source = .ok r → IsSettled {} r.text := by
  intro h
  have hfirst : (tidy {} "*a*b").toOption.map (·.text) = some "_a_b\n".toList := by decide +kernel
  have hsecond : (tidy {} "_a_b\n").toOption.map (·.text) = some "\\_a_b\n".toList := by
    decide +kernel
  rcases hr : tidy {} "*a*b" with e | r <;> rw [hr] at hfirst
  · cases hfirst
  · obtain ⟨r', hr', ht⟩ := h _ r hr
    have htext : r.text = "_a_b\n".toList := by simpa [Except.toOption] using hfirst
    rw [htext] at hr' ht
    rw [hr'] at hsecond
    have htext' : r'.text = "\\_a_b\n".toList := by simpa [Except.toOption] using hsecond
    rw [htext'] at ht
    revert ht
    decide

end Settled

end TidyMark
