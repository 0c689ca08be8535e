import TidyMark.Proofs.CalmWalk
import TidyMark.Proofs.Separation
import TidyMark.Proofs.Strictness

/-!
# Escaped brackets

A backslash before every opening bracket of a source keeps its links away on the way in: the
expander leaves every character as it is, whatever the options define
(`expand_of_isShielded`), and the document has no link in it. On the way out the backslashes are
gone, and a text is written with the escapes that it seems to need by itself. Where what each token
writes of it is calm, the text of the rendering has no link either (`tidy_of_escapesBrackets`); a
label that the options define is enough for a link where it is not
(`not_forall_beginsLink_tidy`).
-/

namespace TidyMark.Reflink

open Text

/-- Whether the character before every opening bracket is a backslash. -/
def IsShielded (t : Text) : Prop :=
  ∀ u v, t = u ++ '[' :: v → u.getLast? = some '\\'

variable {t source : Text} {table : Table}

section Lines

theorem IsShielded.of_append {s : Text} (h : IsShielded (s ++ t)) : IsShielded s :=
  fun u v hs => h u (v ++ t) (by rw [hs, List.append_assoc, List.cons_append])

/-- Behind anything but a backslash, what follows is shielded by itself. -/
theorem IsShielded.of_append_right {s : Text} (h : IsShielded (s ++ t))
    (hs : s.getLast? ≠ some '\\') : IsShielded t := by
  intro u v ht
  have hlast := h (s ++ u) v (by rw [ht, List.append_assoc])
  rw [List.getLast?_append] at hlast
  rcases hu : u.getLast? with _ | c
  · rw [hu] at hlast
    exact absurd hlast hs
  · rw [hu] at hlast
    exact hlast

theorem isShielded_of_mem_pieces (h : IsShielded source) : ∀ piece ∈ pieces source,
    IsShielded piece := by
  intro piece hp
  obtain ⟨above, below, hsplit⟩ := List.append_of_mem hp
  have hsource := flatten_pieces source
  rw [hsplit, List.flatten_append, List.flatten_cons] at hsource
  rw [← hsource] at h
  refine (h.of_append_right ?_).of_append
  rcases above.eq_nil_or_concat with rfl | ⟨lines, last, rfl⟩
  · simp
  · have hlast : last.getLast? = some '\n' :=
      Markdown.getLast?_of_mem_pieces (t := source) (by rw [hsplit]; simp)
    rw [List.concat_eq_append, List.flatten_append, List.flatten_singleton, List.getLast?_append,
      hlast, Option.some_or]
    simp

theorem isShielded_of_mem_mark {ps : List Text} (h : ∀ piece ∈ ps, IsShielded piece) :
    ∀ {region : Region}, ∀ line ∈ Line.mark region ps, IsShielded line.text := by
  induction ps with
  | nil => simp [Line.mark]
  | cons piece ps ih =>
    intro region line hline
    rw [Line.mark, List.mem_cons] at hline
    rcases hline with rfl | hline
    · have hpiece := h piece List.mem_cons_self
      rw [← lineText_append_drop piece] at hpiece
      exact hpiece.of_append
    · exact ih (fun p hp => h p (List.mem_cons_of_mem _ hp)) line hline

theorem isShielded_of_mem_ofSource (h : IsShielded source) :
    ∀ line ∈ Line.ofSource source, IsShielded line.text :=
  isShielded_of_mem_mark (isShielded_of_mem_pieces h)

end Lines

section Expansion

variable {spans : List Span}

theorem decide_of_escaped {kept : Nat} {before after : Text} {b : Bracket}
    (h : before.head? = some '\\') :
    table.decide spans kept before b after = ⟨.keep b.written, kept, none⟩ := by
  have hjudge : table.judge before b after = .keep := by
    simp [Table.judge, h]
  unfold Table.decide
  dsimp only
  split_ifs
  · rfl
  · rw [hjudge]

/-- Among shielded brackets there is nothing to edit. -/
theorem edit_of_isShielded : ∀ {segs : List Segment} {kept : Nat} {before : Text},
    IsShielded (before.reverse ++ segs.flatMap Segment.written) →
      (table.edit spans kept before segs).edits.flatMap Edit.after =
          segs.flatMap Segment.written ∧
        (table.edit spans kept before segs).malformed = none
  | [], _, _, _ => ⟨rfl, rfl⟩
  | .char c :: segs, kept, before, h => by
    obtain ⟨hedits, hmalformed⟩ := @edit_of_isShielded segs kept (c :: before) (by
      simpa [Segment.written] using h)
    refine ⟨?_, hmalformed⟩
    rw [Table.edit, List.flatMap_cons, List.flatMap_cons, hedits]
    rfl
  | .bracket b :: segs, kept, before, h => by
    obtain ⟨hedits, hmalformed⟩ := @edit_of_isShielded segs kept (b.written.reverse ++ before) (by
      simpa [Segment.written] using h)
    have hbefore : before.head? = some '\\' := by
      have hwritten : b.written = (if b.image then ['!'] else []) ++ '[' :: (b.label ++ [']'] ++
          (b.reference.elim [] fun r => between '[' r ']') ++
            (b.fragment.elim [] fun f => between '\x7b' f '\x7d')) := by
        simp [Bracket.written, Bracket.head, between]
      have hlast := h (before.reverse ++ if b.image then ['!'] else []) _ (by
        rw [List.flatMap_cons, Segment.written, hwritten, ← List.append_assoc, ← List.append_assoc,
          List.append_assoc (_ ++ _), List.cons_append])
      cases hi : b.image
      · simpa [hi] using hlast
      · simp [hi] at hlast
    rw [Table.edit, decide_of_escaped hbefore]
    exact ⟨by rw [List.flatMap_cons, List.flatMap_cons, hedits]; rfl, hmalformed⟩

theorem expandIn_of_isShielded (table : Table) {line : Line} (h : IsShielded line.text) :
    (table.expandIn line).edits.flatMap Edit.after = line.text ∧
      (table.expandIn line).malformed = none := by
  unfold Table.expandIn
  split_ifs
  · simp [Edit.after]
  · have hedit := @edit_of_isShielded table (codeSpans line.text) (segments line.text) 0 []
    rw [written_segments] at hedit
    exact hedit h

theorem expandLines_of_isShielded {number : Nat} {lines : List Line}
    (h : ∀ line ∈ lines, IsShielded line.text) :
    table.expandLines number lines = ⟨Line.source lines, none⟩ := by
  induction lines generalizing number with
  | nil => rfl
  | cons line lines ih =>
    obtain ⟨hline, hlines⟩ := List.forall_mem_cons.1 h
    obtain ⟨hafter, hmalformed⟩ := expandIn_of_isShielded table hline
    rw [Table.expandLines, ih hlines, hafter, hmalformed]
    rfl

/-- Collapsed references have a bracket behind a bracket. -/
theorem separate_of_not_isInfix (h : ¬ [']', '['] <:+: t) : separate t = t := by
  fun_induction separate t with
  | case1 rest rest' hr ih => exact absurd ⟨[], ']' :: rest, rfl⟩ h
  | case2 rest hr ih => exact absurd ⟨[], ']' :: rest, rfl⟩ h
  | case3 c rest hne ih => rw [ih fun hi => h (hi.trans (List.suffix_cons c rest).isInfix)]
  | case4 => rfl

/-- Where all brackets are escaped, nothing is expanded and nothing is malformed. -/
theorem expand_of_isShielded (h : IsShielded source) (options : Options) :
    expand options source = .ok source := by
  have hseparate : separate source = source := by
    refine separate_of_not_isInfix fun ⟨u, v, huv⟩ => ?_
    have hlast := h (u ++ [']']) v (by rw [← huv]; simp)
    rw [List.getLast?_concat] at hlast
    exact absurd hlast (by decide)
  have hexpansion : (Table.forSource options source).expansion source = ⟨source, none⟩ := by
    rw [Table.expansion, expandLines_of_isShielded (isShielded_of_mem_ofSource h), source_ofSource]
  simp only [expand, Table.expand, hexpansion]
  cases options.strict <;> exact congrArg Except.ok hseparate

end Expansion

end TidyMark.Reflink

namespace TidyMark.Render

open Token

variable {options : Options} {before tokens : List Token}

section Success

theorem firstUnknown?_of_isPlain (h : ∀ t ∈ tokens, t.IsPlain true) :
    firstUnknown? before tokens = none := by
  refine firstUnknown?_eq_none (fun t ht => (kinds_of_isPlain (h t ht)).2.2) fun t ht _ => ?_
  have hchildren := children_of_isPlain (h t ht)
  exact firstUnknown?_eq_none (fun c hc => (kinds_of_isPlainChild (hchildren c hc)).2.2.2)
    fun c hc hinline => absurd hinline (kinds_of_isPlainChild (hchildren c hc)).1

theorem exists_render (h : isBalanced [] (frameTurns tokens) = true)
    (hknown : firstUnknown? [] tokens = none) (options : Options) :
    ∃ r, (render options tokens).result = .ok r := by
  have hok := conclude_eq (render_ne_splitCharacter (isNested_of_isBalanced h) options)
  rwa [stopped_walkAll _ hknown] at hok

end Success

/-- Tokens of which all that is written is calm are rendered as a tame text. -/
theorem isTame_render {r : Rendered} (hr : (render options tokens).result = .ok r)
    (hbalanced : isBalanced [] (frameTurns tokens) = true) (hplain : ∀ t ∈ tokens, t.IsPlain true)
    (hchain : tokens.IsChain fun t u => mayFollow t.kind u.kind = true)
    (hnewline : ∀ c ∈ options.newline.text, isBlank c = true)
    (hcalm : ∀ v ∈ visits [] tokens, v.isCalm (.ofOptions options) = true) :
    IsTame false r.text := by
  obtain ⟨hstop, w, hleads⟩ := leads_walk {} hplain hchain (by simp) hcalm (.inl rfl)
  obtain ⟨rest, hrest, hnone⟩ := turns_walk (.ofOptions options) tokens {} [] 0 false
  rw [hrest, hnone hstop, List.append_nil] at hbalanced
  obtain ⟨plans, hplans⟩ := exists_plans hbalanced
  rw [hplans] at hleads
  obtain ⟨hrun, hw⟩ := watch_plans (.inl rfl) hleads
  have hdraw : draw? (walkAll (.ofOptions options) tokens).pieces =
      some { out := Plan.allDrawn plans } := by
    rw [walkAll, hplans]
    exact run_plans {} plans
  have hresult : (render options tokens).result = .ok ⟨polish options (Plan.allDrawn plans),
      (walkAll (.ofOptions options) tokens).state.report⟩ := by
    rw [render]
    dsimp only
    rw [conclude, hdraw, walkAll, hstop]
    rfl
  obtain rfl := Except.ok.inj (hresult.symm.trans hr)
  exact isTame_polish hnewline (.of_run hrun hw)

end TidyMark.Render

namespace TidyMark

open Render Token

theorem isShielded_of_escapesBrackets {source : Text} (h : EscapesBrackets source) :
    Reflink.IsShielded source := by
  intro u v hs
  have hodd := h u v hs
  rcases u.eq_nil_or_concat with rfl | ⟨u, c, rfl⟩
  · exact absurd hodd (by decide)
  · rw [List.concat_eq_append, List.reverse_concat, List.takeWhile_cons] at hodd
    rw [List.concat_eq_append, List.getLast?_concat]
    by_cases hc : c = '\\'
    · rw [hc]
    · simp [hc] at hodd

/-- A source whose brackets are all escaped is expanded to itself, whatever is defined for their
labels, and read as a document without links. It is rendered, strictly or not, and the rendering is
again without links where what each token writes of it is calm by itself. -/
theorem tidy_of_escapesBrackets {options : Options} {source : Text} (ha : '<' ∉ source)
    (h : EscapesBrackets source) :
    Reflink.expand options source = .ok source ∧ beginsLink (tokenize source) = false ∧
      ∃ r, tidy options source = .ok r ∧
        ((∀ c ∈ options.newline.text, isBlank c = true) →
          (∀ v ∈ visits [] (tokenize source), v.isCalm (.ofOptions options) = true) →
            beginsLink (tokenize r.text) = false) := by
  have htame := isTame_of_escapesBrackets ha h
  have hexpand := Reflink.expand_of_isShielded (isShielded_of_escapesBrackets h) options
  have hbalanced : isBalanced [] (frameTurns (tokenize source)) = true := isBalanced_ofDocument _
  have hpassage := passage_tokenize htame
  obtain ⟨r, hr⟩ := exists_render hbalanced (firstUnknown?_of_isPlain hpassage.plain) options
  refine ⟨hexpand, beginsLink_of_isTame htame, r, ?_, fun hnewline hcalm => ?_⟩
  · rw [tidy, hexpand]
    exact hr
  · exact beginsLink_of_isTame
      (isTame_render hr hbalanced hpassage.plain hpassage.apart hnewline hcalm)

/-- A label that the options define makes no link of a bracket whose escape is written again. -/
theorem tidy_escaped_before_parenthesis :
    ∃ r, tidy { reflinks := [("a", "/u")] } "\\[a](b)" = .ok r ∧
      beginsLink (tokenize r.text) = false := by
  obtain ⟨-, -, r, hr, h⟩ := @tidy_of_escapesBrackets { reflinks := [("a", "/u")] } "\\[a](b)"
    (by decide) (by decide +kernel)
  exact ⟨r, hr, h (List.forall_mem_singleton.2 (by decide)) (by decide +kernel)⟩

/-- An escaped bracket becomes a link where its escape is not written again and the options define
its label. -/
theorem not_forall_beginsLink_tidy :
    ¬ ∀ (options : Options) (source : Text) (r : Rendered), '<' ∉ source →
      EscapesBrackets source → tidy options source = .ok r →
        beginsLink (tokenize r.text) = false := by
  intro h
  have hrendered : (tidy { reflinks := [("foo", "bar")] } "\\[foo]").toOption.map
      (fun r => beginsLink (tokenize r.text)) = some true := by decide +kernel
  rcases hr : tidy { reflinks := [("foo", "bar")] } "\\[foo]" with e | r
  · rw [hr] at hrendered
    cases hrendered
  · rw [hr] at hrendered
    have hlink := h _ _ r (by decide) (by decide +kernel) hr
    exact absurd ((Option.some.inj hrendered).symm.trans hlink) (by decide)

end TidyMark
