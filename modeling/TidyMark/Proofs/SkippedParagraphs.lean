import TidyMark.Proofs.CalmWalk
import TidyMark.Proofs.Exposed
import TidyMark.Proofs.Strictness

/-!
# Paragraphs that are skipped

What separates a block from the tokens behind it is judged without the tight paragraphs between them
that have no content (`skipEmptyParagraphs`). The content is the visible text of the children, which
leaves out images without a description, raw HTML, references to footnotes, links and marks. A
paragraph without content writes nothing exactly if it is all text (`written_eq_nil_iff`), so each
paragraph that is skipped in the stream of a document is all text or is skipped although it is seen
(`steppedOver_tokenize`).
-/

namespace TidyMark.Render

open Token Markdown

/-- What is known of the `inline` tokens of a document. -/
structure IsFaithful (t : Token) : Prop where
  content : t.content = Token.plainText t.children
  read : t.Bears IsRead
  bracketed : isBracketed (fun _ => none) [] t.children = true

/-- Whether the children of a token, if there are any, are texts. -/
def IsAllText (t : Token) : Prop :=
  t.Bears fun c => c.isText = true

/-- Whether tokens are paragraphs without content for which these pieces are written: brackets that
write nothing and, between them, content that writes nothing exactly if it is all text. -/
inductive SteppedOver : List Token → List Piece → Prop
  | nil : SteppedOver [] []
  | paragraph {a b c : Token} {p q r : Piece} {ts : List Token} {ps : List Piece}
      (hempty : isEmptyParagraph a b c = true) (hopening : p.text = [])
      (hcontent : q.text = [] ↔ IsAllText b) (hclosing : r.text = [])
      (hrest : SteppedOver ts ps) : SteppedOver (a :: b :: c :: ts) (p :: q :: r :: ps)

section Content

variable {setting : Setting} {tokens : List Token}

/-- Only a link that begins with an image leaves its bracket to what it begins with. -/
theorem following?_of_linkOpen_eq_nil {state : State} {s : Sight} (h : (linkOpen state s).2 = []) :
    following? s.after = some (.leaf .image) := by
  obtain ⟨before, ⟨kind, content, children, level, href, src, title, alt, align, headingLevel,
    tight, block, params, id, subId⟩, after, openLinks⟩ := s
  by_contra hnext
  simp only [linkOpen, beq_iff_eq, hnext, if_false] at h
  exact List.append_ne_nil_of_right_ne_nil _ (by decide) h

theorem written_image_ne_nil {state : State} {s : Sight} (hk : s.token.kind = .leaf .image) :
    (image state s).2 ≠ [] := by
  rw [@written_image state s s.after hk]
  cases Visit.badge? ⟨s.before, s.token, s.after⟩ <;> exact nofun

/-- Of inline content only texts, the ends of marks and links and links that begin with an image may
write nothing. -/
theorem kind_of_rule_eq_nil {state : State} {s : Sight} (hs : s.token.IsRead)
    (h : (rule setting state s).2 = []) : s.token.isText = true ∨
      (∃ c, s.token.kind = .closing c) ∨ following? s.after = some (.leaf .image) := by
  have hinline := hs.isInline
  rcases hk : s.token.kind with c | c | l | name
  · rw [rule_opening hk] at h
    cases c with
    | emphasis | deleted => cases h
    | strong =>
      dsimp only [openRule, strongOpen] at h
      split_ifs at h <;> cases h
    | link => exact .inr (.inr (following?_of_linkOpen_eq_nil h))
    | _ => simp [hk, Kind.isInline] at hinline
  · exact .inr (.inl ⟨c, rfl⟩)
  · rw [rule_leaf hk] at h
    cases l with
    | text => exact .inl (beq_iff_eq.2 hk)
    | code =>
      rw [leafRule_code (hs.span hk)] at h
      cases h
    | image => exact absurd h (written_image_ne_nil hk)
    | htmlTag =>
      have hcontent : s.token.content = [] := h
      have htag := hs.tag hk
      rw [hcontent] at htag
      cases htag
    | softBreak | hardBreak | sup | footnoteRef | footnoteAnchor => cases h
    | _ => simp [hk, Kind.isInline] at hinline
  · simp [hk, Kind.isInline] at hinline

/-- What writes nothing opens nothing: a badge would write its image. -/
theorem kind_of_written_eq_nil (hread : ∀ t ∈ tokens, t.IsRead) : ∀ {state : State}
    {before : List Token} {openLinks : Nat} {takes : Bool},
    (walk setting state before openLinks takes tokens).written = [] →
      ∀ t ∈ tokens, t.isText = true ∨ ∃ c, t.kind = .closing c := by
  induction tokens with
  | nil => exact fun _ => nofun
  | cons t after ih =>
    intro state before openLinks takes h
    obtain ⟨ht, hafter⟩ := List.forall_mem_cons.1 hread
    rw [walk_cons (step_of_isInline ht.isInline state before after openLinks takes) rfl,
      Walk.written, List.flatMap_cons, List.append_eq_nil_iff] at h
    have hrest := ih hafter h.2
    refine List.forall_mem_cons.2 ⟨?_, hrest⟩
    have hkind := kind_settle takes t after
    rcases kind_of_rule_eq_nil (isRead_settle ht takes after) h.1 with htext | ⟨c, hc⟩ | himage
    · exact .inl (by simpa [isText, hkind] using htext)
    · exact .inr ⟨c, hkind.symm.trans hc⟩
    · rcases after with _ | ⟨next, after⟩
      · cases himage
      · have hnext : next.kind = .leaf .image := Option.some.inj himage
        rcases hrest next List.mem_cons_self with htext | ⟨c, hc⟩
        · simp [isText, hnext] at htext
        · simp [hnext] at hc

/-- Where nothing is opened, nothing is closed either. -/
theorem isText_of_isBracketed {level : Nat → Option Nat}
    (hbracketed : isBracketed level [] tokens = true)
    (h : ∀ t ∈ tokens, t.isText = true ∨ ∃ c, t.kind = .closing c) :
    ∀ t ∈ tokens, t.isText = true := by
  induction tokens with
  | nil => exact nofun
  | cons t after ih =>
    obtain ⟨ht, hafter⟩ := List.forall_mem_cons.1 h
    rcases ht with ht | ⟨c, hc⟩
    · rw [isBracketed_leaf (by simpa [isText] using ht), Bool.and_eq_true] at hbracketed
      exact List.forall_mem_cons.2 ⟨ht, ih hbracketed.2 hafter⟩
    · simp [isBracketed, hc] at hbracketed

/-- Texts without content write nothing. -/
theorem written_eq_nil_of_isText (htext : ∀ t ∈ tokens, t.isText = true)
    (hplain : Token.plainText tokens = []) : ∀ {state : State} {before : List Token},
      (walk setting state before 0 false tokens).written = [] := by
  induction tokens with
  | nil =>
    intro state before
    rw [walk_nil]
    rfl
  | cons t after ih =>
    intro state before
    obtain ⟨ht, hafter⟩ := List.forall_mem_cons.1 htext
    rw [Token.plainText, List.flatMap_cons, List.append_eq_nil_iff] at hplain
    have hk : t.kind = .leaf .text := beq_iff_eq.1 ht
    have hcontent : t.content = [] := by simpa [plain, hk] using hplain.1
    have hwritten : (rule setting state ⟨before, t, after, 0⟩).2 = [] := by
      rw [rule_leaf hk]
      exact text_of_content_eq_nil hcontent
    obtain ⟨hlinks, htakes⟩ := @linksAfter_of_kind t (by simp [hk]) (by simp [hk])
    rw [walk_cons (step_of_kind (by simp [hk]) (by simp [hk]) (by simp [hk]) (by simp [hk])) rfl,
      hlinks, htakes, Walk.written, List.flatMap_cons, hwritten, List.nil_append]
    exact ih hafter hplain.2

/-- Inline content without visible text writes nothing exactly if it is all text. -/
theorem written_eq_nil_iff {t : Token} (ht : IsFaithful t) (hempty : t.content = [])
    (state : State) :
    (walk setting state [] 0 false t.children).written = [] ↔ IsAllText t := by
  constructor
  · intro h
    exact isText_of_isBracketed ht.bracketed (kind_of_written_eq_nil ht.read h)
  · intro h
    exact written_eq_nil_of_isText h (ht.content.symm.trans hempty)

end Content

section Paragraphs

variable {setting : Setting} {state : State} {before ts : List Token} {openLinks : Nat}
  {takes : Bool}

/-- The brackets of a tight paragraph without content write nothing. -/
theorem exists_pieces_of_isEmptyParagraph {a b c : Token} (h : isEmptyParagraph a b c = true)
    (hb : IsFaithful b) : ∃ (q : Piece) (state' : State) (before' : List Token),
      (walk setting state before openLinks takes (a :: b :: c :: ts)).pieces =
        ⟨.plain, []⟩ :: q :: ⟨.plain, []⟩ ::
          (walk setting state' before' openLinks false ts).pieces ∧
        (q.text = [] ↔ IsAllText b) := by
  simp only [isEmptyParagraph, Bool.and_eq_true, beq_iff_eq, List.isEmpty_iff] at h
  obtain ⟨⟨⟨⟨⟨ha, -⟩, hbk⟩, hempty⟩, hc⟩, htight⟩ := h
  have hopen : rule setting state ⟨before, a, b :: c :: ts, openLinks⟩ = (state, []) := by
    rw [rule_opening ha]
    simp [openRule, paragraphOpen, following?, hbk]
  obtain ⟨w, hw⟩ : ∃ w, walk setting state [] 0 false b.children = w := ⟨_, rfl⟩
  have hinline : ∀ t ∈ b.children, t.kind.isInline = true := fun t ht => (hb.read t ht).isInline
  have hstop : w.stopped = none := hw ▸ (table_walk hinline state [] 0 false).2.2
  have hclose : rule setting w.state
      ⟨{ b with children := w.tokens } :: a :: before, c, ts, openLinks⟩ = (w.state, []) := by
    rw [rule_closing hc]
    simp only [closeRule, paragraphClose, paragraphClose.closed, htight, hbk, hempty]
    rcases following? ts with _ | k <;> simp
  refine ⟨⟨.plain, w.written⟩, w.state, c :: { b with children := w.tokens } :: a :: before, ?_, ?_⟩
  · rw [pieces_walk_cons (.inl ha) (by decide) hopen, walk_cons_inline hbk hw hstop rfl]
    dsimp only
    rw [pieces_walk_cons (.inr hc) (by decide) hclose, ha, hc]
    rfl
  · rw [← hw]
    exact written_eq_nil_iff hb hempty state

/-- Wherever a walk has come to, it writes for the paragraphs that are skipped what `SteppedOver`
says. -/
theorem exists_steppedOver (hts : ∀ t ∈ ts, t.kind = .leaf .inline → IsFaithful t) :
    ∀ {state : State} {before : List Token} {openLinks : Nat} {takes : Bool},
      ∃ skipped, ts = skipped ++ skipEmptyParagraphs ts ∧ SteppedOver skipped
        ((walk setting state before openLinks takes ts).pieces.take skipped.length) := by
  fun_induction skipEmptyParagraphs ts with
  | case1 a b c rest h ih =>
    intro state before openLinks takes
    have hbk : b.kind = .leaf .inline := by
      simp only [isEmptyParagraph, Bool.and_eq_true, beq_iff_eq] at h
      exact h.1.1.1.2
    obtain ⟨q, state', before', hpieces, hq⟩ := @exists_pieces_of_isEmptyParagraph setting state
      before rest openLinks takes a b c h (hts b (by simp) hbk)
    obtain ⟨skipped, hrest, hstepped⟩ := @ih (fun t ht => hts t (by simp [ht])) state' before'
      openLinks false
    refine ⟨a :: b :: c :: skipped, by simp only [List.cons_append, ← hrest], ?_⟩
    rw [hpieces]
    exact .paragraph h rfl hq rfl hstepped
  | case2 => exact ⟨[], rfl, .nil⟩
  | case3 => exact ⟨[], rfl, .nil⟩

/-- All in all the paragraphs write nothing exactly if they are all text. -/
theorem SteppedOver.written_eq_nil_iff {ps : List Piece} (h : SteppedOver ts ps) :
    ps.flatMap (·.text) = [] ↔ ∀ t ∈ ts, t.kind = .leaf .inline → IsAllText t := by
  induction h with
  | nil => simp
  | @paragraph a b c p q r ts ps hempty hopening hcontent hclosing hrest ih =>
    simp only [isEmptyParagraph, Bool.and_eq_true, beq_iff_eq] at hempty
    obtain ⟨⟨⟨⟨⟨ha, -⟩, hb⟩, -⟩, hc⟩, -⟩ := hempty
    simp [hopening, hclosing, hcontent, ih, ha, hb, hc]

end Paragraphs

section Streams

theorem firstUnknown?_ofDocument (d : Document) : firstUnknown? [] (ofDocument d) = none := by
  refine firstUnknown?_eq_none (ne_unknown_of_isAlong (isAlong_ofDocument d)) fun t ht _ => ?_
  have hinline := holdsInline_ofDocument d t ht
  refine firstUnknown?_eq_none (fun c hc name hk => ?_) fun c hc hk =>
    absurd hk (Kind.ne_of_isInline (hinline c hc))
  have := hinline c hc
  rw [hk] at this
  cases this

theorem isFaithful_tokenize (source : Text) :
    ∀ t ∈ tokenize source, t.kind = .leaf .inline → IsFaithful t := fun t ht hk =>
  { content := content_eq_plainText _ t ht hk
    read := bears_tokenize source t ht
    bracketed := ((isBracketed_ofDocument _).2 t ht hk).bracketed }

end Streams

/-- A document is rendered to its end, a piece for each token, and what is skipped behind any place
of its stream are whole paragraphs. The brackets of each of them write nothing, and its content
writes nothing exactly if it is all text. So nothing that is seen is skipped exactly if all of them
are all text. -/
theorem steppedOver_tokenize (options : Options) (source : Text) (i : Nat) :
    let w := walkAll (.ofOptions options) (tokenize source)
    let after := (tokenize source).drop (i + 1)
    w.stopped = none ∧ w.pieces.length = (tokenize source).length ∧
      ∃ skipped, after = skipped ++ skipEmptyParagraphs after ∧
        SteppedOver skipped ((w.pieces.drop (i + 1)).take skipped.length) ∧
        (((w.pieces.drop (i + 1)).take skipped.length).flatMap (·.text) = [] ↔
          ∀ t ∈ skipped, t.kind = .leaf .inline → IsAllText t) := by
  intro w after
  have hstop : w.stopped = none := stopped_walkAll _ (firstUnknown?_ofDocument _)
  obtain ⟨state, before, openLinks, takes, hbehind⟩ := exists_drop_pieces hstop (i + 1)
  obtain ⟨skipped, hsplit, hstepped⟩ := @exists_steppedOver (.ofOptions options) after
    (fun t ht => isFaithful_tokenize source t (List.mem_of_mem_drop ht)) state before openLinks
    takes
  rw [← hbehind] at hstepped
  exact ⟨hstop, length_pieces_walk hstop, skipped, hsplit, hstepped, hstepped.written_eq_nil_iff⟩

/-- The paragraph behind the heading holds an image without a description. It is skipped, and the
image is written. -/
theorem not_forall_skipped_eq_nil :
    ¬ ∀ (options : Options) (source : Text) (i : Nat),
      let w := walkAll (.ofOptions options) (tokenize source)
      let after := (tokenize source).drop (i + 1)
      ((w.pieces.drop (i + 1)).take (after.length - (skipEmptyParagraphs after).length)).flatMap
        (·.text) = [] := by
  intro h
  exact absurd (h {} "- # h\n  ![](u)" 4) (by decide +kernel)

end TidyMark.Render
