import TidyMark.Proofs.Exposed
import TidyMark.Proofs.Grid
import TidyMark.Proofs.RawTags

/-!
# Bars in the cells of a table

A bar that is not escaped ends a cell. Text and code are written with their bars escaped, but every
other rule that copies a text out of its token copies the bars as they are: addresses and titles of
links and images, alternative texts, superscripts and raw HTML. So the bars of a cell are escaped
exactly if they are in these texts (`barsEscaped_written_iff`), and a source may well have others
there (`not_forall_barsEscaped_written`).

A walk through a cell is argued about by the destinations that its links have put aside, which the
row makes no difference to (`InCell`).
-/

namespace TidyMark.Render

open Token

/-- Whether every bar of a text stands directly behind a backslash. -/
def BarsEscaped (t : Text) : Prop :=
  ∀ before after, t = before ++ '|' :: after → before.getLast? = some '\\'

/-- The same, checked from left to right behind the character `last`. -/
def escapesBars (last : Option Char) : Text → Bool
  | [] => true
  | c :: t => (c != '|' || last == some '\\') && escapesBars (some c) t

section Bars

variable {t u v : Text} {last : Option Char}

theorem escapesBars_iff : escapesBars last t = true ↔
    ∀ before after, t = before ++ '|' :: after → before.getLast?.or last = some '\\' := by
  induction t generalizing last with
  | nil => simp [escapesBars]
  | cons c t ih =>
    rw [escapesBars, Bool.and_eq_true, ih]
    constructor
    · rintro ⟨hc, ht⟩ before after h
      rcases before with _ | ⟨d, before⟩
      · obtain ⟨rfl, -⟩ := List.cons.inj h
        simpa using hc
      · obtain ⟨rfl, rfl⟩ := List.cons.inj h
        have hlast := ht before after rfl
        rw [List.getLast?_cons]
        cases hb : before.getLast? <;> simpa [hb] using hlast
    · intro h
      refine ⟨?_, fun before after ht => ?_⟩
      · by_cases hc : c = '|'
        · simpa [hc] using h [] t (by rw [hc]; rfl)
        · simp [hc]
      · have hlast := h (c :: before) after (by rw [ht]; rfl)
        rw [List.getLast?_cons] at hlast
        cases hb : before.getLast? <;> simpa [hb] using hlast

theorem barsEscaped_iff : BarsEscaped t ↔ escapesBars none t = true := by
  rw [escapesBars_iff]
  simp [BarsEscaped]

instance : DecidablePred BarsEscaped := fun _ => decidable_of_iff _ barsEscaped_iff.symm

theorem escapesBars_of_ne (h : last ≠ some '\\' ∨ t.head? ≠ some '|') :
    escapesBars last t = escapesBars none t := by
  rcases t with _ | ⟨c, t⟩
  · rfl
  · by_cases hc : c = '|'
    · subst hc
      have hlast : last ≠ some '\\' := h.resolve_right (by simp)
      simp [escapesBars, hlast]
    · simp [escapesBars, bne_iff_ne.2 hc]

theorem escapesBars_append : escapesBars last (u ++ v) =
    (escapesBars last u && escapesBars (u.getLast?.or last) v) := by
  induction u generalizing last with
  | nil => simp [escapesBars]
  | cons c u ih =>
    rw [List.cons_append, escapesBars, escapesBars, ih, List.getLast?_cons, Bool.and_assoc]
    cases u.getLast? <;> rfl

/-- A bar is escaped in its own part, unless it comes first behind a backslash. -/
theorem barsEscaped_append (h : u.getLast? ≠ some '\\' ∨ v.head? ≠ some '|') :
    BarsEscaped (u ++ v) ↔ BarsEscaped u ∧ BarsEscaped v := by
  rw [barsEscaped_iff, barsEscaped_iff, barsEscaped_iff, escapesBars_append, Bool.and_eq_true,
    Option.or_none, escapesBars_of_ne h]

theorem barsEscaped_of_not_mem (h : '|' ∉ t) : BarsEscaped t := by
  rintro before after rfl
  exact absurd (by simp) h

theorem head?_ne_of_not_mem {c : Char} (h : c ∉ t) : t.head? ≠ some c :=
  fun hc => h (List.mem_of_mem_head? hc)

theorem barsEscaped_append_plain (hv : '|' ∉ v) : BarsEscaped (u ++ v) ↔ BarsEscaped u := by
  rw [barsEscaped_append (.inr (head?_ne_of_not_mem hv))]
  exact and_iff_left (barsEscaped_of_not_mem hv)

theorem barsEscaped_plain_append (hu : '|' ∉ u) (hlast : u.getLast? ≠ some '\\') :
    BarsEscaped (u ++ v) ↔ BarsEscaped v := by
  rw [barsEscaped_append (.inl hlast)]
  exact and_iff_right (barsEscaped_of_not_mem hu)

theorem barsEscaped_separated (ht : '|' ∉ t) (hlast : t.getLast?.any (· != '\\') = true) :
    BarsEscaped (u ++ t ++ v) ↔ BarsEscaped u ∧ BarsEscaped v := by
  have hbehind : (u ++ t).getLast? ≠ some '\\' := by
    rw [List.getLast?_append]
    cases hc : t.getLast? <;> simp_all
  rw [barsEscaped_append (.inl hbehind), barsEscaped_append_plain ht]

theorem escapesBars_replaceChar_bar (last : Option Char) (t : Text) :
    escapesBars last (Text.replaceChar '|' "\\|" t) = true := by
  induction t generalizing last with
  | nil => rfl
  | cons c t ih =>
    by_cases hc : c = '|'
    · subst hc
      rw [Text.replaceChar_self]
      exact ih (some '|')
    · rw [Text.replaceChar_of_ne hc, escapesBars, ih]
      simp [hc]

theorem escapesBars_replaceChar_quote (last : Option Char) (t : Text) :
    escapesBars last (Text.replaceChar '"' "\\\"" t) = escapesBars last t := by
  induction t generalizing last with
  | nil => rfl
  | cons c t ih =>
    by_cases hc : c = '"'
    · subst hc
      rw [Text.replaceChar_self, escapesBars, ← ih]
      rfl
    · rw [Text.replaceChar_of_ne hc, escapesBars, escapesBars, ih]

end Bars

/-- How texts are copied into what is written: it does not begin with a bar, and its bars are escaped
exactly if theirs are. -/
structure Copies (written : Text) (ts : List Text) : Prop where
  head : written.head? ≠ some '|'
  bars : BarsEscaped written ↔ ∀ t ∈ ts, BarsEscaped t

section Texts

variable {t u v : Text} {ts us : List Text}

theorem Copies.of_barsEscaped (hhead : t.head? ≠ some '|') (h : BarsEscaped t) : Copies t [] :=
  ⟨hhead, iff_of_true h nofun⟩

theorem Copies.plain (h : '|' ∉ t) : Copies t [] :=
  .of_barsEscaped (head?_ne_of_not_mem h) (barsEscaped_of_not_mem h)

theorem Copies.append (ht : Copies t ts) (hu : Copies u us) : Copies (t ++ u) (ts ++ us) where
  head := by
    have hhead := ht.head
    rw [List.head?_append]
    cases hc : t.head? with
    | none => exact hu.head
    | some c => rwa [hc] at hhead
  bars := by
    rw [barsEscaped_append (.inr hu.head), ht.bars, hu.bars, List.forall_mem_append]

/-- It does not matter in which order texts are copied. -/
theorem Copies.of_perm (h : Copies t ts) (hperm : ts.Perm us) : Copies t us :=
  ⟨h.head, h.bars.trans (by simp only [hperm.mem_iff])⟩

theorem barsEscaped_destination (url title : Text) :
    BarsEscaped (destination url title) ↔ BarsEscaped url ∧ BarsEscaped title := by
  have hquoted : BarsEscaped (Text.replaceChar '"' "\\\"" title) ↔ BarsEscaped title := by
    rw [barsEscaped_iff, barsEscaped_iff, escapesBars_replaceChar_quote]
  unfold destination
  split_ifs with h
  · rw [List.isEmpty_iff.1 h]
    exact (and_iff_left (barsEscaped_of_not_mem (by simp))).symm
  · rw [barsEscaped_append_plain (by decide), barsEscaped_separated (by decide) (by decide),
      hquoted]

/-- The end of a link. -/
theorem copies_destination (url title : Text) :
    Copies ("](" ++ destination url title ++ ")") [url, title] where
  head := by simp
  bars := by
    rw [barsEscaped_append_plain (by decide), barsEscaped_plain_append (by decide) (by decide),
      barsEscaped_destination]
    simp

theorem copies_imageText (t : Token) : Copies (imageText t) [t.alt, t.src, t.title] where
  head := by simp [imageText]
  bars := by
    unfold imageText
    rw [barsEscaped_append_plain (by decide), barsEscaped_separated (by decide) (by decide),
      barsEscaped_plain_append (by decide) (by decide), barsEscaped_destination]
    simp

theorem Copies.badge (h : Copies t ts) (href : Text) :
    Copies ("[" ++ t ++ "](" ++ href ++ ")") (ts ++ [href]) where
  head := by simp
  bars := by
    rw [barsEscaped_append_plain (by decide), barsEscaped_separated (by decide) (by decide),
      barsEscaped_plain_append (by decide) (by decide), h.bars, List.forall_mem_append,
      List.forall_mem_singleton]

theorem copies_sup (t : Text) : Copies ("<sup>" ++ t ++ "</sup>") [t] where
  head := by simp
  bars := by
    rw [barsEscaped_append_plain (by decide), barsEscaped_plain_append (by decide) (by decide),
      List.forall_mem_singleton]

theorem copies_html (h : t.head? = some '<') : Copies t [t] where
  head := by simp [h]
  bars := List.forall_mem_singleton.symm

variable {inside : Inside}

theorem copies_escapeBars (h : inside.row = true) (t : Text) : Copies (escapeBars inside t) [] := by
  rw [escapeBars, if_pos h]
  refine .of_barsEscaped ?_ (barsEscaped_iff.2 (escapesBars_replaceChar_bar none t))
  rcases t with _ | ⟨c, t⟩
  · simp [Text.replaceChar]
  · by_cases hc : c = '|'
    · rw [hc, Text.replaceChar_self]
      simp
    · rw [Text.replaceChar_of_ne hc]
      simpa using hc

theorem copies_codeSpan (h : Copies t []) : Copies (codeSpan t) [] := by
  have hticks : Copies (ticks (longestTicks 0 t + 1)) [] := .plain (by simp [ticks])
  have hpad : ∀ b : Bool, Copies (if b then [' '] else []) [] := fun b =>
    .plain (by cases b <;> simp)
  exact (((hticks.append (hpad _)).append h).append (hpad _)).append hticks

end Texts

section Steps

variable {setting : Setting} {state : State} {s : Sight} {opened : List Construct}
  {own : List LinkFrame} {after : List Token}

/-- Inside a row, where inline content has opened these constructs and put these destinations aside
for the links among them. Others may lie below, from links that were left open. -/
structure InCell (opened : List Construct) (own : List LinkFrame) (state : State) : Prop where
  row : state.inside.row = true
  links : own <+: state.links
  length : own.length = opened.count .link

theorem InCell.putAside (h : InCell opened own state) : PutAside opened own state :=
  ⟨h.links, h.length⟩

/-- Inline content does not leave the row. -/
theorem InCell.next {opened' : List Construct} {own' : List LinkFrame} (h : InCell opened own state)
    (hk : s.token.kind.isInline = true) (hown : PutAside opened' own' (rule setting state s).1) :
    InCell opened' own' (rule setting state s).1 := by
  refine ⟨?_, hown.links, hown.length⟩
  rw [(table_rule hk).1]
  exact h.row

/-- Nothing that opens writes a bar. -/
theorem copies_opening {c : Construct} (hs : s.token.kind = .opening c)
    (hk : s.token.kind.isInline = true) : Copies (rule setting state s).2 [] := by
  rw [rule_opening hs]
  refine .plain ?_
  cases c with
  | emphasis | deleted => simp [openRule]
  | strong =>
    simp only [openRule, strongOpen]
    split <;> simp
  | link => exact not_mem_linkOpen (.inl rfl)
  | _ => simp [hs, Kind.isInline] at hk

theorem bar_not_mem_closeMark {inside : Inside} {marker : Text} (h : '|' ∉ marker) :
    '|' ∉ closeMark inside after marker := by
  unfold closeMark
  split
  · exact h
  · split <;> simp [h]

/-- The end of a link writes the destination that was put aside last. -/
theorem InCell.closing {c : Construct} (h : InCell (c :: opened) own state)
    (hs : s.token.kind = .closing c) (hk : s.token.kind.isInline = true) :
    ∃ ts own', Copies (rule setting state s).2 ts ∧ InCell opened own' (rule setting state s).1 ∧
      own.flatMap LinkFrame.exposed = ts ++ own'.flatMap LinkFrame.exposed := by
  rcases @PutAside.closing setting state s opened own c h.putAside hs hk with
    ⟨-, frame, own', rfl, hwritten, hown⟩ | ⟨hc, hown⟩
  · refine ⟨frame.exposed, own', ?_, h.next hk hown, rfl⟩
    rw [hwritten]
    cases frame with
    | link href title => exact copies_destination href title
    | badge => exact .plain (by simp [LinkFrame.written])
  · refine ⟨[], own, .plain ?_, h.next hk hown, rfl⟩
    rw [rule_closing hs]
    cases c with
    | emphasis | deleted => exact bar_not_mem_closeMark (by simp)
    | strong =>
      simp only [closeRule, strongClose]
      split
      · simp
      · exact bar_not_mem_closeMark (by simp)
    | link => exact absurd rfl hc
    | _ => simp [hs, Kind.isInline] at hk

theorem copies_image (hk : s.token.kind = .leaf .image) : Copies (image state s).2
    ([s.token.alt, s.token.src, s.token.title] ++
      ((Visit.badge? ⟨s.before, s.token, after⟩).map (·.href)).toList) := by
  rw [@written_image state s after hk]
  cases Visit.badge? ⟨s.before, s.token, after⟩ with
  | none => exact copies_imageText s.token
  | some badge => exact (copies_imageText s.token).badge badge.href

/-- A token that stands for itself writes what it exposes, and its other texts escaped. -/
theorem copies_leafRule {l : Leaf} (hrow : state.inside.row = true) (hs : s.token.kind = .leaf l)
    (ht : s.token.IsRead) :
    Copies (leafRule setting state s l).2 (Visit.exposed ⟨s.before, s.token, after⟩) := by
  have hk := ht.isInline
  unfold Visit.exposed
  rw [hs]
  cases l with
  | image => exact copies_image hs
  | text => exact copies_escapeBars hrow _
  | code =>
    rw [leafRule_code (ht.span hs)]
    exact copies_codeSpan (copies_escapeBars hrow _)
  | sup => exact copies_sup _
  | htmlTag => exact copies_html (ht.tag hs)
  | softBreak | hardBreak => exact .plain (by simp [leafRule])
  | footnoteRef => exact .plain (not_mem_footnoteRef (.inl rfl) s.token)
  | footnoteAnchor => exact .plain (not_mem_footnoteAnchor (.inl rfl) s.token)
  | _ => simp [hs, Kind.isInline] at hk

/-- What one token writes copies its texts, now or, if it opens a link, at the end of the link. -/
theorem InCell.step {t : Token} {rest : List Token} (h : InCell opened own state)
    (ht : s.token.IsRead) (hk : s.token.kind = t.kind)
    (hbracketed : isBracketed (fun _ => none) opened (t :: rest) = true)
    (hafter : following? after = following? s.after) :
    ∃ opened' own' ts, InCell opened' own' (rule setting state s).1 ∧
      isBracketed (fun _ => none) opened' rest = true ∧ Copies (rule setting state s).2 ts ∧
      (ts ++ own'.flatMap LinkFrame.exposed).Perm
        (own.flatMap LinkFrame.exposed ++ Visit.exposed ⟨s.before, s.token, after⟩) := by
  rcases isBracketed_cases (hk ▸ ht.isInline) hbracketed with
    ⟨c, hs, hrest⟩ | ⟨c, outer, hs, rfl, hrest⟩ | ⟨l, hs, hrest⟩
  · rw [← hk] at hs
    obtain ⟨own', hown', hown⟩ := @PutAside.opening setting state s opened own after c h.putAside hs
      ht.isInline hafter
    refine ⟨c :: opened, own', [], h.next ht.isInline hown', hrest, copies_opening hs ht.isInline, ?_⟩
    rw [List.nil_append, hown]
    exact List.perm_append_comm
  · rw [← hk] at hs
    obtain ⟨ts, own', hwritten, hcell, hown⟩ :=
      @InCell.closing setting state s outer own c h hs ht.isInline
    refine ⟨outer, own', ts, hcell, hrest, hwritten, ?_⟩
    simp [Visit.exposed, hs, hown]
  · rw [← hk] at hs
    refine ⟨opened, own, _, h.next ht.isInline (h.putAside.leaf hs), hrest, ?_,
      List.perm_append_comm⟩
    rw [rule_leaf hs]
    exact copies_leafRule h.row hs ht

end Steps

section Walks

variable {setting : Setting} {tokens : List Token}

/-- What bracketed inline content writes in a row copies what its tokens expose, and what has been
put aside for the links around it. -/
theorem copies_walk (hread : ∀ t ∈ tokens, t.IsRead) : ∀ {opened : List Construct}
    {own : List LinkFrame} {state : State}, InCell opened own state →
      isBracketed (fun _ => none) opened tokens = true →
      ∀ (before : List Token) (openLinks : Nat) (takes : Bool) {w : Walk},
        walk setting state before openLinks takes tokens = w →
        Copies w.written
          (own.flatMap LinkFrame.exposed ++ (visits before w.tokens).flatMap Visit.exposed) := by
  induction tokens with
  | nil =>
    rintro opened own state h hbracketed before openLinks takes w rfl
    obtain rfl : opened = [] := by simpa [isBracketed] using hbracketed
    obtain rfl : own = [] := List.length_eq_zero_iff.1 h.length
    rw [walk_nil, visits_nil]
    exact .plain (by simp [Walk.written])
  | cons t after ih =>
    rintro opened own state h hbracketed before openLinks takes w rfl
    obtain ⟨ht, hafter⟩ := List.forall_mem_cons.1 hread
    have hsettled := isRead_settle ht takes after
    rw [walk_cons (step_of_isInline ht.isInline state before after openLinks takes) rfl]
    generalize hw : walk setting _ _ _ _ after = w
    have hnext : following? w.tokens = following? after :=
      hw ▸ following?_walk setting _ _ _ _ after
    obtain ⟨opened', own', ts, hcell, hbracketed', hwritten, hperm⟩ := @InCell.step setting state
      ⟨before, settle takes t after, after, openLinks⟩ _ _ w.tokens _ _ h hsettled
      (kind_settle takes t after) hbracketed hnext
    rw [visits_cons_leaf (Kind.ne_of_isInline hsettled.isInline), List.flatMap_cons, Walk.written,
      List.flatMap_cons, ← List.append_assoc]
    refine (hwritten.append (ih hafter hcell hbracketed' _ _ _ hw)).of_perm ?_
    rw [← List.append_assoc]
    exact hperm.append_right _

end Walks

end TidyMark.Render

namespace TidyMark

open Render Token

/-- In every inline content of a source, written into a row, all bars are escaped exactly if they
are in the texts that are copied as they stand. -/
theorem barsEscaped_written_iff {source : Text} {t : Token} (ht : t ∈ tokenize source)
    (hk : t.kind = .leaf .inline) (setting : Setting) {state : State}
    (hrow : state.inside.row = true) :
    let w := walk setting state [] 0 false t.children
    w.stopped = none ∧ (BarsEscaped w.written ↔
      ∀ v ∈ visits [] w.tokens, ∀ u ∈ v.exposed, BarsEscaped u) := by
  intro w
  have hread := bears_tokenize source t ht
  have hordered := (isBracketed_ofDocument _).2 t ht hk
  have hcell : InCell [] [] state := ⟨hrow, List.nil_prefix, rfl⟩
  refine ⟨(table_walk (fun c hc => (hread c hc).isInline) state [] 0 false).2.2, ?_⟩
  rw [(copies_walk hread hcell hordered.bracketed [] 0 false rfl).bars]
  simp only [List.flatMap_nil, List.nil_append, List.mem_flatMap]
  exact ⟨fun h v hv u hu => h u ⟨v, hv, hu⟩, fun h u ⟨v, hv, hu⟩ => h v hv u hu⟩

/-- The bar in the code is escaped, and what is copied has none. -/
theorem barsEscaped_written_iff_code :
    ∃ t ∈ tokenize "| a |\n| - |\n| `b\\|c` [d](e) |", t.kind = .leaf .inline ∧
      let w := walk (.ofOptions {}) { inside := cellInside .dataCell } [] 0 false t.children
      w.written = "`b\\|c` [d](e)" ∧ w.stopped = none ∧ BarsEscaped w.written := by
  have hcell : ∃ t ∈ tokenize "| a |\n| - |\n| `b\\|c` [d](e) |", t.kind = .leaf .inline ∧
      let w := walk (.ofOptions {}) { inside := cellInside .dataCell } [] 0 false t.children
      w.written = "`b\\|c` [d](e)" ∧ ∀ v ∈ visits [] w.tokens, ∀ u ∈ v.exposed, BarsEscaped u := by
    decide +kernel
  obtain ⟨t, ht, hk, hwritten, hexposed⟩ := hcell
  have hrow : ({ inside := cellInside .dataCell } : State).inside.row = true := rfl
  obtain ⟨hstop, hbars⟩ := barsEscaped_written_iff ht hk (.ofOptions {}) hrow
  exact ⟨t, ht, hk, hwritten, hstop, hbars.2 hexposed⟩

/-- A bar in the alternative text of an image is copied as it is. -/
theorem not_forall_barsEscaped_written : ¬ ∀ (source : Text) (options : Options),
    ∀ t ∈ tokenize source, t.kind = .leaf .inline →
      BarsEscaped (walk (.ofOptions options) { inside := cellInside .dataCell } [] 0 false
        t.children).written := by
  intro h
  have hall := h "| h |\n| - |\n| ![x\\|y](z) |" {}
  revert hall
  decide +kernel

end TidyMark
