import TidyMark.Proofs.Paragraph

/-!
# What fenced code is made of

The code of a source has no other characters than its lines have, a line feed and spaces
(`forall_mem_literal`), as every step of the reading adds to open code only what is left of its line
(`holds_addLine`). So a stream that is one token of fenced code comes from code without carriage
returns and null characters (`exists_literal`).
-/

namespace TidyMark.Markdown

section Cursors

theorem suffix_skipFrom : ∀ (n column : Nat) (midTab : Bool) (t : Text),
    (Cursor.skipFrom n column midTab t).rest <:+ t
  | 0, _, _, [] => List.suffix_refl []
  | _ + 1, _, _, [] => List.suffix_refl []
  | 0, _, _, c :: t => List.suffix_refl (c :: t)
  | n + 1, column, _, c :: t => by
    rw [Cursor.skipFrom]
    exact (suffix_skipFrom n _ false t).trans (List.suffix_cons c t)

theorem suffix_skipColumnsFrom : ∀ (n column : Nat) (midTab : Bool) (t : Text),
    (Cursor.skipColumnsFrom n column midTab t).rest <:+ t
  | _, _, _, [] => List.suffix_refl []
  | n, column, _, c :: t => by
    rw [Cursor.skipColumnsFrom]
    generalize (if (c == '\t') = true then tabWidth column else 1) = width
    dsimp only
    split_ifs
    · exact List.suffix_refl (c :: t)
    · exact List.suffix_refl (c :: t)
    · exact (suffix_skipColumnsFrom _ _ false t).trans (List.suffix_cons c t)

variable (c : Cursor) (n : Nat)

theorem suffix_skip : (c.skip n).rest <:+ c.rest :=
  suffix_skipFrom n c.column c.midTab c.rest

theorem suffix_skipColumns : (c.skipColumns n).rest <:+ c.rest :=
  suffix_skipColumnsFrom n c.column c.midTab c.rest

theorem suffix_skipIndent : (c.skipIndent n).rest <:+ c.rest :=
  suffix_skipColumns c _

theorem suffix_skipQuoteMark : (skipQuoteMark c).rest <:+ c.rest :=
  (suffix_skipIndent _ 1).trans (suffix_skip c _)

theorem suffix_skipAfterMarker : (skipAfterMarker c).2.rest <:+ c.rest := by
  unfold skipAfterMarker
  dsimp only
  split
  · exact suffix_skipColumns c _
  · exact suffix_skipIndent c 1

theorem mem_text {c : Cursor} {d : Char} (h : d ∈ c.text) : d ∈ c.rest ∨ d = ' ' := by
  unfold Cursor.text at h
  split at h
  · rcases List.mem_append.1 h with h | h
    · exact .inr (List.eq_of_mem_replicate h)
    · exact .inl (List.mem_of_mem_tail h)
  · exact .inl h

end Cursors

section Holding

variable (p : Char → Prop)

/-- Whether the text of a block, if it is fenced code, has only characters with `p`. -/
def Part.Holds : Part → Prop
  | .block (.fence _ literal) => ∀ c ∈ literal, p c
  | _ => True

/-- Whether fenced code that a block is or holds has only characters with `p`. -/
structure Frame.Holds (f : Frame) : Prop where
  done : ∀ c ∈ f.done, c.part.Holds p
  text : ∀ mark length offset, f.kind = .fence mark length offset → ∀ c ∈ f.text, p c

structure Site.Holds (s : Site) : Prop where
  frame : s.frame.Holds p
  outer : ∀ f ∈ s.outer, f.Holds p
  left : ∀ f ∈ s.left, f.Holds p

end Holding

section Sites

variable {p : Char → Prop} {f : Frame} {s : Site}

theorem holds_new {kind : Frame.Kind} : ({ kind } : Frame).Holds p where
  done := by simp
  text := by simp

theorem Frame.Holds.withKind (h : f.Holds p) {kind : Frame.Kind}
    (hkind : ∀ mark length offset, kind ≠ .fence mark length offset) (text : Text) :
    ({ f with kind, text } : Frame).Holds p where
  done := h.done
  text mark length offset hk := absurd hk (hkind mark length offset)

theorem Frame.Holds.withDone (h : f.Holds p) {done : List Closed} (hdone : done ⊆ f.done) :
    ({ f with done } : Frame).Holds p where
  done c hc := h.done c (hdone hc)
  text := h.text

theorem Frame.Holds.withBlank (h : f.Holds p) (blank : Bool) :
    ({ f with blank } : Frame).Holds p :=
  ⟨h.done, h.text⟩

theorem part_close (h : f.Holds p) (keepDefinitions : Bool) (defs : Definitions) :
    ∀ c ∈ (f.close keepDefinitions defs).1, c.part.Holds p := by
  intro c hc
  unfold Frame.close at hc
  dsimp only at hc
  split at hc
  case h_11 mark length offset hk =>
    cases hc
    have hsub : (splitInfo f.text).2 ⊆ f.text :=
      ((List.tail_suffix _).trans (List.dropWhile_suffix _)).subset
    exact fun d hd => h.text mark length offset hk d (hsub hd)
  case h_8 => split_ifs at hc <;> cases hc <;> trivial
  all_goals cases hc
  all_goals trivial

theorem holds_add (h : f.Holds p) {child : Option Closed}
    (hchild : ∀ c ∈ child, c.part.Holds p) : (f.add child).Holds p := by
  rcases child with _ | c
  · exact h
  · exact ⟨List.forall_mem_cons.2 ⟨hchild c rfl, h.done⟩, h.text⟩

theorem part_closeFrames : ∀ {frames : List Frame} (keepDefinitions : Bool) (defs : Definitions),
    (∀ f ∈ frames, f.Holds p) →
      ∀ c ∈ (closeFrames keepDefinitions defs frames).1, c.part.Holds p
  | [], _, _, _ => by simp [closeFrames]
  | f :: inner, keepDefinitions, defs, h => by
    obtain ⟨hf, hinner⟩ := List.forall_mem_cons.1 h
    rw [closeFrames]
    exact part_close (holds_add hf (part_closeFrames keepDefinitions defs hinner)) _ _

theorem holds_settle (h : s.Holds p) : s.settle.Holds p where
  frame := holds_add h.frame (part_closeFrames false s.defs h.left)
  outer := h.outer
  left := by simp [Site.settle]

theorem holds_decideTight (h : s.Holds p) : s.decideTight.Holds p := by
  unfold Site.decideTight
  split
  · exact ⟨h.frame.withKind (by simp) _, h.outer, h.left⟩
  · exact h

theorem holds_makeRoom (child : Frame.Kind) : ∀ {outer : List Frame} {f : Frame}
    (defs : Definitions), f.Holds p → (∀ f ∈ outer, f.Holds p) →
      (Site.makeRoom child f defs outer).Holds p
  | [], f, defs, hf, _ => ⟨hf, by simp [Site.makeRoom], by simp [Site.makeRoom]⟩
  | g :: outer, f, defs, hf, h => by
    obtain ⟨hg, houter⟩ := List.forall_mem_cons.1 h
    rw [Site.makeRoom]
    split
    · exact ⟨hf, h, by simp⟩
    · exact holds_makeRoom child _ (holds_add hg (part_close hf false defs)) houter

theorem holds_push (h : s.Holds p) (kind : Frame.Kind) : (s.push kind).Holds p := by
  have hdecided : (if s.frame.kind.canHold kind then s else s.decideTight).Holds p := by
    split
    · exact h
    · exact holds_decideTight h
  have hsettled := holds_settle hdecided
  have hroom := holds_makeRoom kind
    (if s.frame.kind.canHold kind then s else s.decideTight).settle.defs hsettled.frame
    hsettled.outer
  exact ⟨holds_new, List.forall_mem_cons.2 ⟨hroom.frame, hroom.outer⟩, hroom.left⟩

theorem holds_pop (h : s.Holds p) : s.pop.Holds p := by
  unfold Site.pop
  split
  · exact h
  · next f outer ho =>
    have houter := h.outer
    rw [ho] at houter
    obtain ⟨hf, houter⟩ := List.forall_mem_cons.1 houter
    exact ⟨holds_add hf (part_close h.frame false s.defs), houter, h.left⟩

theorem holds_describe {frame : Frame} {outer : List Frame} (hf : frame.Holds p)
    (houter : ∀ f ∈ outer, f.Holds p) (hleft : ∀ f ∈ s.left, f.Holds p) (term : Text)
    (width : Nat) (tight : Bool) : (describe s frame outer term width tight).Holds p := by
  unfold describe
  dsimp only
  split
  · next items blank _ _ done hdone =>
    have hframe : ({ frame with done } : Frame).Holds p :=
      hf.withDone (hdone ▸ List.subset_cons_self _ _)
    refine ⟨holds_new, List.forall_mem_cons.2 ⟨⟨fun c hc => ?_, by simp⟩,
      List.forall_mem_cons.2 ⟨hframe, houter⟩⟩, hleft⟩
    obtain ⟨d, -, rfl⟩ := List.mem_map.1 hc
    trivial
  · exact ⟨holds_new, List.forall_mem_cons.2 ⟨holds_new, List.forall_mem_cons.2 ⟨hf, houter⟩⟩, hleft⟩

theorem holds_markChild (h : f.Holds p) : f.markChild.Holds p := by
  unfold Frame.markChild
  split
  · next last done hdone =>
    have hall := h.done
    rw [hdone] at hall
    obtain ⟨hlast, hdone⟩ := List.forall_mem_cons.1 hall
    exact ⟨List.forall_mem_cons.2 ⟨hlast, hdone⟩, h.text⟩
  · exact h

theorem holds_noteBlank (h : s.Holds p) (line : Nat) (blank : Bool) :
    (s.noteBlank line blank).Holds p := by
  obtain ⟨frame, outer, left, defs⟩ := s
  have houter : ∀ g ∈ outer.map (fun f => { f with blank := false }), g.Holds p := by
    intro g hg
    obtain ⟨f, hf, rfl⟩ := List.mem_map.1 hg
    exact (h.outer f hf).withBlank false
  unfold Site.noteBlank
  dsimp only
  cases blank
  case false => exact ⟨h.frame.withBlank _, houter, h.left⟩
  case true =>
    rcases left with _ | ⟨f, left⟩
    · exact ⟨(holds_markChild h.frame).withBlank _, houter, h.left⟩
    · obtain ⟨hf, hleft⟩ := List.forall_mem_cons.1 h.left
      exact ⟨h.frame.withBlank _, houter, List.forall_mem_cons.2 ⟨hf.withBlank true, hleft⟩⟩

theorem Frame.Holds.addText (h : f.Holds p) {t : Text}
    (ht : ∀ mark length offset, f.kind = .fence mark length offset → ∀ c ∈ t, p c) :
    ({ f with text := f.text ++ t } : Frame).Holds p where
  done := h.done
  text mark length offset hk c hc := by
    rcases List.mem_append.1 hc with hc | hc
    · exact h.text mark length offset hk c hc
    · exact ht mark length offset hk c hc

theorem holds_addText (h : s.Holds p) {t : Text}
    (ht : ∀ mark length offset, s.frame.kind = .fence mark length offset → ∀ c ∈ t, p c) :
    (s.addText t).Holds p :=
  ⟨h.frame.addText ht, h.outer, h.left⟩

end Sites

section Lines

variable {p : Char → Prop} {s : Site} {c : Cursor} (hspace : p ' ') (hbreak : p '\n')

include hspace hbreak

theorem forall_mem_line (hc : ∀ d ∈ c.rest, p d) : ∀ d ∈ c.text ++ ['\n'], p d := by
  intro d hd
  rcases List.mem_append.1 hd with hd | hd
  · rcases mem_text hd with hd | rfl
    · exact hc d hd
    · exact hspace
  · rw [List.mem_singleton.1 hd]
    exact hbreak

theorem holds_addRest (h : s.Holds p) (hc : ∀ d ∈ c.rest, p d) : (s.addRest c).Holds p := by
  have hline := forall_mem_line hspace hbreak hc
  have hother : ∀ {kind : Frame.Kind}, (∀ mark length offset, kind ≠ .fence mark length offset) →
      ∀ (s : Site), s.Holds p → s.frame.kind = kind → ∀ t, (s.addText t).Holds p :=
    fun hkind s hs hk t => holds_addText hs fun mark length offset hf =>
      absurd (hk.symm.trans hf) (hkind mark length offset)
  unfold Site.addRest
  dsimp only
  split
  · exact holds_addText h fun _ _ _ _ => hline
  · exact holds_addText h fun _ _ _ _ => hline
  · next kind hk =>
    have hadded := holds_addText h fun _ _ _ _ => hline
    split_ifs
    · exact holds_pop hadded
    · exact hadded
  · next level hk =>
    split_ifs
    · exact h
    · exact hother (by simp) s h hk _
  · next tried hk =>
    split_ifs
    · exact h
    · exact hother (by simp) s h hk _
  · split_ifs
    · exact h
    · have hpushed : (s.settle.push (.paragraph false)).frame.kind = .paragraph false := rfl
      exact hother (by simp) _ (holds_push h _) hpushed _

end Lines

section Openings

/-- What opening a block keeps: fenced code has only characters with `p`, and what is left of the
line has been there. -/
structure Opens (p : Char → Prop) (o o' : Opening) : Prop where
  holds : o.site.Holds p → o'.site.Holds p
  suffix : o'.cursor.rest <:+ o.cursor.rest

variable {p : Char → Prop} {o o' : Opening} {situation : Situation}

theorem opens_push (kind : Frame.Kind) {c : Cursor} (hc : c.rest <:+ o.cursor.rest) :
    Opens p o ⟨o.site.push kind, c⟩ :=
  ⟨fun h => holds_push h kind, hc⟩

theorem opens_quote (h : openQuote? o = some o') : Opens p o o' := by
  unfold openQuote? at h
  split at h
  · cases h
    exact opens_push _ (suffix_skipQuoteMark _)
  · cases h

theorem opens_heading (h : openHeading? o = some o') : Opens p o o' := by
  obtain ⟨⟨level, length⟩, -, rfl⟩ := Option.map_eq_some_iff.1 h
  exact opens_push _ (suffix_skip _ _)

theorem opens_fence (h : openFence? o = some o') : Opens p o o' := by
  obtain ⟨⟨mark, length⟩, -, rfl⟩ := Option.map_eq_some_iff.1 h
  exact opens_push _ (suffix_skip _ _)

theorem opens_html (h : openHtml? o = some o') : Opens p o o' := by
  obtain ⟨kind, -, rfl⟩ := Option.map_eq_some_iff.1 h
  exact opens_push _ (List.suffix_refl _)

theorem opens_underlined (h : openUnderlined? o = some o') : Opens p o o' := by
  unfold openUnderlined? at h
  split at h
  · next tried level hk _ =>
    dsimp only at h
    split at h
    · cases h
      exact ⟨fun hs => ⟨hs.frame.withKind (by simp) _, hs.outer, hs.left⟩,
        List.suffix_refl _⟩
    · cases h
      exact ⟨fun hs => ⟨hs.frame.withKind (by simp) _, hs.outer, hs.left⟩,
        List.nil_suffix⟩
  · cases h

theorem opens_rule (h : openRule? situation o = some o') : Opens p o o' := by
  unfold openRule? at h
  split at h
  · cases h
    exact opens_push _ List.nil_suffix
  · cases h

theorem opens_footnote (h : openFootnote? situation o = some o') : Opens p o o' := by
  unfold openFootnote? at h
  split at h
  · obtain ⟨⟨label, length⟩, -, rfl⟩ := Option.map_eq_some_iff.1 h
    exact opens_push _ (suffix_skip _ _)
  · cases h

theorem opens_item (h : openItem? situation o = some o') : Opens p o o' := by
  unfold openItem? at h
  split at h
  · obtain ⟨⟨marker, length⟩, -, rfl⟩ := Option.map_eq_some_iff.1 h
    refine ⟨fun hs => holds_push ?_ _, (suffix_skipAfterMarker _).trans (suffix_skip _ _)⟩
    split_ifs
    · exact hs
    · exact holds_push hs _
  · cases h

theorem opens_indented (h : openIndented? situation o = some o') : Opens p o o' := by
  unfold openIndented? at h
  split at h
  · cases h
    exact opens_push _ (suffix_skipColumns _ _)
  · cases h

theorem opens_details (h : openDetails? o = some o') : Opens p o o' := by
  unfold openDetails? at h
  obtain ⟨length, -, h⟩ := Option.bind_eq_some_iff.1 h
  dsimp only at h
  split at h
  · next frame outer hk houter =>
    cases h
    refine ⟨fun hs => ?_, suffix_skip _ _⟩
    have hall := hs.outer
    rw [houter] at hall
    obtain ⟨hframe, hall⟩ := List.forall_mem_cons.1 hall
    exact holds_describe hframe hall hs.left _ _ _
  · cases h
    exact opens_push _ (suffix_skip _ _)
  · cases h
    exact opens_push _ (suffix_skip _ _)
  · next done _ hdone _ =>
    cases h
    refine ⟨fun hs => ?_, suffix_skip _ _⟩
    have hframe := hs.frame.withDone (hdone ▸ List.subset_cons_self _ _)
    exact holds_describe hframe hs.outer hs.left _ _ _
  · cases h

theorem opens_table (h : openTable? o = some o') : Opens p o o' := by
  unfold openTable? at h
  dsimp only at h
  split at h
  · split at h
    · next t f outer _ houter =>
      cases h
      refine ⟨fun hs => ?_, List.nil_suffix⟩
      have hall := hs.outer
      rw [houter] at hall
      obtain ⟨hf, hall⟩ := List.forall_mem_cons.1 hall
      refine ⟨holds_new, List.forall_mem_cons.2 ⟨holds_add hf ?_, hall⟩, hs.left⟩
      intro c hc
      obtain ⟨text, -, rfl⟩ := Option.map_eq_some_iff.1 hc
      trivial
    · split_ifs at h
      cases h
      exact ⟨fun hs => ⟨hs.frame.withKind (by simp) _, hs.outer, hs.left⟩,
        List.suffix_refl _⟩
  · split_ifs at h
    cases h
    exact ⟨fun hs => ⟨hs.frame.withKind (by simp) _, hs.outer, hs.left⟩,
      List.nil_suffix⟩
  · cases h

theorem opens_block (h : openBlock? situation o = some o') : Opens p o o' := by
  unfold openBlock? at h
  split_ifs at h
  · simp only [Option.orElse_eq_orElse, Option.orElse_eq_or, Option.or_eq_some_iff] at h
    rcases h with h | ⟨-, h | ⟨-, h | ⟨-, h | ⟨-, h | ⟨-, h | ⟨-, h | ⟨-, h | ⟨-, h | ⟨-, h⟩⟩⟩⟩⟩⟩⟩⟩⟩
    · exact opens_quote h
    · exact opens_heading h
    · exact opens_fence h
    · exact opens_html h
    · exact opens_underlined h
    · exact opens_rule h
    · exact opens_footnote h
    · exact opens_details h
    · exact opens_item h
    · exact opens_table h
  · exact opens_indented h

theorem Opens.trans {o'' : Opening} (h : Opens p o o') (h' : Opens p o' o'') : Opens p o o'' :=
  ⟨fun hs => h'.holds (h.holds hs), h'.suffix.trans h.suffix⟩

theorem opens_blocks : ∀ (n : Nat) (situation : Situation) (o : Opening),
    Opens p o (openBlocks situation n o)
  | 0, _, _ => ⟨id, List.suffix_refl _⟩
  | n + 1, situation, o => by
    rw [openBlocks]
    split_ifs
    · exact ⟨id, List.suffix_refl _⟩
    split
    · exact ⟨id, List.suffix_refl _⟩
    · next o' h =>
      split_ifs
      · exact opens_block h
      · exact (opens_block h).trans (opens_blocks n _ o')

end Openings

section Reading

variable {p : Char → Prop}

theorem suffix_continueIndented {width : Nat} {hasContent : Bool} {c c' : Cursor}
    (h : continueIndented width hasContent c = .continues c') : c'.rest <:+ c.rest := by
  unfold continueIndented at h
  split_ifs at h
  · cases h
    exact suffix_skipColumns c _
  · cases h
    exact suffix_skip c _

theorem suffix_continuation {kind : Frame.Kind} {hasContent emptyLine : Bool} {c c' : Cursor}
    (h : kind.continuation hasContent emptyLine c = .continues c') : c'.rest <:+ c.rest := by
  cases kind with
  | document | list | descriptions | rule => cases h; exact List.suffix_refl _
  | heading => cases h
  | item | description | indented => exact suffix_continueIndented h
  | quote =>
    simp only [Frame.Kind.continuation] at h
    split_ifs at h
    cases h
    exact suffix_skipQuoteMark c
  | footnote =>
    simp only [Frame.Kind.continuation] at h
    split_ifs at h
    · cases h
      exact suffix_skipColumns c _
    · cases h
      exact List.suffix_refl _
  | fence =>
    simp only [Frame.Kind.continuation] at h
    split_ifs at h
    cases h
    exact suffix_skipIndent c _
  | paragraph | html | table =>
    simp only [Frame.Kind.continuation] at h
    split_ifs at h
    cases h
    exact List.suffix_refl _

theorem suffix_continueFrames (emptyLine : Bool) : ∀ (frames matched : List Frame) (c : Cursor),
    (continueFrames emptyLine matched c frames).cursor.rest <:+ c.rest
  | [], _, _ => List.suffix_refl _
  | f :: inner, matched, c => by
    rw [continueFrames]
    split
    · next h => exact (suffix_continueFrames emptyLine inner _ _).trans (suffix_continuation h)
    · exact List.suffix_refl _
    · exact List.suffix_refl _

/-- Every open block either goes on or does not. -/
theorem matched_append_left (emptyLine : Bool) : ∀ (frames matched : List Frame) (c : Cursor),
    (continueFrames emptyLine matched c frames).matched.reverse ++
      (continueFrames emptyLine matched c frames).left = matched.reverse ++ frames
  | [], _, _ => rfl
  | f :: inner, matched, c => by
    rw [continueFrames]
    split
    · simp [matched_append_left emptyLine inner]
    · rfl
    · simp

theorem holds_addLazily {line : Text} (hline : ∀ d ∈ line, p d) : ∀ {frames : List Frame},
    (∀ f ∈ frames, f.Holds p) → ∀ f ∈ addLazily line frames, f.Holds p
  | [], _ => by simp [addLazily]
  | f :: outer, h => by
    obtain ⟨hf, houter⟩ := List.forall_mem_cons.1 h
    exact List.forall_mem_cons.2 ⟨hf.addText fun _ _ _ _ => hline, houter⟩

/-- Whether all open blocks hold no other fenced code than such with `p`. -/
def Reading.Holds (p : Char → Prop) (r : Reading) : Prop :=
  ∀ f ∈ r.frame :: r.outer, f.Holds p

theorem holds_ofFrames {frames : List Frame} (h : ∀ f ∈ frames, f.Holds p) (defs : Definitions) :
    (Reading.ofFrames frames defs).Holds p := by
  cases frames with
  | nil => exact List.forall_mem_cons.2 ⟨holds_new, by simp [Reading.ofFrames]⟩
  | cons f outer => exact h

theorem holds_ofSite {s : Site} (h : s.Holds p) : (⟨s.frame, s.outer, s.defs⟩ : Reading).Holds p :=
  List.forall_mem_cons.2 ⟨h.frame, h.outer⟩

theorem holds_frames {s : Site} (h : s.Holds p) : ∀ f ∈ s.frames, f.Holds p := by
  intro f hf
  rcases List.mem_append.1 hf with hf | hf
  · exact h.left f (List.mem_reverse.1 hf)
  · exact holds_ofSite h f hf

variable (hspace : p ' ') (hbreak : p '\n')

include hspace hbreak

/-- A line adds to fenced code only what stands on the line, a line feed and spaces. -/
theorem holds_addLine {r : Reading} (hr : r.Holds p) {line : Text} (hline : ∀ d ∈ line, p d)
    (number : Nat) : (r.addLine number line).Holds p := by
  have hframes : ∀ f ∈ (r.frame :: r.outer).reverse, f.Holds p := fun f hf =>
    hr f (List.mem_reverse.1 hf)
  have hsuffix := suffix_continueFrames line.isEmpty (r.frame :: r.outer).reverse [] ⟨line, 0, false⟩
  have happend := matched_append_left line.isEmpty (r.frame :: r.outer).reverse [] ⟨line, 0, false⟩
  unfold Reading.addLine
  dsimp only
  generalize continueFrames line.isEmpty [] ⟨line, 0, false⟩ (r.frame :: r.outer).reverse = m at *
  obtain ⟨matched, left, cursor, closed⟩ := m
  dsimp only at *
  rw [← List.nil_append (r.frame :: r.outer).reverse, ← List.reverse_nil, ← happend] at hframes
  split
  · exact hr
  next frame outer =>
  have hsite : (Site.mk frame outer left r.defs).Holds p := by
    refine ⟨hframes frame (by simp), fun f hf => hframes f (by simp [hf]),
      fun f hf => hframes f (by simp [hf])⟩
  have hopens := opens_blocks (p := p) (line.length + 2)
    ⟨number, isParagraph r.frame, left.isEmpty, 1⟩ ⟨⟨frame, outer, left, r.defs⟩, cursor⟩
  generalize openBlocks _ _ _ = o at *
  have hcursor : ∀ d ∈ o.cursor.rest, p d := fun d hd =>
    hline d (hsuffix.subset (hopens.suffix.subset hd))
  have hnoted := holds_noteBlank (hopens.holds hsite) number o.cursor.isBlank
  split_ifs
  · exact holds_ofSite (holds_pop hsite)
  · exact holds_ofFrames (holds_addLazily (forall_mem_line hspace hbreak hcursor)
      (holds_frames hnoted)) _
  · exact holds_ofSite (holds_addRest hspace hbreak (holds_settle hnoted) hcursor)

theorem holds_addLines : ∀ {lines : List Text} {r : Reading}, r.Holds p →
    (∀ line ∈ lines, ∀ d ∈ line, p d) → ∀ number : Nat, (r.addLines number lines).Holds p
  | [], _, hr, _, _ => hr
  | _ :: _, _, hr, h, number => by
    obtain ⟨hline, hlines⟩ := List.forall_mem_cons.1 h
    exact holds_addLines (holds_addLine hspace hbreak hr hline number) hlines (number + 1)

omit hspace hbreak in
theorem mem_dropByteOrderMark {lines : List Text} (h : ∀ line ∈ lines, ∀ d ∈ line, p d) :
    ∀ line ∈ dropByteOrderMark lines, ∀ d ∈ line, p d := by
  unfold dropByteOrderMark
  split
  · split_ifs
    · exact fun line hl d hd => by
        rcases List.mem_cons.1 hl with rfl | hl
        · exact h _ List.mem_cons_self d (List.mem_cons_of_mem _ hd)
        · exact h line (List.mem_cons_of_mem _ hl) d hd
    · exact h
  · exact h

/-- Fenced code outside other blocks has no other characters than the lines of its source. -/
theorem forall_mem_literal {source info literal : Text}
    (hsource : ∀ line ∈ sourceLines source, ∀ d ∈ line, p d)
    (h : .fence info literal ∈ (readBlocks source).1) : ∀ d ∈ literal, p d := by
  have hr : (({} : Reading).addLines 1 (dropByteOrderMark (sourceLines source))).Holds p :=
    holds_addLines hspace hbreak (List.forall_mem_cons.2 ⟨holds_new, by simp⟩)
      (mem_dropByteOrderMark hsource) 1
  unfold readBlocks at h
  dsimp only at h
  generalize ({} : Reading).addLines 1 (dropByteOrderMark (sourceLines source)) = r at *
  split at h
  · cases h
  next document inner hframes =>
  have hall : ∀ f ∈ document :: inner, f.Holds p := fun f hf =>
    hr f (List.mem_reverse.1 (hframes ▸ hf))
  obtain ⟨hdocument, hinner⟩ := List.forall_mem_cons.1 hall
  have hadded := holds_add hdocument (part_closeFrames false r.defs hinner)
  obtain ⟨c, hc, hblock⟩ := List.mem_filterMap.1 h
  have hpart := hadded.done c (List.mem_reverse.1 hc)
  split at hblock
  · next b hb =>
    cases hblock
    rw [hb] at hpart
    exact hpart
  · cases hblock

end Reading

section Documents

/-- What a character of a source is read as. -/
def readAs (c : Char) : Char :=
  if c.toNat == 0 then Char.ofNat 0xFFFD else c

theorem isClean_readAs {c : Char} (h : (c == '\n' || c == '\r') = false) :
    readAs c ≠ '\n' ∧ readAs c ≠ '\r' ∧ (readAs c).toNat ≠ 0 := by
  rw [Bool.or_eq_false_iff, beq_eq_false_iff_ne, beq_eq_false_iff_ne] at h
  unfold readAs
  split_ifs with hnull
  · decide
  · exact ⟨h.1, h.2, by simpa using hnull⟩

theorem IsClean.cons {c : Char} {t : Text} (hc : c ≠ '\n' ∧ c ≠ '\r' ∧ c.toNat ≠ 0)
    (ht : IsClean t) : IsClean (c :: t) :=
  List.forall_mem_cons.2 ⟨hc, ht⟩

theorem isClean_of_mem_sourceLines {source line : Text} (h : line ∈ sourceLines source) :
    IsClean line := by
  suffices hgo : ∀ (begun : Bool) (t : Text), ∀ line ∈ sourceLines.go begun t, IsClean line from
    hgo false source line h
  have hnil : IsClean [] := by simp [IsClean]
  intro begun t
  fun_induction sourceLines.go begun t with
  | case1 => exact List.forall_mem_cons.2 ⟨hnil, by simp⟩
  | case2 => simp
  | case3 _ rest ih => exact List.forall_mem_cons.2 ⟨hnil, ih⟩
  | case4 _ c rest _ hc ih => exact List.forall_mem_cons.2 ⟨hnil, ih⟩
  | case5 _ c rest _ hc _ hlines ih =>
    exact List.forall_mem_cons.2 ⟨hnil.cons (isClean_readAs (by simpa using hc)), by simp⟩
  | case6 _ c rest _ hc _ line lines hlines ih =>
    obtain ⟨hline, hrest⟩ := List.forall_mem_cons.1 (hlines ▸ ih)
    exact List.forall_mem_cons.2 ⟨hline.cons (isClean_readAs (by simpa using hc)), hrest⟩

/-- Numbering footnotes and taking out their definitions leaves fenced code as it is. -/
theorem mem_of_mem_numbered {α : Type} {f : α → List Inline} {info literal : Text} :
    ∀ {bs : List (Block α)} {n : Numbering},
      .fence info literal ∈ withoutFootnotes (numberBlocks n (mapBlocks f bs)).1 →
        .fence info literal ∈ bs
  | [], _, h => by simp [mapBlocks, numberBlocks, withoutFootnotes] at h
  | b :: bs, n, h => by
    rw [mapBlocks, numberBlocks, withoutFootnotes] at h
    split at h
    · next b' hb =>
      rcases List.mem_cons.1 h with rfl | h
      · cases b <;> simp [Block.map, Block.number, Block.withoutFootnotes?] at hb
        simp [hb]
      · exact List.mem_cons_of_mem _ (mem_of_mem_numbered h)
    · exact List.mem_cons_of_mem _ (mem_of_mem_numbered h)

end Documents

end TidyMark.Markdown

namespace TidyMark

open Markdown

/-- The token of fenced code outside other blocks. -/
def fenceToken (info literal : Text) : Token :=
  Token.leafAt 0 { kind := .leaf .fence, params := info, content := literal }

@[simp]
theorem fenceToken_params (info literal : Text) : (fenceToken info literal).params = info := rfl

@[simp]
theorem fenceToken_content (info literal : Text) : (fenceToken info literal).content = literal := rfl

theorem eq_of_head_ofBlock {tight : Bool} {b : Block (List Inline)} {t : Token}
    (h : (Token.ofBlock 0 tight b).head? = some t) (hk : t.kind = .leaf .fence) :
    ∃ info literal, b = .fence info literal ∧ t = fenceToken info literal := by
  cases b with
  | fence info literal =>
    cases h
    exact ⟨info, literal, rfl, rfl⟩
  | footnote => cases h
  | paragraph | heading | quote | list | indented | html | rule | table | descriptions =>
    cases h
    cases hk

theorem exists_of_head_ofBlocks {tight : Bool} {t : Token} (hk : t.kind = .leaf .fence) :
    ∀ {bs : List (Block (List Inline))}, (Token.ofBlocks 0 tight bs).head? = some t →
      ∃ info literal, .fence info literal ∈ bs ∧ t = fenceToken info literal
  | [], h => by cases h
  | b :: bs, h => by
    rw [Token.ofBlocks, List.head?_append] at h
    cases hb : (Token.ofBlock 0 tight b).head? with
    | none =>
      rw [hb] at h
      obtain ⟨info, literal, hmem, ht⟩ := exists_of_head_ofBlocks hk h
      exact ⟨info, literal, List.mem_cons_of_mem _ hmem, ht⟩
    | some t' =>
      rw [hb] at h
      cases h
      obtain ⟨info, literal, rfl, ht⟩ := eq_of_head_ofBlock hb hk
      exact ⟨info, literal, List.mem_cons_self, ht⟩

/-- A stream that is nothing but fenced code comes from fenced code. -/
theorem exists_literal {source : Text} {t : Token} (h : tokenize source = [t])
    (hk : t.kind = .leaf .fence) : ∃ info literal, t = fenceToken info literal ∧
      ∀ c ∈ literal, c ≠ '\r' ∧ c.toNat ≠ 0 := by
  have hhead := congrArg List.head? h
  rw [tokenize, Token.ofDocument, List.head?_append] at hhead
  cases hbody : (Token.ofBlocks 0 false (Document.ofText source).body).head? with
  | none =>
    -- no footnotes begin with fenced code
    rw [hbody, Token.ofNotes] at hhead
    split_ifs at hhead
    · cases hhead
    · cases hhead
      cases hk
  | some t' =>
    rw [hbody] at hhead
    cases hhead
    obtain ⟨info, literal, hmem, ht⟩ := exists_of_head_ofBlocks hk hbody
    refine ⟨info, literal, ht, forall_mem_literal (by decide) (by decide) (fun line hl d hd => ?_)
      (mem_of_mem_numbered hmem)⟩
    exact (isClean_of_mem_sourceLines hl d hd).2

end TidyMark
