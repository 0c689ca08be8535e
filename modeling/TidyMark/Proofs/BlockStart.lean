import TidyMark.Proofs.Grammar
import TidyMark.Proofs.Sheet

/-!
# Where blocks begin

The rules end the lines of their blocks before they know what comes next, and a block that opens
writes no line feed of its own, code, quotes and lists excepted. `LineAfter` says what the text of
the innermost frame ends with behind each kind of token. One token keeps it up (`fits_rule`), so a
walk over the stream of a document comes to every token with it (`exists_walk`), and every token
that is to begin a line begins one in the rendered text (`beginsLine_of_startsLine`).

Two places do not keep it up (`runsOn`): a tight paragraph leaves its line open, and a heading, a
rule, raw HTML or a table that follows it writes on that line; and an item without content does not
end its line.
-/

namespace TidyMark

open Text

namespace Text

/-- Whether a text ends in a line feed. -/
def EndsInBreak (t : Text) : Prop :=
  ∃ u, t = u ++ ['\n']

section Breaks

theorem EndsInBreak.endsLine {t : Text} (h : EndsInBreak t) : EndsLine t :=
  .inr h

theorem EndsInBreak.append_left (s : Text) {t : Text} (h : EndsInBreak t) : EndsInBreak (s ++ t) := by
  obtain ⟨u, rfl⟩ := h
  exact ⟨s ++ u, (List.append_assoc _ _ _).symm⟩

theorem EndsInBreak.append {s t : Text} (hs : EndsInBreak s) (ht : EndsLine t) :
    EndsInBreak (s ++ t) := by
  rcases ht with rfl | h
  · rwa [List.append_nil]
  · exact EndsInBreak.append_left s h

theorem endsInBreak_newline : EndsInBreak ['\n'] :=
  ⟨[], rfl⟩

end Breaks

end Text

namespace Render

/-- What an opening token writes before the block that begins behind it. The opening token of a
table writes nothing. -/
def openTag : List Token → Text
  | [] => []
  | t :: before =>
    match t.kind with
    | .opening .descriptionDetails => "<dd>"
    | .opening .footnote => footnoteOpen t
    | .opening .table => openTag before
    | _ => []

/-- Whether a token does not begin a line of its own although a block is due to. -/
def runsOn (before : List Token) (t : Token) : Bool :=
  before.head?.any fun p =>
    p.kind == .closing .paragraph && p.tight &&
        [.opening .heading, .opening .table, .leaf .rule, .leaf .htmlBlock].contains t.kind ||
      p.kind == .opening .listItem && t.kind == .closing .listItem

/-- Whether nothing runs on in a document: it has no empty item, and no tight paragraph with a
heading, a rule, raw HTML or a table behind it. -/
def endsLines (d : Markdown.Document) : Bool :=
  isAlong (fun before t => !runsOn before t) [] (Token.ofDocument d)

/-- Kinds of tokens that end their line but no block. -/
def lineBreakers : List Kind :=
  [.opening .bulletList, .opening .orderedList, .opening .descriptionList, .opening .footnoteBlock,
    .opening .tableBody, .closing .listItem, .closing .tableHead, .closing .tableBody,
    .closing .tableRow, .closing .descriptionTerm, .closing .descriptionDetails, .closing .footnote,
    .closing .footnoteBlock]

/-- Whether nothing stands behind a token on its line. -/
def breaksLine (t : Token) : Bool :=
  lineBreakers.contains t.kind || endsBlock t && !(t.kind == .closing .paragraph && t.tight)

/-- Whether nothing but a tag stands on the line that a text ends with, and a tag on no first line
of a frame. -/
def BehindTag (tag text : Text) : Prop :=
  ∃ a, text = a ++ tag ∧ (EndsInBreak a ∨ a = [] ∧ tag = [])

/-- What the text of the innermost frame looks like behind these tokens, the nearest of which is
the first. -/
def LineAfter : List Token → Text → Prop
  | [], text => text = []
  | t :: before, text =>
    match t.kind with
    | .opening .blockquote | .opening .listItem => text = []
    | .opening .descriptionDetails | .opening .footnote | .opening .table =>
      BehindTag (openTag (t :: before)) text
    | .opening .tableRow => isBehind [.opening .tableHead] before = false → EndsInBreak text
    | _ => breaksLine t = true → EndsInBreak text

/-- A sheet as the tokens behind which it stands have left it. -/
structure Fits (before : List Token) (s : Sheet) : Prop where
  set : ∀ l ∈ s.layers, l.IsSet
  line : LineAfter before s.text

section Texts

theorem endsLine_breakBefore (after : List Token) : EndsLine (breakBefore after) := by
  unfold breakBefore
  split
  · split_ifs
    · exact .inl rfl
    · exact endsInBreak_newline.endsLine
  · exact endsInBreak_newline.endsLine

/-- A block that no paragraph and no end of an item follows is followed by a blank line. -/
theorem breakBefore_eq {after : List Token}
    (h : ∀ t ∈ after.head?, t.kind ≠ .closing .listItem ∧ (t.kind = .opening .paragraph → t.tight = false)) :
    breakBefore after = ['\n'] := by
  rcases after with _ | ⟨t, rest⟩
  · rfl
  · obtain ⟨hitem, hpar⟩ := h t rfl
    have hskip : skipEmptyParagraphs (t :: rest) = t :: rest := by
      rcases rest with _ | ⟨a, _ | ⟨b, rest⟩⟩
      · rfl
      · rfl
      · rw [skipEmptyParagraphs, if_neg]
        rintro he
        simp only [isEmptyParagraph, Bool.and_eq_true, beq_iff_eq] at he
        rw [hpar he.1.1.1.1.1] at he
        simp at he
    rw [breakBefore, hskip]
    simp [hitem]

theorem endsInBreak_alignmentRow (aligns : List (Option Align)) :
    EndsInBreak (alignmentRow aligns) := by
  refine ⟨"| " ++ Text.join " | " (aligns.map alignMarker) ++ " |", ?_⟩
  simp [alignmentRow]

theorem paragraphClose_of_loose {s : Sight} (h : s.token.tight = false) :
    paragraphClose s = '\n' :: breakBefore s.after := by
  simp only [paragraphClose, paragraphClose.closed, h]
  split <;> simp

end Texts

section Lines

variable {before : List Token} {t : Token} {text : Text}

theorem LineAfter.endsInBreak (h : LineAfter (t :: before) text) (ht : breaksLine t = true) :
    EndsInBreak text := by
  cases hk : t.kind with
  | opening c => cases c <;> simp_all [LineAfter, breaksLine, lineBreakers, endsBlock]
  | closing c => cases c <;> simp_all [LineAfter, breaksLine, lineBreakers, endsBlock]
  | leaf l => cases l <;> simp_all [LineAfter, breaksLine, lineBreakers, endsBlock]
  | unknown name => simp_all [LineAfter, breaksLine, lineBreakers, endsBlock]

theorem LineAfter.endsInBreak_of_isBehind {kinds : List Kind} (h : LineAfter before text)
    (hb : isBehind kinds before = true) (hk : kinds ⊆ lineBreakers) : EndsInBreak text := by
  rcases before with _ | ⟨p, before⟩
  · cases hb
  · have hp : p.kind ∈ lineBreakers := hk (by simpa using hb)
    exact h.endsInBreak (by simp [breaksLine, hp])

/-- Where a block may begin, nothing but an opening tag stands before it. -/
theorem LineAfter.behindTag (h : LineAfter before text) (hs : startsBlock before = true)
    (ht : ∀ p ∈ before.head?, p.kind = .closing .paragraph → p.tight = false) :
    BehindTag (openTag before) text := by
  rcases before with _ | ⟨p, before⟩
  · exact ⟨[], h, .inr ⟨rfl, rfl⟩⟩
  · rw [startsBlock_cons, Bool.or_eq_true] at hs
    rcases hs with hs | hs
    · cases hk : p.kind with
      | opening c =>
        cases c with
        | blockquote | listItem =>
          exact ⟨[], by simpa [LineAfter, hk, openTag] using h, .inr ⟨rfl, by simp [openTag, hk]⟩⟩
        | descriptionDetails | footnote => simpa [LineAfter, hk] using h
        | _ => simp [holdsBlocks, hk] at hs
      | _ => simp [holdsBlocks, hk] at hs
    · have hloose : (p.kind == .closing .paragraph && p.tight) = false := by
        rw [Bool.and_eq_false_iff]
        by_cases hk : p.kind = .closing .paragraph
        · exact .inr (ht p rfl hk)
        · exact .inl (by simpa using hk)
      have hbreaks : breaksLine p = true := by simp [breaksLine, hs, hloose]
      have htag : openTag (p :: before) = [] := by
        cases hk : p.kind with
        | opening c => simp [endsBlock, hk] at hs
        | _ => simp [openTag, hk]
      exact ⟨text, by rw [htag, List.append_nil], .inl (h.endsInBreak hbreaks)⟩

end Lines

section Rules

variable {orig before after : List Token} {t : Token} {state : State} {text : Text}

theorem loose_of_runsOn (hr : runsOn orig t = false)
    (hk : t.kind ∈ [.opening .heading, .opening .table, .leaf .rule, .leaf .htmlBlock]) :
    ∀ p ∈ orig.head?, p.kind = .closing .paragraph → p.tight = false := by
  intro p hp hpar
  rw [runsOn, Option.mem_def.1 hp, Option.any_some, Bool.or_eq_false_iff] at hr
  by_contra ht
  have htight : p.tight = true := by simpa using ht
  simp only [hpar, htight, List.contains_iff_mem.2 hk] at hr
  simp at hr

theorem line_openRule {c : Construct} (hk : t.kind = .opening c) (hf : follows orig t = true)
    (hr : runsOn orig t = false) (hline : LineAfter orig text) (hc : Role.ofKind t.kind = .plain) :
    LineAfter (t :: orig)
      (text ++ (openRule (.ofOptions {}) state ⟨before, t, after, 0⟩ c).2) := by
  cases c with
  | blockquote | listItem => simp [Role.ofKind, hk] at hc
  | bulletList | orderedList =>
    simp only [LineAfter, hk]
    exact fun _ => endsInBreak_newline.append_left text
  | descriptionList =>
    simp only [LineAfter, hk]
    exact fun _ => EndsInBreak.append_left text ⟨"<dl>".toList, rfl⟩
  | footnoteBlock =>
    simp only [LineAfter, hk]
    have hopen : EndsInBreak ("<section class=\"footnotes\">\n<ol class=\"footnotes-list\">\n" : Text) :=
      ⟨"<section class=\"footnotes\">\n<ol class=\"footnotes-list\">".toList, by decide +kernel⟩
    exact fun _ => (hopen.append_left _).append_left text
  | tableBody =>
    simp only [LineAfter, hk]
    exact fun _ => (endsInBreak_alignmentRow state.aligns).append_left text
  | table =>
    simp only [LineAfter, hk, openRule, openTable, List.append_nil, openTag]
    refine hline.behindTag ?_ (loose_of_runsOn hr (by simp [hk]))
    simp only [follows, hk, Bool.and_eq_true] at hf
    exact hf.2
  | tableRow =>
    simp only [LineAfter, hk, openRule, openTableRow, List.append_nil]
    intro hhead
    simp only [follows, hk, Bool.and_eq_true] at hf
    have hbody : isBehind [.opening .tableBody, .closing .tableRow] orig = true := by
      rcases orig with _ | ⟨p, orig⟩
      · cases hf.2
      · have hne : p.kind ≠ .opening .tableHead := by simpa using hhead
        have hp := hf.2
        simp only [isBehind_cons, List.contains_cons, List.contains_nil, Bool.or_false,
          Bool.or_eq_true, beq_iff_eq, hne, false_or] at hp ⊢
        exact hp
    exact hline.endsInBreak_of_isBehind hbody (by decide)
  | descriptionDetails =>
    simp only [LineAfter, hk, openTag]
    simp only [follows, hk, Bool.and_eq_true] at hf
    exact ⟨text, rfl, .inl (hline.endsInBreak_of_isBehind hf.2 (by decide))⟩
  | footnote =>
    simp only [LineAfter, hk, openTag]
    simp only [follows, hk, Bool.and_eq_true] at hf
    exact ⟨text, rfl, .inl (hline.endsInBreak_of_isBehind hf.2 (by decide))⟩
  | _ => simp [LineAfter, hk, breaksLine, lineBreakers, endsBlock]

theorem line_closeRule {c : Construct} (hk : t.kind = .closing c) (hf : follows orig t = true)
    (hline : LineAfter orig text) (hc : Role.ofKind t.kind = .plain) :
    LineAfter (t :: orig) (text ++ (closeRule state ⟨before, t, after, 0⟩ c).2) := by
  have hbreak := endsLine_breakBefore after
  cases c with
  | blockquote | listItem => simp [Role.ofKind, hk] at hc
  | paragraph =>
    simp only [LineAfter, hk, closeRule]
    intro ht
    have hloose : t.tight = false := by simpa [breaksLine, lineBreakers, endsBlock, hk] using ht
    rw [paragraphClose_of_loose hloose]
    exact (endsInBreak_newline.append hbreak).append_left text
  | heading =>
    simp only [LineAfter, hk]
    exact fun _ => (endsInBreak_newline.append hbreak).append_left text
  | bulletList | orderedList =>
    simp only [LineAfter, hk]
    simp only [follows, hk] at hf
    exact fun _ => (hline.endsInBreak_of_isBehind hf (by decide)).append hbreak
  | table | tableRow =>
    simp only [LineAfter, hk]
    exact fun _ => endsInBreak_newline.append_left text
  | tableHead =>
    simp only [LineAfter, hk]
    simp only [follows, hk, Bool.and_eq_true] at hf
    refine fun _ => (hline.endsInBreak_of_isBehind hf.2 (by decide)).append ?_
    simp only [closeRule, closeTableHead]
    split_ifs
    · exact .inl rfl
    · exact (endsInBreak_alignmentRow state.aligns).endsLine
  | tableBody =>
    simp only [LineAfter, hk]
    simp only [follows, hk, Bool.and_eq_true] at hf
    exact fun _ => (hline.endsInBreak_of_isBehind hf.2 (by decide)).append (.inl rfl)
  | descriptionList =>
    simp only [LineAfter, hk]
    exact fun _ => (EndsInBreak.append ⟨"</dl>".toList, rfl⟩ hbreak).append_left text
  | descriptionTerm =>
    simp only [LineAfter, hk]
    exact fun _ => EndsInBreak.append_left text ⟨"</dt>".toList, rfl⟩
  | descriptionDetails =>
    simp only [LineAfter, hk]
    exact fun _ => EndsInBreak.append_left text ⟨"</dd>".toList, rfl⟩
  | footnote =>
    simp only [LineAfter, hk]
    exact fun _ => EndsInBreak.append_left text ⟨"</li>".toList, rfl⟩
  | footnoteBlock =>
    simp only [LineAfter, hk]
    exact fun _ => EndsInBreak.append_left text ⟨"</ol>\n</section>".toList, rfl⟩
  | _ => simp [LineAfter, hk, breaksLine, lineBreakers, endsBlock]

theorem line_leafRule {l : Leaf} (hk : t.kind = .leaf l) (hf : follows orig t = true) :
    LineAfter (t :: orig)
      (text ++ (leafRule (.ofOptions {}) state ⟨before, t, after, 0⟩ l).2) := by
  have hbreak := endsLine_breakBefore after
  cases l with
  | fence =>
    simp only [LineAfter, hk]
    exact fun _ => ((endsInBreak_newline.append_left _).append hbreak).append_left text
  | code =>
    simp only [LineAfter, hk, leafRule, code]
    simp only [follows, hk, Bool.and_eq_true] at hf
    rw [if_pos hf.2]
    exact fun _ => ((endsInBreak_newline.append_left _).append hbreak).append_left text
  | htmlBlock =>
    simp only [LineAfter, hk]
    exact fun _ => ((endsInBreak_newline.append_left _).append hbreak).append_left text
  | rule =>
    simp only [LineAfter, hk]
    exact fun _ => (EndsInBreak.append ⟨"***".toList, rfl⟩ hbreak).append_left text
  | _ => simp [LineAfter, hk, breaksLine, lineBreakers, endsBlock]

end Rules

section Frames

theorem isBlank_of_isDigit {c : Char} (h : c.isDigit = true) : isBlank c = false := by
  simp only [Char.isDigit, Bool.and_eq_true, decide_eq_true_eq, UInt32.le_iff_toNat_le] at h
  have h1 : 48 ≤ c.toNat := h.1
  have h2 : c.toNat ≤ 57 := h.2
  have hne : c ≠ ' ' := by
    rintro rfl
    exact absurd h1 (by decide)
  simp only [isBlank, Bool.or_eq_false_iff, Bool.and_eq_false_iff, beq_eq_false_iff_ne,
    decide_eq_false_iff_not]
  refine ⟨⟨⟨⟨⟨⟨⟨⟨⟨⟨hne, ?_⟩, ?_⟩, ?_⟩, ?_⟩, ?_⟩, ?_⟩, ?_⟩, ?_⟩, ?_⟩, ?_⟩ <;> omega

theorem isBlank_bulletFor {marks : List Char} (h : marks = bullets ∨ marks = bylineBullets)
    (depth : Nat) : isBlank (bulletFor marks depth) = false := by
  have hall : ∀ i, i < 4 → isBlank (bullets.getD i '*') = false ∧
      isBlank (bylineBullets.getD i '*') = false := by decide
  have hlt : depth % 4 < 4 := Nat.mod_lt _ (by decide)
  rcases h with rfl | rfl
  · exact (hall _ hlt).1
  · exact (hall _ hlt).2

theorem isMarker_cons {c : Char} (hc : isBlank c = false) {t : Text} (ht : '\n' ∉ t) :
    IsMarker (c :: t) where
  ne_nil := by simp
  visible d hd := by
    cases hd
    exact hc
  newline_not_mem := by
    have hn : c ≠ '\n' := ne_of_not_isBlank hc rfl
    simp [hn.symm, ht]

theorem newline_not_mem_ofNat (n : Nat) : '\n' ∉ Text.ofNat n := fun h =>
  ne_of_not_isBlank
    (isBlank_of_isDigit (Nat.isDigit_of_mem_toDigits (by decide) (by decide) h)) rfl rfl

theorem isMarker_ordinal (n : Nat) {delimiter : Char} (hd : delimiter = '.' ∨ delimiter = ')') :
    IsMarker (Text.ofNat n ++ [delimiter, ' ']) := by
  have hline := newline_not_mem_ofNat n
  rcases ht : Text.ofNat n with _ | ⟨c, t⟩
  · exact absurd ht Nat.toDigits_ne_nil
  · have hc : isBlank c = false :=
      isBlank_of_isDigit (Nat.isDigit_of_mem_toDigits (b := 10) (n := n) (by decide) (by decide)
        (show c ∈ Text.ofNat n by simp [ht]))
    rw [ht, List.mem_cons, not_or] at hline
    refine isMarker_cons hc ?_
    rcases hd with rfl | rfl <;> simp [hline.2]

theorem isMarker_listItemOpen (options : Options) (state : State) (s : Sight) :
    IsMarker (listItemOpen options state s).2 := by
  have hbullet : ∀ shift, IsMarker [listItemOpen.bullet options s shift, ' '] := by
    intro shift
    refine isMarker_cons ?_ (by simp)
    unfold listItemOpen.bullet
    split_ifs
    · exact isBlank_bulletFor (.inr rfl) _
    · exact isBlank_bulletFor (.inl rfl) _
  unfold listItemOpen
  split
  · split_ifs
    · exact isMarker_ordinal _ (.inl rfl)
    · exact isMarker_ordinal _ (.inr rfl)
    · exact hbullet _
  · exact hbullet 0

theorem endsInBreak_closed {l : Layer} (hk : l.kind = .item) {body : Text} (h : EndsInBreak body) :
    EndsInBreak (l.closed body) := by
  obtain ⟨u, rfl⟩ := h
  rw [Layer.closed, hk, FrameKind.change, indentContinuations_newline, ← List.append_assoc]
  exact endsInBreak_newline.append_left _

theorem isBalanced_add {s : Sheet} {p : Piece} {rest : List Turn}
    (h : isBalanced (s.layers.map (·.kind)) (p.role.turn?.toList ++ rest) = true) :
    isBalanced ((s.add p).layers.map (·.kind)) rest = true := by
  unfold Sheet.add
  rcases ht : p.role.turn? with _ | k | k <;> rw [ht] at h
  · exact h
  · exact h
  · rcases hl : s.layers with _ | ⟨l, layers⟩ <;> rw [hl] at h
    · cases h
    · simp only [Option.toList_some, List.singleton_append, List.map_cons, isBalanced,
        Bool.and_eq_true] at h
      exact h.2

variable {orig before after : List Token} {t : Token} {state : State} {s : Sheet}

/-- The end of an item ends its line, as the item is not empty and another item or the end of the
list follows. -/
theorem endsInBreak_listItemClose (hk : t.kind = .closing .listItem)
    (hb : before.head?.any (·.tight) = orig.head?.any (·.tight)) (hf : follows orig t = true)
    (hr : runsOn orig t = false) (hnext : ∀ u ∈ after.head?, follows (t :: orig) u = true)
    (hline : LineAfter orig s.text) {l : Layer} (hl : l.kind = .item) :
    EndsInBreak (l.closed s.text ++ listItemClose ⟨before, t, after, 0⟩) := by
  unfold listItemClose
  simp only [hb]
  split_ifs with htight
  · have hgap : breakBefore after = ['\n'] := by
      refine breakBefore_eq fun u hu => ?_
      have hu := hnext u hu
      have hne : u.kind ≠ .closing .listItem ∧ u.kind ≠ .opening .paragraph := by
        constructor
        all_goals
          intro huk
          simp [follows, huk, hk] at hu
      exact ⟨hne.1, fun h => absurd h hne.2⟩
    rw [hgap]
    exact endsInBreak_newline.append_left _
  · rw [List.append_nil]
    refine endsInBreak_closed hl ?_
    rcases orig with _ | ⟨p, orig⟩
    · simp [follows, hk] at hf
    · have hp : p.kind ≠ .opening .listItem := by
        intro hp
        simp [runsOn, hp, hk] at hr
      have hends : endsBlock p = true := by
        simp only [follows, hk, Bool.and_eq_true, List.head?_cons, Option.any_some,
          Bool.or_eq_true, beq_iff_eq] at hf
        exact hf.2.resolve_left hp
      have hloose : p.tight = false := by simpa using htight
      exact hline.endsInBreak (by simp [breaksLine, hends, hloose])

theorem fits_opens (hf : follows orig t = true) (hs : Fits orig s) {k : FrameKind}
    (hk : (Role.ofKind t.kind).turn? = some (.opens k)) :
    Fits (t :: orig)
      (s.add ⟨.ofKind t.kind, (rule (.ofOptions {}) state ⟨before, t, after, 0⟩).2⟩) := by
  have hkind : t.kind = .opening .blockquote ∧ k = .quote ∨
      t.kind = .opening .listItem ∧ k = .item := by
    unfold Role.ofKind at hk
    split at hk
    · next h => exact .inl ⟨h, by cases hk; rfl⟩
    · cases hk
    · next h => exact .inr ⟨h, by cases hk; rfl⟩
    · cases hk
    · cases hk
  rw [Sheet.add, hk]
  rcases hkind with ⟨hkind, rfl⟩ | ⟨hkind, rfl⟩
  · refine ⟨List.forall_mem_cons.2 ⟨⟨fun _ => ?_, fun h => by cases h⟩, hs.set⟩, ?_⟩
    · simp [rule, hkind, openRule]
    · simp [LineAfter, hkind]
  · simp only [follows, hkind] at hf
    have hbreak := hs.line.endsInBreak_of_isBehind hf (by decide)
    refine ⟨List.forall_mem_cons.2 ⟨⟨fun h => (by cases h), fun _ => ⟨hbreak, ?_⟩⟩, hs.set⟩, ?_⟩
    · simp only [rule, hkind, openRule]
      exact isMarker_listItemOpen _ _ _
    · simp [LineAfter, hkind]

theorem fits_closes (hb : before.head?.any (·.tight) = orig.head?.any (·.tight))
    (hf : follows orig t = true) (hr : runsOn orig t = false)
    (hnext : ∀ u ∈ after.head?, follows (t :: orig) u = true)
    (hbal : isBalanced (s.layers.map (·.kind)) (frameTurns (t :: after)) = true) (hs : Fits orig s)
    {k : FrameKind} (hk : (Role.ofKind t.kind).turn? = some (.closes k)) :
    Fits (t :: orig)
      (s.add ⟨.ofKind t.kind, (rule (.ofOptions {}) state ⟨before, t, after, 0⟩).2⟩) := by
  have hkind : t.kind = .closing .blockquote ∧ k = .quote ∨
      t.kind = .closing .listItem ∧ k = .item := by
    unfold Role.ofKind at hk
    split at hk
    · cases hk
    · next h => exact .inl ⟨h, by cases hk; rfl⟩
    · cases hk
    · next h => exact .inr ⟨h, by cases hk; rfl⟩
    · cases hk
  obtain ⟨l, layers, hlayers, hlk⟩ : ∃ l layers, s.layers = l :: layers ∧ l.kind = k := by
    rw [frameTurns, List.filterMap_cons, hk] at hbal
    rcases hl : s.layers with _ | ⟨l, layers⟩ <;> rw [hl] at hbal
    · cases hbal
    · simp only [List.map_cons, isBalanced, Bool.and_eq_true, beq_iff_eq] at hbal
      exact ⟨l, layers, rfl, hbal.1⟩
  have hset := hs.set
  rw [hlayers] at hset
  rw [Sheet.add, hk, hlayers]
  refine ⟨(List.forall_mem_cons.1 hset).2, ?_⟩
  rcases hkind with ⟨hkind, rfl⟩ | ⟨hkind, rfl⟩
  · simp only [LineAfter, hkind, rule, closeRule]
    exact fun _ => (endsInBreak_newline.append (endsLine_breakBefore after)).append_left _
  · simp only [LineAfter, hkind, rule, closeRule]
    exact fun _ => endsInBreak_listItemClose hkind hb hf hr hnext hs.line hlk

/-- What a token writes leaves the sheet as it is to be left behind that token. -/
theorem fits_rule (hb : before.head?.any (·.tight) = orig.head?.any (·.tight))
    (hf : follows orig t = true) (hr : runsOn orig t = false)
    (hnext : ∀ u ∈ after.head?, follows (t :: orig) u = true)
    (hbal : isBalanced (s.layers.map (·.kind)) (frameTurns (t :: after)) = true) (hs : Fits orig s) :
    Fits (t :: orig)
      (s.add ⟨.ofKind t.kind, (rule (.ofOptions {}) state ⟨before, t, after, 0⟩).2⟩) := by
  rcases hturn : (Role.ofKind t.kind).turn? with _ | k | k
  · have hrole : Role.ofKind t.kind = .plain := by
      cases hr : Role.ofKind t.kind <;> rw [hr] at hturn <;> first | rfl | cases hturn
    rw [Sheet.add, hturn]
    refine ⟨hs.set, ?_⟩
    simp only [Sheet.write, rule]
    cases hk : t.kind with
    | opening c => exact line_openRule hk hf hr hs.line hrole
    | closing c => exact line_closeRule hk hf hs.line hrole
    | leaf l => exact line_leafRule hk hf
    | unknown name => simp [follows, hk] at hf
  · exact fits_opens hf hs hturn
  · exact fits_closes hb hf hr hnext hbal hs hturn

end Frames

section Walking

variable {orig before after : List Token} {t : Token} {state : State} {s : Sheet}

/-- The tokens between blocks are no links or images, so that they stay as they are. -/
theorem step_of_follows (hf : follows orig t = true) (hi : t.kind ≠ .leaf .inline) :
    step (.ofOptions {}) state before after 0 false t =
      ⟨(rule (.ofOptions {}) state ⟨before, t, after, 0⟩).1, t,
        (rule (.ofOptions {}) state ⟨before, t, after, 0⟩).2, none⟩ := by
  have hsettle : settle false t after = t := by
    unfold settle
    split
    · next hk => simp [follows, hk] at hf
    · next hk => simp [follows, hk] at hf
    · rfl
  obtain ⟨kind, content, children, level, href, src, title, alt, align, headingLevel, tight, block,
    params, id, subId⟩ := t
  rw [step, if_neg (by simpa using hi), stepLeaf, hsettle]
  split
  · next h => cases h
  · rfl

theorem linksAfter_of_follows (hf : follows orig t = true) :
    linksAfter 0 t.kind = 0 ∧ takesFragment 0 t.kind = false := by
  constructor
  · unfold linksAfter
    split
    · next hk => simp [follows, hk] at hf
    · rfl
    · rfl
  · unfold takesFragment
    split
    · next hk => simp [follows, hk] at hf
    · rfl
    · rfl

theorem tight_of_childless (hb : before.map childless = orig.map childless) :
    before.head?.any (·.tight) = orig.head?.any (·.tight) := by
  have h := congrArg (fun ts => ts.head?.any (·.tight)) hb
  simpa [List.head?_map, Option.any_map, childless] using h

/-- One step of a walk over the tokens between blocks. -/
theorem exists_step (hb : before.map childless = orig.map childless) (hf : follows orig t = true)
    (hr : runsOn orig t = false) (hnext : ∀ u ∈ after.head?, follows (t :: orig) u = true)
    (hbal : isBalanced (s.layers.map (·.kind)) (frameTurns (t :: after)) = true) (hs : Fits orig s) :
    ∃ state' t' written, step (.ofOptions {}) state before after 0 false t =
        ⟨state', t', written, none⟩ ∧
      (t.kind ≠ .leaf .inline →
        written = (rule (.ofOptions {}) state ⟨before, t, after, 0⟩).2) ∧
      (t' :: before).map childless = (t :: orig).map childless ∧ t'.kind = t.kind ∧
      Fits (t :: orig) (s.add ⟨.ofKind t.kind, written⟩) := by
  by_cases hi : t.kind = .leaf .inline
  · have hstop : (walk (.ofOptions {}) state [] 0 false t.children).stopped = none :=
      stopped_walk rfl _ _ _ _ _
    refine ⟨_, { t with children := (walk (.ofOptions {}) state [] 0 false t.children).tokens }, _,
      (step_inline hi rfl).trans (by rw [hstop]), fun h => absurd hi h, ?_, rfl, ?_⟩
    · rw [List.map_cons, List.map_cons, hb]
      rfl
    · rw [hi]
      exact ⟨hs.set, by simp [LineAfter, hi, breaksLine, lineBreakers, endsBlock]⟩
  · refine ⟨_, _, _, step_of_follows hf hi, fun _ => rfl, ?_, rfl,
      fits_rule (tight_of_childless hb) hf hr hnext hbal hs⟩
    rw [List.map_cons, List.map_cons, hb]

theorem head_of_isAlong {p : List Token → Token → Bool} {tokens : List Token}
    (h : isAlong p orig tokens = true) : ∀ u ∈ tokens.head?, p orig u = true := by
  rcases tokens with _ | ⟨t, tokens⟩
  · exact fun u hu => nomatch hu
  · rintro u hu
    cases hu
    rw [isAlong, Bool.and_eq_true] at h
    exact h.1

/-- A walk over the tokens of a document comes to each of them with a sheet as it is to be there. -/
theorem exists_walk : ∀ {tokens orig before : List Token} {state : State} {s : Sheet},
    before.map childless = orig.map childless → isAlong follows orig tokens = true →
    isAlong (fun before t => !runsOn before t) orig tokens = true →
    isBalanced (s.layers.map (·.kind)) (frameTurns tokens) = true → Fits orig s →
    ∀ {above : List Token} {t : Token} {below : List Token}, tokens = above ++ t :: below →
      ∃ done rest state' before' written,
        (walk (.ofOptions {}) state before 0 false tokens).pieces =
          done ++ ⟨.ofKind t.kind, written⟩ :: rest ∧
        done.length = above.length ∧
        (t.kind ≠ .leaf .inline →
          written = (rule (.ofOptions {}) state' ⟨before', t, below, 0⟩).2) ∧
        Fits (above.reverse ++ orig) (s.run done)
  | [], orig, before, state, s, _, _, _, _, _, above, t, below, h => by simp at h
  | t₀ :: after, orig, before, state, s, hb, hf, hr, hbal, hs, above, t, below, h => by
    rw [isAlong, Bool.and_eq_true] at hf hr
    obtain ⟨state', t', written, hstep, hwritten, hb', hkind, hs'⟩ := exists_step hb hf.1
      (by simpa using hr.1) (head_of_isAlong hf.2) hbal hs
    obtain ⟨hlinks, htakes⟩ := linksAfter_of_follows hf.1
    rw [walk_cons hstep rfl, hkind, hlinks, htakes]
    rcases above with _ | ⟨t₁, above⟩
    · obtain ⟨rfl, rfl⟩ := List.cons.inj h
      exact ⟨[], _, state, before, written, rfl, rfl, hwritten, hs⟩
    · obtain ⟨rfl, rfl⟩ := List.cons.inj h
      have hbal' : isBalanced ((s.add ⟨.ofKind t₀.kind, written⟩).layers.map (·.kind))
          (frameTurns (above ++ t :: below)) = true := by
        refine isBalanced_add ?_
        rw [frameTurns, List.filterMap_cons] at hbal
        cases hturn : (Role.ofKind t₀.kind).turn? <;> rw [hturn] at hbal <;> exact hbal
      obtain ⟨done, rest, state₁, before₁, w, hpieces, hlen, hw, hfits⟩ :=
        @exists_walk _ _ _ state' _ hb' hf.2 hr.2 hbal' hs' above t below rfl
      refine ⟨⟨.ofKind t₀.kind, written⟩ :: done, rest, state₁, before₁, w, ?_, by simp [hlen], hw,
        ?_⟩
      · exact congrArg (⟨.ofKind t₀.kind, written⟩ :: ·) hpieces
      · simpa [Sheet.run_cons] using hfits

end Walking

/-- The rendered text that pieces come to. -/
def rendered? (pieces : List Piece) : Option Text :=
  ((draw? pieces).bind Canvas.finish?).map (polish {})

/-- Whether what stands between some pieces and others, behind the text `lead`, begins a line of the
rendered text, whatever it is, with nothing but `margin` and white space in front of it. -/
def BeginsLine (done : List Piece) (role : Role) (lead : Text) (rest : List Piece) (margin : Text) :
    Prop :=
  ∃ above indent, EndsLine above ∧ IsGap indent ∧ ∀ c s, isBlank c = false → ∃ below,
    rendered? (done ++ ⟨role, lead ++ c :: s⟩ :: rest) =
      some (above ++ (margin ++ indent) ++ c :: below)

/-- Whether a token writes the beginning of a line: a heading, a rule, code, raw HTML, a row of a
table with its first token, or the marker of an item. -/
def startsLine (before : List Token) (t : Token) : Bool :=
  match t.kind with
  | .opening .heading | .opening .listItem | .opening .tableHead | .opening .tableBody
  | .closing .tableHead | .leaf .rule | .leaf .fence | .leaf .code | .leaf .htmlBlock => true
  | .opening .dataCell => isBehind [.opening .tableRow] before
  | _ => false

/-- What is in front of the text that comes behind some pieces and the white space `lead`: what the
open frames put before the line, and a tag that has been opened on it. -/
def marginAt (above : List Token) (done : List Piece) (lead : Text) : Text :=
  let s := Sheet.run {} done
  if lead.contains '\n' then edges s.layers
  else edgesBelow s.text s.layers ++ openTag above.reverse

section Starting

theorem turns_append_cons (done : List Piece) (role : Role) (s t : Text) (rest : List Piece) :
    turns (done ++ ⟨role, s⟩ :: rest) = turns (done ++ ⟨role, t⟩ :: rest) := by
  rw [Canvas.turns_append, Canvas.turns_append, turns_cons, turns_cons]

theorem isBalanced_run : ∀ {done rest : List Piece} {s : Sheet},
    isBalanced (s.layers.map (·.kind)) (turns (done ++ rest)) = true →
      isBalanced ((s.run done).layers.map (·.kind)) (turns rest) = true
  | [], _, _, h => h
  | p :: done, rest, s, h => by
    rw [List.cons_append, turns_cons] at h
    exact @isBalanced_run done rest _ (isBalanced_add h)

theorem rendered?_of_isBalanced {pieces : List Piece} (h : isBalanced [] (turns pieces) = true) :
    rendered? pieces = some (polish {} (Sheet.run {} pieces).text) := by
  rw [rendered?, (draw?_of_isBalanced h).1]
  rfl

/-- What is written at the beginning of a line of the sheet begins a line in the end. -/
theorem beginsLine_of_sheet {done rest : List Piece} {role : Role} {lead a m indent : Text}
    (hrole : role = .plain ∨ role = .opensItem)
    (hbal : isBalanced [] (turns (done ++ ⟨role, []⟩ :: rest)) = true)
    (hset : ∀ l ∈ (Sheet.run {} done).layers, l.IsSet)
    (heq : (Sheet.run {} done).text ++ lead = a ++ (m ++ indent)) (ha : EndsLine a)
    (hm : '\n' ∉ m) (hv : BeginsVisible m) (hindent : IsGap indent) :
    BeginsLine done role lead rest (edgesBelow a (Sheet.run {} done).layers ++ m) := by
  obtain ⟨a₁, ha₁, hedges, hvisible, hrun⟩ :=
    exists_line_run hindent.newline_not_mem hset ha hm fun _ => hv
  obtain ⟨a₂, indent', ha₂, hindent', hpolish⟩ := exists_line_polish ha₁ hedges hindent hvisible
  refine ⟨a₂, indent', ha₂, hindent', fun c s hc => ?_⟩
  have hrest := @isBalanced_run _ _ {} hbal
  rw [turns_append_cons done role [] (lead ++ c :: s)] at hbal
  obtain ⟨s', hs'⟩ : ∃ s', Sheet.run {} (done ++ ⟨role, lead ++ c :: s⟩ :: rest) =
      ⟨[], a₁ ++ (edgesBelow a (Sheet.run {} done).layers ++ m ++ indent) ++ c :: s'⟩ := by
    have htext : (Sheet.run {} done).text ++ (lead ++ c :: s) = a ++ (m ++ indent) ++ c :: s := by
      rw [← List.append_assoc, heq]
    rw [Sheet.run_append, Sheet.run_cons]
    rcases hrole with rfl | rfl
    · obtain ⟨s', hs'⟩ := hrun c s rest hc hrest
      exact ⟨s', by rw [← hs', ← htext]; rfl⟩
    · -- The item closes later, and its marker stays where it is.
      obtain ⟨plans, closing, rest', rfl, hrest'⟩ := begins_of_isBalanced rest (_ :: _) hrest
      obtain ⟨s', hs'⟩ := hrun c (s ++ (FrameKind.item.change (lead ++ c :: s).byteLength
        (Plan.allDrawn plans) ++ closing)) rest' hc hrest'
      refine ⟨s', ?_⟩
      rw [← hs', Sheet.run_append, sheet_run_plans, Sheet.run_cons, ← List.cons_append,
        ← List.append_assoc (a ++ (m ++ indent)), ← htext]
      simp [Sheet.add, Role.turn?, Turn.role, Sheet.write, Layer.closed]
  obtain ⟨below, hbelow⟩ := hpolish c s' hc
  exact ⟨below, by rw [rendered?_of_isBalanced hbal, hs', hbelow]⟩

theorem isMarker_openTag : ∀ {before : List Token}, openTag before ≠ [] → IsMarker (openTag before)
  | [], h => absurd rfl h
  | t :: before, h => by
    unfold openTag at h ⊢
    split
    · exact isMarker_cons (by decide) (by decide)
    · refine isMarker_cons (c := '<') (t := "li id=\"fn".toList ++ Text.ofNat (t.id + 1) ++
        "\"  class=\"footnote-item\">".toList) (by decide) ?_
      simp [newline_not_mem_ofNat]
    · next hk =>
      rw [hk] at h
      exact isMarker_openTag h
    · next h1 h2 h3 => simp_all

theorem openTag_isLine (before : List Token) :
    '\n' ∉ openTag before ∧ BeginsVisible (openTag before) := by
  by_cases h : openTag before = []
  · rw [h]
    exact ⟨List.not_mem_nil, beginsVisible_nil⟩
  · exact ⟨(isMarker_openTag h).newline_not_mem, (isMarker_openTag h).visible⟩

theorem edgesBelow_congr {a b : Text} (h : a.isEmpty = b.isEmpty) (layers : List Layer) :
    edgesBelow a layers = edgesBelow b layers := by
  rcases layers with _ | ⟨⟨_ | _, above, opening⟩, layers⟩
  · rfl
  · rfl
  · simp only [edgesBelow, Layer.edgeBelow, h]

variable {before : List Token} {t : Token} {text : Text}

theorem behindTag_of_isBehind {kinds : List Kind} (h : LineAfter before text)
    (hb : isBehind kinds before = true) (hk : kinds ⊆ lineBreakers) :
    BehindTag (openTag before) text := by
  have htag : openTag before = [] := by
    rcases before with _ | ⟨p, before⟩
    · rfl
    · have hp : p.kind ∈ lineBreakers := hk (by simpa using hb)
      unfold openTag
      split
      all_goals first
        | rfl
        | next hpk => simp [lineBreakers, hpk] at hp
  exact ⟨text, by rw [htag, List.append_nil], .inl (h.endsInBreak_of_isBehind hb hk)⟩

/-- A token that begins a line stands at the beginning of one, unless it writes line feeds first. -/
theorem behindTag_of_startsLine (h : LineAfter before text) (hs : startsLine before t = true)
    (hcode : t.kind ≠ .leaf .fence ∧ t.kind ≠ .leaf .code) (hf : follows before t = true)
    (hr : runsOn before t = false) : BehindTag (openTag before) text := by
  have hblock : t.kind ∈ [.opening .heading, .opening .table, .leaf .rule, .leaf .htmlBlock] →
      BehindTag (openTag before) text := by
    intro hk
    refine h.behindTag ?_ (loose_of_runsOn hr hk)
    simp only [List.mem_cons, List.not_mem_nil, or_false] at hk
    rcases hk with hk | hk | hk | hk <;>
      · simp only [follows, hk, Bool.and_eq_true] at hf
        exact hf.2
  cases hk : t.kind with
  | opening c =>
    cases c with
    | heading => exact hblock (by simp [hk])
    | listItem =>
      simp only [follows, hk] at hf
      exact behindTag_of_isBehind h hf (by decide)
    | tableHead =>
      simp only [follows, hk, Bool.and_eq_true] at hf
      rcases before with _ | ⟨p, before⟩
      · cases hf.2
      · have hp : p.kind = .opening .table := by simpa using hf.2
        simpa [LineAfter, hp] using h
    | tableBody =>
      simp only [follows, hk, Bool.and_eq_true] at hf
      exact behindTag_of_isBehind h hf.2 (by decide)
    | dataCell =>
      simp only [startsLine, hk] at hs
      simp only [follows, hk, hs, Bool.and_eq_true, Bool.not_true, Bool.false_or] at hf
      rcases before with _ | ⟨p, before⟩
      · cases hs
      · have hp : p.kind = .opening .tableRow := by simpa using hs
        have hbreak : EndsInBreak text := by
          simp only [LineAfter, hp] at h
          exact h (by simpa using hf.2)
        exact ⟨text, by simp [openTag, hp], .inl hbreak⟩
    | _ => simp [startsLine, hk] at hs
  | closing c =>
    cases c with
    | tableHead =>
      simp only [follows, hk, Bool.and_eq_true] at hf
      exact behindTag_of_isBehind h hf.2 (by decide)
    | _ => simp [startsLine, hk] at hs
  | leaf l =>
    cases l with
    | rule | htmlBlock => exact hblock (by simp [hk])
    | fence => exact absurd hk hcode.1
    | code => exact absurd hk hcode.2
    | _ => simp [startsLine, hk] at hs
  | unknown name => simp [startsLine, hk] at hs

/-- White space that begins behind a tag, or that ends a line, leaves what comes next at the
beginning of a line. -/
theorem exists_line_lead {lead : Text} (layers : List Layer) (hlead : ∀ c ∈ lead, isBlank c = true)
    (h : '\n' ∉ lead → BehindTag (openTag before) text) : ∃ a m indent, EndsLine a ∧
      '\n' ∉ m ∧ BeginsVisible m ∧ IsGap indent ∧ text ++ lead = a ++ (m ++ indent) ∧
      edgesBelow a layers ++ m =
        if lead.contains '\n' then edges layers
        else edgesBelow text layers ++ openTag before := by
  by_cases hmem : '\n' ∈ lead
  · obtain ⟨u, v, hv, rfl⟩ : ∃ u v, '\n' ∉ v ∧ lead = u ++ '\n' :: v := by
      obtain ⟨v, u, hrev, hv⟩ := List.eq_append_cons_of_mem (List.mem_reverse.2 hmem)
      refine ⟨u.reverse, v.reverse, by simpa using hv, ?_⟩
      rw [← List.reverse_reverse lead, hrev]
      simp
    refine ⟨text ++ u ++ ['\n'], [], v, endsLine_newline _, List.not_mem_nil, beginsVisible_nil,
      fun c hc => ⟨hlead c (by simp [hc]), fun he => hv (he ▸ hc)⟩, by simp, ?_⟩
    rw [edgesBelow_of_newline]
    simp
  · obtain ⟨a, rfl, ha⟩ := h hmem
    refine ⟨a, openTag before, lead, ?_, (openTag_isLine before).1, (openTag_isLine before).2,
      fun c hc => ⟨hlead c hc, fun he => hmem (he ▸ hc)⟩, List.append_assoc _ _ _, ?_⟩
    · rcases ha with ha | ⟨rfl, -⟩
      · exact ha.endsLine
      · exact .inl rfl
    · rw [if_neg (by simpa using hmem)]
      congr 1
      refine edgesBelow_congr ?_ layers
      rcases ha with ⟨u, rfl⟩ | ⟨rfl, htag⟩
      · cases u <;> rfl
      · rw [htag]
        rfl

theorem role_of_startsLine {above : List Token} (hs : startsLine above t = true) :
    Role.ofKind t.kind = .plain ∨ Role.ofKind t.kind = .opensItem := by
  unfold startsLine at hs
  split at hs
  all_goals first
    | next hk =>
      rw [hk]
      first
        | exact .inl rfl
        | exact .inr rfl
    | cases hs

/-- Code begins with a line feed. -/
theorem newline_mem_of_isCode {state : State} {before' below : List Token}
    (hf : follows before t = true) (hcode : t.kind = .leaf .fence ∨ t.kind = .leaf .code) :
    '\n' ∈ (rule (.ofOptions {}) state ⟨before', t, below, 0⟩).2.takeWhile isBlank := by
  rcases hcode with hk | hk
  · simp [rule, hk, leafRule, fence, fenced, isBlank]
  · simp only [follows, hk, Bool.and_eq_true] at hf
    simp [rule, hk, leafRule, code, hf.2, fenced, isBlank]

/-- Where a token of a document is written. -/
theorem exists_place {d : Markdown.Document} {above below : List Token}
    (hd : endsLines d = true)
    (hsplit : Token.ofDocument d = above ++ t :: below) :
    follows above.reverse t = true ∧ runsOn above.reverse t = false ∧
      ∃ done written rest state before, (walkAll (.ofOptions {}) (Token.ofDocument d)).pieces =
          done ++ ⟨.ofKind t.kind, written⟩ :: rest ∧ done.length = above.length ∧
        isBalanced [] (turns (done ++ ⟨.ofKind t.kind, []⟩ :: rest)) = true ∧
        Fits above.reverse (Sheet.run {} done) ∧
        (t.kind ≠ .leaf .inline →
          written = (rule (.ofOptions {}) state ⟨before, t, below, 0⟩).2) := by
  have hf := isAlong_ofDocument d
  have hbal := isBalanced_ofDocument d
  have hstart : Fits [] ({} : Sheet) := ⟨fun _ h => (by cases h), rfl⟩
  obtain ⟨done, rest, state, before, written, hpieces, hlen, hwritten, hfits⟩ :=
    @exists_walk _ [] [] {} {} rfl hf hd hbal hstart above t below hsplit
  rw [List.append_nil] at hfits
  rw [endsLines] at hd
  rw [hsplit, isAlong_append, Bool.and_eq_true, isAlong, Bool.and_eq_true, List.append_nil] at hf hd
  refine ⟨hf.2.1, by simpa using hd.2.1, done, written, rest, state, before, hpieces, hlen, ?_, hfits,
    hwritten⟩
  rw [turns_append_cons done _ [] written, ← hpieces]
  obtain ⟨rest', hrest', hnone⟩ := turns_walk (.ofOptions {}) (Token.ofDocument d) {} [] 0 false
  rw [hrest', hnone (stopped_walk rfl _ _ _ _ _), List.append_nil] at hbal
  exact hbal

/-- Every token of a document that writes the beginning of a line does begin one, unless a token
runs on where a block is due to begin. -/
theorem beginsLine_of_startsLine {d : Markdown.Document} {above below : List Token}
    (hd : endsLines d = true)
    (hsplit : Token.ofDocument d = above ++ t :: below)
    (hs : startsLine above.reverse t = true) :
    ∃ done written rest, (walkAll (.ofOptions {}) (Token.ofDocument d)).pieces =
        done ++ ⟨.ofKind t.kind, written⟩ :: rest ∧ done.length = above.length ∧
      BeginsLine done (.ofKind t.kind) (written.takeWhile isBlank) rest
        (marginAt above done (written.takeWhile isBlank)) := by
  obtain ⟨hf, hr, done, written, rest, state, before, hpieces, hlen, hbal, hfits, hwritten⟩ :=
    exists_place hd hsplit
  refine ⟨done, written, rest, hpieces, hlen, ?_⟩
  have hleaf : t.kind ≠ .leaf .inline := by
    intro hk
    simp [startsLine, hk] at hs
  have hlead : '\n' ∉ written.takeWhile isBlank →
      BehindTag (openTag above.reverse) (Sheet.run {} done).text := by
    intro hn
    rw [hwritten hleaf] at hn
    exact behindTag_of_startsLine hfits.line hs ⟨fun hk => hn (newline_mem_of_isCode hf (.inl hk)),
      fun hk => hn (newline_mem_of_isCode hf (.inr hk))⟩ hf hr
  obtain ⟨a, m, indent, ha, hm, hv, hindent, heq, hmargin⟩ :=
    exists_line_lead (Sheet.run {} done).layers (fun c hc => List.mem_takeWhile_imp hc) hlead
  have h := beginsLine_of_sheet (role_of_startsLine hs) hbal hfits.set heq ha hm hv hindent
  rwa [hmargin] at h

end Starting

end Render

end TidyMark
