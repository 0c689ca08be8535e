import TidyMark.Proofs.BlockApart
import TidyMark.Proofs.InlineWalk
import TidyMark.Proofs.Paragraph

/-!
# Outlines

An outline is a tight list of single lines, in which an item may hold one more outline. (Emphasis at
the end of a paragraph ends the line by itself, so the text of an item must not end with it.) The
obvious printer goes through the tree and writes a line for each item: as many spaces as the markers
of the items around it are wide, its own marker and its text (`outline`). The rules write the
markers and the line ends from left to right, with no look at the tree, and the layout indents the
body of each item when it ends; this comes to the same text (`render_outline`).
-/

namespace TidyMark.Render

open Token Markdown Text

/-- Whether a text stands on one line and shows something at both ends. -/
def isLine (t : Text) : Bool :=
  !t.contains '\n' && t.head?.any (!isBlank ·) && t.getLast?.any (!isBlank ·)

mutual

/-- Whether a block is an outline. -/
def isOutline : Block (List Inline) → Bool
  | .list _ tight items => tight && !items.isEmpty && areEntries items
  | _ => false

def areOutlines : List (Block (List Inline)) → Bool
  | [] => true
  | b :: bs => isOutline b && areOutlines bs

/-- Whether items hold a line each and one outline at most. -/
def areEntries : List (Item (List Inline)) → Bool
  | [] => true
  | .mk (.paragraph xs :: below) :: rest =>
    isLine (inlineText xs) && below.length ≤ 1 && areOutlines below && areEntries rest
  | _ => false

end

/-- The marker of an item in a list inside `depth` others, with the space behind it. -/
def itemMarker (kind : ListKind) (depth position : Nat) : Text :=
  match kind with
  | .bullet => [bulletFor bullets depth, ' ']
  | .ordered _ => Text.ofNat position ++ ['.', ' ']

mutual

/-- The lines of an outline inside `depth` others, `margin` columns from the left. -/
def outline (depth margin : Nat) : Block (List Inline) → List Text
  | .list kind _ items => entries kind depth margin 1 items
  | _ => []

def outlines (depth margin : Nat) : List (Block (List Inline)) → List Text
  | [] => []
  | b :: bs => outline depth margin b ++ outlines depth margin bs

/-- The lines of the items from a position on. -/
def entries (kind : ListKind) (depth margin position : Nat) : List (Item (List Inline)) → List Text
  | [] => []
  | .mk (.paragraph xs :: below) :: rest =>
    (List.replicate margin ' ' ++ itemMarker kind depth position ++ inlineText xs) ::
      (outlines (depth + 1) (margin + (itemMarker kind depth position).length) below ++
        entries kind depth margin (position + 1) rest)
  | _ => []

end

section Lines

/-- What a line of an outline is, wherever it begins. -/
structure IsShown (l : Text) : Prop where
  newline_not_mem : '\n' ∉ l
  ends : ∃ m c, l = m ++ [c] ∧ isBlank c = false

variable {t : Text}

theorem IsShown.allBlank {l : Text} (h : IsShown l) : allBlank l = false := by
  obtain ⟨m, c, rfl, hc⟩ := h.ends
  exact allBlank_append_cons m hc []

theorem isShown_of_isLine {m : Text} (hm : '\n' ∉ m) (h : isLine t = true) : IsShown (m ++ t) := by
  simp only [isLine, Bool.and_eq_true, Bool.not_eq_true', List.contains_eq_mem,
    decide_eq_false_iff_not] at h
  obtain ⟨⟨hn, -⟩, hlast⟩ := h
  obtain ⟨c, hc, hblank⟩ := (Option.any_eq_true _ _).1 hlast
  obtain ⟨u, rfl⟩ := List.getLast?_eq_some_iff.1 hc
  exact ⟨by simp_all, m ++ u, c, by simp, by simpa using hblank⟩

theorem isMarker_itemMarker (kind : ListKind) (depth position : Nat) :
    IsMarker (itemMarker kind depth position) := by
  cases kind with
  | bullet => exact isMarker_cons (isBlank_bulletFor (.inl rfl) depth) (by decide)
  | ordered start => exact isMarker_ordinal position (.inl rfl)

theorem byteLength_itemMarker (kind : ListKind) (depth position : Nat) :
    byteLength (itemMarker kind depth position) = (itemMarker kind depth position).length := by
  refine byteLength_of_ascii fun c hc => ?_
  cases kind with
  | bullet =>
    have hall : ∀ i, i < 4 → (bullets.getD i '*').toNat < 128 := by decide
    rcases List.mem_pair.1 hc with rfl | rfl
    · exact hall _ (Nat.mod_lt depth (by decide))
    · decide
  | ordered start =>
    rcases List.mem_append.1 hc with hc | hc
    · have hdigit : c.isDigit = true := Nat.isDigit_of_mem_toDigits (by decide) (by decide) hc
      simp only [Char.isDigit, Bool.and_eq_true, decide_eq_true_eq, UInt32.le_iff_toNat_le]
        at hdigit
      have hle : c.toNat ≤ 57 := hdigit.2
      omega
    · rcases List.mem_pair.1 hc with rfl | rfl <;> decide

mutual

theorem isShown_outline {depth margin : Nat} : ∀ {b : Block (List Inline)}, isOutline b = true →
    ∀ l ∈ outline depth margin b, IsShown l
  | .list kind tight items, h => by
    simp only [isOutline, Bool.and_eq_true] at h
    exact isShown_entries h.2

theorem isShown_outlines {depth margin : Nat} : ∀ {bs : List (Block (List Inline))},
    areOutlines bs = true → ∀ l ∈ outlines depth margin bs, IsShown l
  | [], _ => nofun
  | b :: bs, h => by
    simp only [areOutlines, Bool.and_eq_true] at h
    exact List.forall_mem_append.2 ⟨isShown_outline h.1, isShown_outlines h.2⟩

theorem isShown_entries {kind : ListKind} {depth margin position : Nat} :
    ∀ {items : List (Item (List Inline))}, areEntries items = true →
      ∀ l ∈ entries kind depth margin position items, IsShown l
  | [], _ => nofun
  | .mk (.paragraph xs :: below) :: rest, h => by
    simp only [areEntries, Bool.and_eq_true] at h
    refine List.forall_mem_cons.2 ⟨isShown_of_isLine ?_ h.1.1.1, List.forall_mem_append.2
      ⟨isShown_outlines h.1.2, isShown_entries h.2⟩⟩
    simp [(isMarker_itemMarker kind depth position).newline_not_mem]

end

section Margins

variable (k : Nat)

mutual

/-- Further to the right every line begins with so many more spaces. -/
theorem outline_add (depth margin : Nat) : ∀ {b : Block (List Inline)}, isOutline b = true →
    outline depth (k + margin) b = (outline depth margin b).map (List.replicate k ' ' ++ ·)
  | .list kind tight items, h => by
    simp only [isOutline, Bool.and_eq_true] at h
    exact entries_add kind depth margin 1 h.2

theorem outlines_add (depth margin : Nat) : ∀ {bs : List (Block (List Inline))},
    areOutlines bs = true →
      outlines depth (k + margin) bs = (outlines depth margin bs).map (List.replicate k ' ' ++ ·)
  | [], _ => rfl
  | b :: bs, h => by
    simp only [areOutlines, Bool.and_eq_true] at h
    rw [outlines, outlines, List.map_append, outline_add depth margin h.1,
      outlines_add depth margin h.2]

theorem entries_add (kind : ListKind) (depth margin position : Nat) :
    ∀ {items : List (Item (List Inline))}, areEntries items = true →
      entries kind depth (k + margin) position items =
        (entries kind depth margin position items).map (List.replicate k ' ' ++ ·)
  | [], _ => rfl
  | .mk (.paragraph xs :: below) :: rest, h => by
    simp only [areEntries, Bool.and_eq_true] at h
    rw [entries, entries, List.map_cons, List.map_append, entries_add kind depth margin _ h.2,
      Nat.add_assoc, outlines_add _ _ h.1.2, List.replicate_add]
    simp only [List.append_assoc]

end

end Margins

end Lines

section Texts

theorem linesText_append (ls ls' : List Text) :
    linesText (ls ++ ls') = linesText ls ++ linesText ls' :=
  List.flatMap_append

/-- The lines of an item behind its first one are indented one by one. -/
theorem continuations_linesText (width : Nat) {ls : List Text} (h : ∀ l ∈ ls, IsShown l) :
    continuations width (linesText ls) =
      '\n' :: linesText (ls.map (List.replicate width ' ' ++ ·)) := by
  induction ls with
  | nil => rfl
  | cons l ls ih =>
    obtain ⟨hl, hls⟩ := List.forall_mem_cons.1 h
    have hline : indentContinuations.indentLine width l =
        '\n' :: (List.replicate width ' ' ++ l) := by
      rw [indentContinuations.indentLine, hl.allBlank, if_neg Bool.false_ne_true]
    have hrest := ih hls
    rw [continuations] at hrest
    rw [continuations, linesText_cons, splitLines_append_newline,
      splitLines_of_not_mem hl.newline_not_mem, List.singleton_append, List.flatMap_cons,
      hrest, hline, List.map_cons, linesText_cons, List.cons_append]

theorem indentContinuations_linesText {t : Text} (ht : '\n' ∉ t) (width : Nat) {ls : List Text}
    (h : ∀ l ∈ ls, IsShown l) : indentContinuations width (t ++ '\n' :: linesText ls) =
      linesText (t :: ls.map (List.replicate width ' ' ++ ·)) := by
  have hfirst : indentContinuations width t = t := by
    rw [indentContinuations, splitLines_of_not_mem ht]
    exact List.append_nil t
  rw [indentContinuations_append_newline, hfirst, continuations_linesText width h, linesText_cons]

/-- There is no run of line breaks behind lines that show something but the one at their end. -/
theorem condenseAfter_linesText {ls : List Text} (h : ∀ l ∈ ls, IsShown l) :
    condenseAfter [.lineFeed] (linesText ls ++ ['\n']) = '\n' :: (linesText ls ++ ['\n']) := by
  induction ls with
  | nil => rfl
  | cons l ls ih =>
    obtain ⟨⟨hn, m, c, rfl, hc⟩, hls⟩ := List.forall_mem_cons.1 h
    have hm : '\n' ∉ m := fun hmem => hn (List.mem_append_left _ hmem)
    have hrest : condense ('\n' :: (linesText ls ++ ['\n'])) = '\n' :: (linesText ls ++ ['\n']) :=
      ih hls
    have hline : linesText ((m ++ [c]) :: ls) ++ ['\n'] =
        m ++ c :: '\n' :: (linesText ls ++ ['\n']) := by
      simp [linesText_cons]
    rw [hline, condenseAfter_line hm hc, hrest]
    rfl

/-- The last touch takes away the line break before lines and the one behind them. -/
theorem polish_linesText {ls : List Text} (hne : ls ≠ []) (h : ∀ l ∈ ls, IsShown l)
    (hbegin : BeginsVisible (linesText ls)) :
    polish {} ('\n' :: (linesText ls ++ ['\n'])) = linesText ls := by
  obtain ⟨ls, l, rfl⟩ := (List.eq_nil_or_concat ls).resolve_left hne
  rw [List.concat_eq_append] at h hbegin ⊢
  obtain ⟨-, m, c, rfl, hc⟩ := h l (by simp)
  have hlines : linesText (ls ++ [m ++ [c]]) = linesText ls ++ m ++ c :: ['\n'] := by
    simp [linesText]
  have hcondense : condense ('\n' :: (linesText (ls ++ [m ++ [c]]) ++ ['\n'])) =
      '\n' :: (linesText (ls ++ [m ++ [c]]) ++ ['\n']) := condenseAfter_linesText h
  have hstart : trimStart ('\n' :: (linesText (ls ++ [m ++ [c]]) ++ ['\n'])) =
      linesText ls ++ m ++ c :: ['\n', '\n'] := by
    obtain ⟨d, t, ht⟩ := List.exists_cons_of_ne_nil
      (show linesText (ls ++ [m ++ [c]]) ≠ [] by simp [hlines])
    rw [ht] at hbegin
    have htrim := @trimStart_append ['\n'] (List.forall_mem_singleton.2 rfl) d (hbegin d rfl)
      (t ++ ['\n'])
    rw [ht, List.cons_append]
    refine htrim.trans ?_
    rw [← List.cons_append, ← ht, hlines]
    simp
  have hpolish : polish {} ('\n' :: (linesText (ls ++ [m ++ [c]]) ++ ['\n'])) =
      trim (condense ('\n' :: (linesText (ls ++ [m ++ [c]]) ++ ['\n']))) ++ ['\n'] := rfl
  have hend : trimEnd ['\n', '\n'] = [] := rfl
  rw [hpolish, hcondense, trim, hstart, trimEnd_append _ hc, hend, hlines, List.append_assoc]
  rfl

end Texts

section Walks

variable {lists lists' : List ListFrame} {state : State} {before after : List Token}

theorem pieces_walk_inline {xs : List Inline} {t : Token} (h : Poised lists [] state)
    (hk : t.kind = .leaf .inline) (hchildren : t.children = ofInlines [] xs) :
    ∃ state' u, Poised lists [] state' ∧
      (walk (.ofOptions {}) state before 0 false (t :: after)).pieces =
        ⟨.plain, inlineText xs⟩ ::
          (walk (.ofOptions {}) state' (u :: before) 0 false after).pieces := by
  obtain ⟨hwritten, hpoised, hstop⟩ := walk_ofInlines h xs
  rw [← hchildren] at hwritten hpoised hstop
  refine ⟨_, { t with children := (walk (.ofOptions {}) state [] 0 false t.children).tokens },
    hpoised, ?_⟩
  rw [walk_cons_inline hk rfl hstop rfl, hwritten]

theorem Poised.withLists (h : Poised lists [] state) :
    Poised lists' [] { state with lists := lists' } :=
  ⟨rfl, h.inside, h.strong, h.links⟩

/-- The frame of the list of an outline when its items up to a position have begun. -/
def frameOf (kind : ListKind) (depth position : Nat) : ListFrame :=
  match kind with
  | .bullet => ⟨false, 1, some (2 * depth), 0⟩
  | .ordered _ => ⟨true, position, some (2 * depth), 0⟩

theorem listItemOpen_frameOf {kind : ListKind} {depth position : Nat} {t : Token}
    (h : Poised (frameOf kind depth position :: lists) [] state)
    (hlevel : t.level = some (2 * depth + 1)) :
    ∃ state', Poised (frameOf kind depth (position + 1) :: lists) [] state' ∧
      listItemOpen {} state ⟨before, t, after, 0⟩ = (state', itemMarker kind depth position) := by
  have hbyline : isByline {} ⟨before, t, after, 0⟩ = false := rfl
  have hdepth : visualLevel t.level = depth := by
    rw [hlevel, visualLevel]
    simp
  cases kind with
  | bullet =>
    refine ⟨state, h, ?_⟩
    simp only [listItemOpen, h.lists, frameOf, itemMarker, listItemOpen.bullet, hbyline, hdepth]
    rfl
  | ordered start =>
    refine ⟨_, h.withLists, ?_⟩
    simp only [listItemOpen, h.lists, frameOf, itemMarker]
    rfl

theorem listOpen_frameOf {kind : ListKind} {depth : Nat} {t : Token}
    (hk : t.kind = .opening (listConstruct kind)) (h : Poised lists [] state)
    (hlevel : t.level = some (2 * depth))
    (hbefore : preceding? before ≠ some (.closing (listConstruct kind))) :
    ∃ state', Poised (frameOf kind depth 1 :: lists) [] state' ∧
      rule (.ofOptions {}) state ⟨before, t, after, 0⟩ = (state', ['\n']) := by
  refine ⟨{ state with lists := frameOf kind depth 1 :: lists }, h.withLists, ?_⟩
  have hfirst := beq_false_of_ne hbefore
  rw [rule, hk]
  cases kind with
  | bullet | ordered =>
    simp only [listConstruct] at hfirst
    simp only [listConstruct, openRule, listOpen, hlevel, h.lists, hfirst, if_true, if_false,
      Bool.false_and, Bool.false_eq_true]
    cases state.closedList <;> rfl

/-- A tight paragraph in an item, before the end of the item or a list. -/
theorem pieces_paragraph (depth : Nat) (xs : List Inline) (h : Poised lists [] state)
    (hafter : (following? after).any (fun k => !k.isParagraph) = true) :
    ∃ state' before', Poised lists [] state' ∧
      (preceding? before' = some (.closing .paragraph) ∧ before'.head?.any (·.tight) = true) ∧
      (walk (.ofOptions {}) state before 0 false (paragraphAt depth true xs ++ after)).pieces =
        Plan.allPieces [.text [], .text (inlineText xs), .text []] ++
          (walk (.ofOptions {}) state' before' 0 false after).pieces := by
  let opening : Token := { kind := .opening .paragraph, level := some depth, tight := true }
  let closing : Token := { kind := .closing .paragraph, level := some depth, tight := true }
  let content : Token := leafAt (depth + 1) (Token.inline (ofInlines [] xs))
  have hopen : rule (.ofOptions {}) state ⟨before, opening, content :: closing :: after, 0⟩ =
      (state, []) := by
    have hnext : following? (content :: closing :: after) = some (.leaf .inline) := rfl
    have hwritten : paragraphOpen ⟨before, opening, content :: closing :: after, 0⟩ = [] := by
      rw [paragraphOpen, hnext]
      split_ifs <;> first | rfl | contradiction
    exact congrArg (state, ·) hwritten
  obtain ⟨state', u, hpoised, hcontent⟩ := @pieces_walk_inline lists state (opening :: before)
    (closing :: after) xs content h rfl rfl
  have hclose : rule (.ofOptions {}) state' ⟨u :: opening :: before, closing, after, 0⟩ =
      (state', []) := by
    obtain ⟨k, hk, hparagraph⟩ := (Option.any_eq_true _ _).1 hafter
    have hwritten : paragraphClose ⟨u :: opening :: before, closing, after, 0⟩ = [] := by
      simp only [paragraphClose, hk]
      rw [if_neg (by simpa using hparagraph)]
      rfl
    exact congrArg (state', ·) hwritten
  refine ⟨state', closing :: u :: opening :: before, hpoised, ⟨rfl, rfl⟩, ?_⟩
  have htokens : paragraphAt depth true xs ++ after = opening :: content :: closing :: after := rfl
  rw [htokens, pieces_walk_cons (.inl rfl) (by decide) hopen, hcontent,
    pieces_walk_cons (.inr rfl) (by decide) hclose]
  rfl

theorem rule_itemClose {setting : Setting} (t : Token) (hk : t.kind = .closing .listItem) :
    rule setting state ⟨before, t, after, 0⟩ =
      (state, if before.head?.any (·.tight) then breakBefore after else []) := by
  rw [rule, hk]
  rfl

theorem rule_listClose {setting : Setting} {kind : ListKind} {frame : ListFrame} {t : Token}
    (hk : t.kind = .closing (listConstruct kind)) (h : Poised (frame :: lists) [] state) :
    ∃ state', Poised lists [] state' ∧
      rule setting state ⟨before, t, after, 0⟩ = (state', breakBefore after) := by
  refine ⟨(listClose state ⟨before, t, after, 0⟩).1, ⟨?_, h.inside, h.strong, h.links⟩, ?_⟩
  · rw [listClose, h.lists]
    rfl
  · rw [rule, hk]
    cases kind <;> rfl

/-- The closing token of an item inside `depth` lists. -/
def itemEnd (depth : Nat) : Token :=
  { kind := .closing .listItem, level := some (2 * depth + 1) }

theorem breakBefore_of_kind {t : Token} (h : t.kind ≠ .opening .paragraph) :
    breakBefore (t :: after) = if t.kind == .closing .listItem then [] else ['\n'] := by
  have hskip : skipEmptyParagraphs (t :: after) = t :: after := by
    match after with
    | [] | [_] => rfl
    | b :: c :: rest => simp [skipEmptyParagraphs, isEmptyParagraph, h]
  rw [breakBefore, hskip]

/-- Behind an item there is another one or the end of the list. -/
theorem breakBefore_ofItems {kind : ListKind}
    (h : following? after = some (.closing (listConstruct kind))) (depth : Nat) (tight : Bool)
    (items : List (Item (List Inline))) :
    breakBefore (ofItems depth tight items ++ after) = ['\n'] := by
  cases items with
  | nil =>
    cases after with
    | nil => cases h
    | cons t after =>
      have hk : t.kind = .closing (listConstruct kind) := by simpa [following?] using h
      rw [ofItems, List.nil_append, breakBefore_of_kind (by simp [hk])]
      cases kind <;> simp [hk, listConstruct]
  | cons item items =>
    cases item
    exact breakBefore_of_kind (by simp)

/-- Whether an outline is drawn as its lines, between a line break and what separates it from what
comes behind it. -/
def Draws (depth : Nat) (tight : Bool) (b : Block (List Inline)) : Prop :=
  ∀ ⦃lists : List ListFrame⦄ ⦃state : State⦄ ⦃before after : List Token⦄, Poised lists [] state →
    (∀ kind, preceding? before ≠ some (.closing (listConstruct kind))) →
    ∃ plans state' before', Poised lists [] state' ∧ before'.head?.any (·.tight) = false ∧
      (walk (.ofOptions {}) state before 0 false (ofBlock (2 * depth) tight b ++ after)).pieces =
        Plan.allPieces plans ++ (walk (.ofOptions {}) state' before' 0 false after).pieces ∧
      Plan.allDrawn plans = '\n' :: (linesText (outline depth 0 b) ++ breakBefore after)

/-- Whether the items of an outline are drawn as their lines. -/
def DrawsEntries (kind : ListKind) (depth position : Nat) (items : List (Item (List Inline))) :
    Prop :=
  ∀ ⦃lists : List ListFrame⦄ ⦃state : State⦄ ⦃before after : List Token⦄,
    Poised (frameOf kind depth position :: lists) [] state →
    following? after = some (.closing (listConstruct kind)) →
    ∃ plans state' before',
      Poised (frameOf kind depth (position + items.length) :: lists) [] state' ∧
      (walk (.ofOptions {}) state before 0 false
          (ofItems (2 * depth + 1) true items ++ after)).pieces =
        Plan.allPieces plans ++ (walk (.ofOptions {}) state' before' 0 false after).pieces ∧
      Plan.allDrawn plans = linesText (entries kind depth 0 position items)

/-- Whether an item ends with these lines behind its first one. -/
def Completes (depth : Nat) (below : List (Block (List Inline))) (ls : List Text) : Prop :=
  ∀ ⦃lists : List ListFrame⦄ ⦃state : State⦄ ⦃before after : List Token⦄,
    breakBefore after = ['\n'] → Poised lists [] state →
    preceding? before = some (.closing .paragraph) → before.head?.any (·.tight) = true →
    ∃ plans closing state' before', Poised lists [] state' ∧
      (walk (.ofOptions {}) state before 0 false
          (ofBlocks (2 * depth + 2) true below ++ itemEnd depth :: after)).pieces =
        Plan.allPieces plans ++
          ⟨.closesItem, closing⟩ :: (walk (.ofOptions {}) state' before' 0 false after).pieces ∧
      (closing = [] ∨ closing = ['\n']) ∧ Plan.allDrawn plans ++ closing = '\n' :: linesText ls

theorem completes_nil (depth : Nat) : Completes depth [] [] := by
  intro lists state before after hbreak hpoised _ htight
  refine ⟨[], ['\n'], state, itemEnd depth :: before, hpoised, ?_, .inr rfl, rfl⟩
  have hclose := @rule_itemClose state before after (.ofOptions {}) (itemEnd depth) rfl
  rw [if_pos htight, hbreak] at hclose
  exact pieces_walk_cons (.inr rfl) (by decide) hclose

/-- After an outline the line has ended already. -/
theorem completes_outline {depth : Nat} {b : Block (List Inline)} (h : Draws (depth + 1) true b) :
    Completes depth [b] (outline (depth + 1) 0 b) := by
  intro lists state before after _ hpoised hparagraph _
  obtain ⟨plans, state', before', h', htight, hpieces, hdrawn⟩ := @h lists state before
    (itemEnd depth :: after) hpoised (fun kind hk => by
      rw [hparagraph] at hk
      cases kind <;> cases hk)
  refine ⟨plans, [], state', itemEnd depth :: before', h', ?_, .inl rfl, ?_⟩
  · have hclose := @rule_itemClose state' before' after (.ofOptions {}) (itemEnd depth) rfl
    rw [htight, if_neg Bool.false_ne_true] at hclose
    have htokens : ofBlocks (2 * depth + 2) true [b] = ofBlock (2 * (depth + 1)) true b :=
      List.append_nil _
    rw [htokens, hpieces, pieces_walk_cons (.inr rfl) (by decide) hclose]
    rfl
  · have hbreak : breakBefore (itemEnd depth :: after) = [] := by
      rw [breakBefore_of_kind (by simp [itemEnd])]
      rfl
    rw [hdrawn, hbreak, List.append_nil, List.append_nil]

/-- Behind the line of an item comes its end or a list. -/
theorem following?_ofBlocks {below : List (Block (List Inline))} (h : areOutlines below = true)
    (depth : Nat) (tight : Bool) {t : Token} (ht : t.kind.isParagraph = false) :
    (following? (ofBlocks depth tight below ++ t :: after)).any (fun k => !k.isParagraph) =
      true := by
  match below, h with
  | [], _ => simp [ofBlocks, following?, ht]
  | .list kind _ items :: _, _ =>
    cases kind <;> simp [ofBlocks, ofBlock, enclose, following?, listConstruct, Kind.isParagraph]

/-- An item is drawn as its line with the lines behind it further to the right. -/
theorem exists_plan_item {kind : ListKind} {depth position : Nat} {xs : List Inline}
    {below : List (Block (List Inline))} {ls : List Text} (hline : isLine (inlineText xs) = true)
    (hbelow : areOutlines below = true) (hshown : ∀ l ∈ ls, IsShown l)
    (hcompletes : Completes depth below ls)
    (h : Poised (frameOf kind depth position :: lists) [] state)
    (hbreak : breakBefore after = ['\n']) :
    ∃ (plan : Plan) (state' : State) (before' : List Token),
      Poised (frameOf kind depth (position + 1) :: lists) [] state' ∧
      (walk (.ofOptions {}) state before 0 false
          (enclose (2 * depth + 1) .listItem {}
            (ofBlocks (2 * depth + 2) true (.paragraph xs :: below)) ++ after)).pieces =
        plan.pieces ++ (walk (.ofOptions {}) state' before' 0 false after).pieces ∧
      plan.drawn = linesText ((itemMarker kind depth position ++ inlineText xs) ::
        ls.map (List.replicate (itemMarker kind depth position).length ' ' ++ ·)) := by
  let opening : Token := { kind := .opening .listItem, level := some (2 * depth + 1) }
  let inside : List Token := paragraphAt (2 * depth + 2) true xs ++
    (ofBlocks (2 * depth + 2) true below ++ itemEnd depth :: after)
  have htokens : enclose (2 * depth + 1) .listItem {}
      (ofBlocks (2 * depth + 2) true (.paragraph xs :: below)) ++ after = opening :: inside := by
    rw [ofBlocks, ofBlock]
    simp [enclose, opening, inside, itemEnd]
  obtain ⟨state₁, h₁, hitem⟩ := @listItemOpen_frameOf lists state before inside kind depth position
    opening h rfl
  have hopen : rule (.ofOptions {}) state ⟨before, opening, inside, 0⟩ =
      (state₁, itemMarker kind depth position) := hitem
  obtain ⟨state₂, before₂, h₂, ⟨hparagraph, htight⟩, hpieces₂⟩ := @pieces_paragraph _ state₁
    (opening :: before) _ (2 * depth + 2) xs h₁
    (@following?_ofBlocks after below hbelow (2 * depth + 2) true (itemEnd depth) rfl)
  obtain ⟨plans, closing, state', before', h', hpieces, hclosing, hdrawn⟩ :=
    hcompletes hbreak h₂ hparagraph htight
  refine ⟨.frame .item (itemMarker kind depth position)
    (.text [] :: .text (inlineText xs) :: .text [] :: plans) closing, state', before', h', ?_, ?_⟩
  · rw [htokens, pieces_walk_cons (.inl rfl) (by decide) hopen, hpieces₂, hpieces]
    simp [Plan.pieces, Plan.allPieces, opening, Role.ofKind, Turn.role]
  · have hn : '\n' ∉ inlineText xs :=
      (isShown_of_isLine (show '\n' ∉ [] from List.not_mem_nil) hline).newline_not_mem
    have hbody : Plan.allDrawn (.text [] :: .text (inlineText xs) :: .text [] :: plans) =
        inlineText xs ++ Plan.allDrawn plans := by
      simp [Plan.allDrawn, Plan.drawn]
    have hindent : ∀ width, indentContinuations width (inlineText xs ++ Plan.allDrawn plans) ++
        closing = linesText (inlineText xs :: ls.map (List.replicate width ' ' ++ ·)) := by
      intro width
      rw [← indentContinuations_linesText hn width hshown, ← hdrawn]
      rcases hclosing with rfl | rfl
      · simp
      · rw [← List.append_assoc, indentContinuations_newline]
    rw [Plan.drawn, hbody, FrameKind.change, List.append_assoc, hindent, byteLength_itemMarker,
      linesText_cons, linesText_cons, List.append_assoc]

theorem drawsEntries_nil (kind : ListKind) (depth position : Nat) :
    DrawsEntries kind depth position [] :=
  fun _ _ _ _ hpoised _ => ⟨[], _, _, hpoised, rfl, rfl⟩

theorem drawsEntries_cons {kind : ListKind} {depth position : Nat} {xs : List Inline}
    {below : List (Block (List Inline))} {rest : List (Item (List Inline))}
    (hline : isLine (inlineText xs) = true) (hbelow : areOutlines below = true)
    (hcompletes : Completes depth below (outlines (depth + 1) 0 below))
    (hrest : DrawsEntries kind depth (position + 1) rest) :
    DrawsEntries kind depth position (.mk (.paragraph xs :: below) :: rest) := by
  intro lists state before after hpoised hafter
  obtain ⟨plan, state₁, before₁, h₁, hitem, hdrawn⟩ := @exists_plan_item lists state before
    (ofItems (2 * depth + 1) true rest ++ after) kind depth position xs below _ hline hbelow
    (isShown_outlines hbelow) hcompletes hpoised (breakBefore_ofItems hafter _ _ _)
  obtain ⟨plans, state', before', h', hpieces, hplans⟩ :=
    @hrest lists state₁ before₁ after h₁ hafter
  refine ⟨plan :: plans, state', before', ?_, ?_, ?_⟩
  · rwa [List.length_cons, Nat.add_comm rest.length, ← Nat.add_assoc]
  · rw [ofItems, List.append_assoc, hitem, hpieces, Plan.allPieces, List.append_assoc]
  · have hmargin : outlines (depth + 1) (itemMarker kind depth position).length below =
        (outlines (depth + 1) 0 below).map
          (List.replicate (itemMarker kind depth position).length ' ' ++ ·) :=
      outlines_add _ (depth + 1) 0 hbelow
    rw [Plan.allDrawn, hdrawn, hplans, ← linesText_append, entries, Nat.zero_add, hmargin]
    rfl

theorem draws_list {kind : ListKind} {depth : Nat} {items : List (Item (List Inline))}
    (h : DrawsEntries kind depth 1 items) (tight : Bool) :
    Draws depth tight (.list kind true items) := by
  intro lists state before after hpoised hbefore
  let opening : Token := { kind := .opening (listConstruct kind), level := some (2 * depth) }
  let closing : Token := { kind := .closing (listConstruct kind), level := some (2 * depth) }
  obtain ⟨state₁, h₁, hopen⟩ := @listOpen_frameOf lists state before
    (ofItems (2 * depth + 1) true items ++ closing :: after) kind depth opening rfl hpoised rfl
    (hbefore kind)
  obtain ⟨plans, state₂, before₂, h₂, hitems, hdrawn⟩ := @h lists state₁ (opening :: before)
    (closing :: after) h₁ rfl
  obtain ⟨state₃, h₃, hclose⟩ := @rule_listClose _ state₂ before₂ after (.ofOptions {}) kind _
    closing rfl h₂
  have hlink : listConstruct kind ≠ .link := by cases kind <;> simp [listConstruct]
  have hrole : Role.ofKind opening.kind = .plain ∧ Role.ofKind closing.kind = .plain := by
    cases kind <;> exact ⟨rfl, rfl⟩
  have htokens : ofBlock (2 * depth) tight (.list kind true items) ++ after =
      opening :: (ofItems (2 * depth + 1) true items ++ closing :: after) := by
    simp [ofBlock, enclose, opening, closing]
  refine ⟨.text ['\n'] :: (plans ++ [.text (breakBefore after)]), state₃, closing :: before₂, h₃,
    rfl, ?_, ?_⟩
  · rw [htokens, pieces_walk_cons (.inl rfl) hlink hopen, hitems,
      pieces_walk_cons (.inr rfl) hlink hclose, hrole.1, hrole.2]
    simp [Plan.allPieces, Plan.pieces, Plan.allPieces_append]
  · simp [Plan.allDrawn, Plan.drawn, Plan.allDrawn_append, hdrawn, outline]

mutual

theorem draws_outline (depth : Nat) (tight : Bool) : ∀ {b : Block (List Inline)},
    isOutline b = true → Draws depth tight b
  | .list kind true items, h => by
    simp only [isOutline, Bool.and_eq_true] at h
    exact draws_list (draws_entries kind depth 1 h.2) tight

theorem draws_entries (kind : ListKind) (depth position : Nat) :
    ∀ {items : List (Item (List Inline))}, areEntries items = true →
      DrawsEntries kind depth position items
  | [], _ => drawsEntries_nil kind depth position
  | .mk [.paragraph xs] :: rest, h => by
    simp only [areEntries, Bool.and_eq_true] at h
    exact drawsEntries_cons h.1.1.1 h.1.2 (completes_nil depth)
      (draws_entries kind depth (position + 1) h.2)
  | .mk [.paragraph xs, b] :: rest, h => by
    simp only [areEntries, areOutlines, Bool.and_eq_true] at h
    have hcompletes := completes_outline (draws_outline (depth + 1) true h.1.2.1)
    rw [← List.append_nil (outline (depth + 1) 0 b)] at hcompletes
    exact drawsEntries_cons h.1.1.1 (by simp [areOutlines, h.1.2.1]) hcompletes
      (draws_entries kind depth (position + 1) h.2)
  | .mk (.paragraph xs :: _ :: _ :: _) :: rest, h => by simp [areEntries] at h

end

end Walks

/-- An outline begins with the marker of its first item. -/
theorem beginsVisible_outline (depth : Nat) : ∀ {b : Block (List Inline)}, isOutline b = true →
    outline depth 0 b ≠ [] ∧ BeginsVisible (linesText (outline depth 0 b))
  | .list kind true (.mk (.paragraph xs :: _) :: _), _ => by
    refine ⟨List.cons_ne_nil _ _, ?_⟩
    rw [outline, entries, List.replicate_zero, List.nil_append, linesText_cons, List.append_assoc]
    exact .append (isMarker_itemMarker kind depth 1)

/-- A document that is an outline is rendered as its lines. -/
theorem render_outline {b : Block (List Inline)} (h : isOutline b = true) : ∃ report,
    (render {} (Token.ofDocument ⟨[b], []⟩)).result = .ok ⟨linesText (outline 0 0 b), report⟩ := by
  have htokens : Token.ofDocument ⟨[b], []⟩ = ofBlock (2 * 0) false b := by
    simp [Token.ofDocument, ofBlocks, ofNotes]
  obtain ⟨plans, state, before, -, -, hpieces, hdrawn⟩ := @draws_outline 0 false b h [] {} [] []
    poised_empty (by simp [preceding?])
  rw [walk_nil, List.append_nil, ← htokens, List.append_nil] at hpieces
  have hdraw : draw? (walkAll (.ofOptions {}) (Token.ofDocument ⟨[b], []⟩)).pieces =
      some { out := Plan.allDrawn plans } := by
    rw [walkAll, hpieces]
    exact run_plans {} plans
  have hstop : (walkAll (.ofOptions {}) (Token.ofDocument ⟨[b], []⟩)).stopped = none :=
    stopped_walk rfl _ _ _ _ _
  obtain ⟨hne, hbegin⟩ := beginsVisible_outline 0 h
  have hpolish : polish {} (Plan.allDrawn plans) = linesText (outline 0 0 b) := by
    rw [hdrawn]
    exact polish_linesText hne (isShown_outline h) hbegin
  refine ⟨(walkAll (.ofOptions {}) (Token.ofDocument ⟨[b], []⟩)).state.report, ?_⟩
  rw [render]
  dsimp only
  rw [conclude, hdraw, hstop, ← hpolish]
  rfl

/-- The marker of the tenth item is wider than those before it, and what is in the item stands
further to the right. -/
theorem render_outline_tenth : ∃ b report,
    isOutline b = true ∧
    (render {} (Token.ofDocument ⟨[b], []⟩)).result = .ok ⟨("1. a\n2. a\n3. a\n4. a\n5. a\n" ++
      "6. a\n7. a\n8. a\n9. a\n   - b\n     + _c_ c\n   - d\n10. e\n    - f\n").toList, report⟩ := by
  let leaf (c : Char) : Item (List Inline) := .mk [.paragraph [.text [c]]]
  let deep : Block (List Inline) := .list .bullet true
    [.mk [.paragraph [.emphasis [.text ['c']], .text [' ', 'c']]]]
  let ninth : Block (List Inline) :=
    .list .bullet true [.mk [.paragraph [.text ['b']], deep], leaf 'd']
  let b : Block (List Inline) := .list (.ordered 1) true (List.replicate 8 (leaf 'a') ++
    [.mk [.paragraph [.text ['a']], ninth],
      .mk [.paragraph [.text ['e']], .list .bullet true [leaf 'f']]])
  have h : isOutline b = true := by decide +kernel
  have hlines : linesText (outline 0 0 b) = ("1. a\n2. a\n3. a\n4. a\n5. a\n" ++
      "6. a\n7. a\n8. a\n9. a\n   - b\n     + _c_ c\n   - d\n10. e\n    - f\n").toList := by
    decide +kernel
  obtain ⟨report, hrender⟩ := render_outline h
  exact ⟨b, report, h, by rw [hrender, hlines]⟩

end TidyMark.Render
