import TidyMark.Proofs.Unlinked

/-!
# What comes first stays first

A reader may take back what it has read behind an open bracket, but never what it had finished
before the outermost one. So whatever is read next, content that is finished before all brackets
stays where it is (`StartsWith.read`), and since no run stands before it that could be paired around
it, it comes first in the end (`StartsWith.head?_finish`).
-/

namespace TidyMark.Markdown

section Pairing

variable {x : Inline}

theorem getLast?_append_of_eq {before : List Piece} (h : before.getLast? = some (.node x))
    (ps : List Piece) : (ps ++ before).getLast? = some (.node x) := by
  rw [List.getLast?_append, h]
  rfl

/-- A run is found behind the first piece, which is none. -/
theorem getLast?_of_findOpener? {closer opener : Run} : ∀ {between before : List Piece}
    {between' earlier : List Piece}, before.getLast? = some (.node x) →
      findOpener? closer between before = some (between', opener, earlier) →
        earlier.getLast? = some (.node x)
  | _, [], _, _, h, _ => by cases h
  | between, .run r :: before, between', earlier, h, hfind => by
    have hrest : before.getLast? = some (.node x) := by
      rcases before with _ | ⟨p, before⟩
      · cases h
      · rwa [List.getLast?_cons_cons] at h
    rw [findOpener?] at hfind
    split_ifs at hfind
    · cases hfind
      exact hrest
    · exact getLast?_of_findOpener? hrest hfind
  | between, .node y :: before, between', earlier, h, hfind => by
    rw [findOpener?] at hfind
    rcases before with _ | ⟨p, before⟩
    · cases hfind
    · rw [List.getLast?_cons_cons] at h
      exact getLast?_of_findOpener? h hfind

theorem getLast?_pair : ∀ (n : Nat) (closer : Run) {before : List Piece},
    before.getLast? = some (.node x) → (pair closer before n).pieces.getLast? = some (.node x)
  | 0, _, _, h => h
  | n + 1, closer, before, h => by
    rw [pair]
    split
    · exact h
    split
    · simp only [Pairing.pieces]
      split
      · exact getLast?_append_of_eq h [_]
      · exact getLast?_append_of_eq h [_]
    · next between opener earlier hfind =>
      have hearlier := getLast?_of_findOpener? h hfind
      split
      · exact h
      · exact getLast?_pair n _ (getLast?_append_of_eq hearlier (_ :: opener.less _))

theorem getLast?_pairAll : ∀ (rest : List Piece) {before : List Piece},
    before.getLast? = some (.node x) → (pairAll before rest).getLast? = some (.node x)
  | [], _, h => h
  | .node y :: rest, before, h =>
    getLast?_pairAll rest (getLast?_append_of_eq h [.node y])
  | .run r :: rest, before, h => by
    have hpair := getLast?_pair r.count r h
    rw [pairAll]
    split_ifs
    · split
      · next hdone =>
        rw [hdone] at hpair
        exact getLast?_pairAll rest hpair
      · next before' closer hmismatch =>
        rw [hmismatch] at hpair
        exact getLast?_append_of_eq (getLast?_append_of_eq hpair [.run closer]) rest.reverse
    · exact getLast?_pairAll rest (getLast?_append_of_eq h [.run r])

theorem head?_resolve (x : Inline) (ps : List Piece) :
    (Piece.resolve (.node x :: ps)).head? = some x := by
  have h : (pairAll [.node x] ps).getLast? = some (.node x) := getLast?_pairAll ps rfl
  rw [Piece.resolve, pairAll, List.head?_map, List.head?_reverse, h]
  rfl

end Pairing

section Reading

/-- The pieces before the outermost open bracket, the last one first. -/
def Reader.outermost (r : Reader) : List Piece :=
  r.brackets.getLast?.elim r.pieces OpenBracket.before

/-- Whether what has been read begins with content that no bracket can take back. -/
def Reader.StartsWith (r : Reader) (x : Inline) : Prop :=
  r.outermost.getLast? = some (.node x)

variable {x : Inline} {r r' : Reader}

/-- What is read into the innermost bracket leaves the start as it is. -/
theorem Reader.StartsWith.push (h : r.StartsWith x) (ps : List Piece)
    (hpieces : r'.pieces = ps ++ r.pieces) (hbrackets : r'.brackets = r.brackets) :
    r'.StartsWith x := by
  unfold Reader.StartsWith Reader.outermost at h ⊢
  rw [hbrackets, hpieces]
  rcases hb : r.brackets.getLast? with _ | b <;> rw [hb] at h
  · exact getLast?_append_of_eq h ps
  · exact h

theorem Reader.StartsWith.same (h : r.StartsWith x) (hpieces : r'.pieces = r.pieces)
    (hbrackets : r'.brackets = r.brackets) : r'.StartsWith x :=
  h.push [] hpieces hbrackets

theorem Reader.StartsWith.add (h : r.StartsWith x) (y : Inline) : (r.add y).StartsWith x :=
  h.push [.node y] rfl rfl

theorem Reader.StartsWith.openBracket (h : r.StartsWith x) (image : Bool) (after : Text) :
    (r.openBracket image after).StartsWith x := by
  unfold Reader.StartsWith Reader.outermost at h ⊢
  unfold Reader.openBracket
  rcases hb : r.brackets with _ | ⟨b, _ | ⟨b', bs⟩⟩ <;> rw [hb] at h
  · exact h
  · exact h
  · dsimp only
    rwa [List.getLast?_cons_cons] at h ⊢

/-- What is made of a bracket comes behind what has been set aside for it. -/
theorem Reader.StartsWith.close (h : r.StartsWith x) {b : OpenBracket} {bs : List OpenBracket}
    (ps : List Piece) (hb : r.brackets = b :: bs) (hpieces : r'.pieces = ps ++ b.before)
    (hbrackets : r'.brackets = bs) : r'.StartsWith x := by
  unfold Reader.StartsWith Reader.outermost at h ⊢
  rw [hb] at h
  rw [hpieces, hbrackets]
  rcases bs with _ | ⟨b', bs⟩
  · exact getLast?_append_of_eq h ps
  · rwa [List.getLast?_cons_cons] at h

theorem Reader.StartsWith.closeBracket (h : r.StartsWith x) (defs : Definitions) (after : Text) :
    (Markdown.closeBracket defs r after).2.StartsWith x := by
  have hinside : ({ r with inBrackets := false } : Reader).StartsWith x := h.same rfl rfl
  unfold Markdown.closeBracket
  dsimp only
  split
  · exact hinside.add _
  · next b bs hb =>
    have hgiveUp : (({ r with inBrackets := false } : Reader).giveUp b bs).StartsWith x :=
      hinside.close (.node (.text [']']) :: (r.pieces ++ [.node (.text (opening b.image))])) hb
        (by simp [Reader.giveUp, Reader.add, Reader.merge, opening]) rfl
    split
    · exact hgiveUp
    · split
      · exact hinside.close [_] hb rfl rfl
      · split
        · next name hname =>
          exact hinside.close (r.pieces.filter (·.literal?.isNone) ++
            [.node (.footnoteRef name 0 0)]) hb (by simp) rfl
        · exact hgiveUp

theorem Reader.StartsWith.addText (h : r.StartsWith x) (t : Text) : (r.addText t).StartsWith x := by
  unfold Reader.addText
  split_ifs
  · exact h
  · exact h.add _

theorem Reader.StartsWith.readTicks (h : r.StartsWith x) (width : Nat) (after : Text) :
    (Markdown.readTicks r width after).2.StartsWith x := by
  unfold Markdown.readTicks
  dsimp only
  split
  · exact h.add _
  · split
    · exact h.push [_] rfl rfl
    · exact h.push [_] rfl rfl

theorem Reader.StartsWith.readBackslash (h : r.StartsWith x) (rest : Text) :
    (Markdown.readBackslash r rest).2.StartsWith x := by
  unfold Markdown.readBackslash
  split
  · split_ifs
    · exact h.add _
    · exact h.add _
    · exact h.add _
  · exact h.add _

theorem Reader.StartsWith.readAngle (h : r.StartsWith x) (rest : Text) :
    (Markdown.readAngle r rest).2.StartsWith x := by
  unfold Markdown.readAngle
  split
  · exact h.add _
  · exact h.add _
  · split
    · exact h.add _
    · exact h.push [_] rfl rfl
    · exact h.add _

/-- Whatever is read next, the start stays as it is. -/
theorem Reader.StartsWith.step (h : r.StartsWith x) (defs : Definitions) (before : Text) (c : Char)
    (rest : Text) : (r.step defs before c rest).2.StartsWith x := by
  have hrun : ∀ c, (readRun r c before rest).2.StartsWith x := fun c => h.push [_] rfl rfl
  unfold Reader.step
  split
  · exact h.addText _
  · split
    · exact h.add _
    · exact h.readTicks _ _
    · exact h.readBackslash rest
    · split
      · exact h.add _
      · exact h.add _
    · exact h.readAngle rest
    · exact h.openBracket false rest
    · exact h.closeBracket defs rest
    · split
      · split_ifs
        · exact h.add _
        · exact h.openBracket true _
      · exact h.add _
    · exact hrun _

theorem Reader.StartsWith.read (defs : Definitions) : ∀ {r : Reader} (_ : r.StartsWith x)
    (before : Text) (skip : Nat) (t : Text), (r.read defs before skip t).StartsWith x
  | _, h, _, _, [] => h
  | _, h, before, skip + 1, c :: t => h.read defs (c :: before) skip t
  | _, h, before, 0, c :: t => (h.step defs before c t).read defs (c :: before) _ t

theorem getLast?_foldl_merge : ∀ {brackets : List OpenBracket} {pieces : List Piece},
    (brackets.getLast?.elim pieces OpenBracket.before).getLast? = some (.node x) →
      (brackets.foldl Reader.merge pieces).getLast? = some (.node x)
  | [], _, h => h
  | [b], pieces, h => by
    have hmerge : Reader.merge pieces b = (pieces ++ [.node (.text _)]) ++ b.before :=
      List.append_cons _ _ _
    rw [List.foldl_cons, List.foldl_nil, hmerge]
    exact getLast?_append_of_eq h _
  | b :: b' :: brackets, pieces, h => by
    rw [List.getLast?_cons_cons] at h
    rw [List.foldl_cons]
    refine getLast?_foldl_merge ?_
    rwa [List.getLast?_cons] at h ⊢

theorem Reader.StartsWith.head?_finish (h : r.StartsWith x) : r.finish.head? = some x := by
  have hlast : (r.brackets.foldl Reader.merge r.pieces).getLast? = some (.node x) :=
    getLast?_foldl_merge h
  obtain ⟨ps, hps⟩ := List.getLast?_eq_some_iff.1 hlast
  rw [Reader.finish, hps, List.reverse_append]
  exact head?_resolve x ps.reverse

end Reading

end TidyMark.Markdown
