import TidyMark.Proofs.Prose

/-!
# Words and marks

How three words are read when there is a mark before and after the second one (`read_marked`), and
how they are escaped when the marks are underscores (`escape_marked`). Asterisks delimit emphasis
wherever they stand beside a word, underscores only where there is no word on their other side.
-/

namespace TidyMark

/-- A character that words are made of: a letter or number that is neither punctuation nor white
space. -/
def isLetter (c : Char) : Bool :=
  isAlphanumeric c && !isPunctuation c && !isBlank c

def marked (m : Char) (u v w : Text) : Text :=
  u ++ m :: (v ++ m :: w)

section Letters

variable {c d m : Char} {u v w : Text}

theorem isAlphanumeric_of_isLetter (hc : isLetter c = true) : isAlphanumeric c = true := by
  simp only [isLetter, Bool.and_eq_true] at hc
  exact hc.1.1

theorem isPunctuation_of_isLetter (hc : isLetter c = true) : isPunctuation c = false := by
  simp only [isLetter, Bool.and_eq_true, Bool.not_eq_true'] at hc
  exact hc.1.2

theorem isBlank_of_isLetter (hc : isLetter c = true) : isBlank c = false := by
  simp only [isLetter, Bool.and_eq_true, Bool.not_eq_true'] at hc
  exact hc.2

theorem ne_of_isLetter (hc : isLetter c = true) (hd : isLetter d = false) : c ≠ d := by
  rintro rfl
  rw [hc] at hd
  cases hd

theorem isSpecial_of_isLetter (hc : isLetter c = true) (inBrackets : Bool) :
    Markdown.isSpecial inBrackets c = false := by
  unfold Markdown.isSpecial
  split
  all_goals first
    | rfl
    | exact absurd hc (by decide)

theorem mem_marked (hu : u.all isLetter = true) (hv : v.all isLetter = true)
    (hw : w.all isLetter = true) (hc : c ∈ marked m u v w) : isLetter c = true ∨ c = m := by
  simp only [List.all_eq_true] at hu hv hw
  simp only [marked, List.mem_append, List.mem_cons] at hc
  rcases hc with hc | rfl | hc | rfl | hc
  · exact .inl (hu c hc)
  · exact .inr rfl
  · exact .inl (hv c hc)
  · exact .inr rfl
  · exact .inl (hw c hc)

theorem ne_of_letter_or_mark (hc : isLetter c = true ∨ c = m) (hd : isLetter d = false)
    (hm : m ≠ d) : c ≠ d := by
  rcases hc with hc | rfl
  · exact ne_of_isLetter hc hd
  · exact hm

end Letters

namespace Markdown

def word (u : Text) : List Inline :=
  if u.isEmpty then [] else [.text u]

section Reading

variable (defs : Definitions)

theorem read_skip (r : Reader) : ∀ (before s rest : Text),
    r.read defs before s.length (s ++ rest) = r.read defs (s.reverse ++ before) 0 rest
  | before, [], rest => rfl
  | before, c :: s, rest => by
    rw [List.length_cons, List.cons_append, Reader.read, read_skip r (c :: before) s rest]
    simp

theorem takeWhile_text {inBrackets : Bool} {u rest : Text}
    (hu : ∀ c ∈ u, isSpecial inBrackets c = false)
    (hrest : ∀ c ∈ rest.head?, isSpecial inBrackets c = true) :
    (u ++ rest).takeWhile (fun d => !isSpecial inBrackets d) = u := by
  rw [List.takeWhile_append_of_pos (by simpa using hu)]
  rcases rest with _ | ⟨d, rest⟩
  · simp
  · simp [hrest d rfl]

/-- Characters that are not special are read as one text. -/
theorem step_text {r : Reader} {c : Char} {u rest : Text}
    (hu : ∀ d ∈ c :: u, isSpecial r.inBrackets d = false)
    (hrest : ∀ d ∈ rest.head?, isSpecial r.inBrackets d = true ∧ d ≠ '\n')
    (hp : ∀ pieces, r.pieces ≠ .node .lineBreak :: pieces) (before : Text) :
    r.step defs before c (u ++ rest) = (u.length + 1, r.add (.text (c :: u))) := by
  obtain ⟨hc, hu⟩ := List.forall_mem_cons.1 hu
  have htake := takeWhile_text hu fun d hd => (hrest d hd).1
  have hhead : rest.head? ≠ some '\n' := fun hn => (hrest _ hn).2 rfl
  unfold Reader.step
  rw [if_pos (by simp [hc]), readText]
  simp only [htake, List.drop_left, beq_eq_false_iff_ne.2 hhead, Bool.false_eq_true, if_false]
  rw [Nat.add_comm]
  rfl

theorem step_ticks (r : Reader) (before : Text) (n : Nat) {rest : Text}
    (hrest : rest.head? ≠ some '`') :
    r.step defs before '`' (List.replicate n '`' ++ rest) = readTicks r (n + 1) rest := by
  have htake := takeWhile_replicate_append n hrest
  have hdrop : (List.replicate n '`' ++ rest).drop n = rest := List.drop_left' List.length_replicate
  unfold Reader.step
  rw [if_neg (by simp [show isSpecial r.inBrackets '`' = true from rfl])]
  dsimp only
  rw [htake, List.length_replicate, hdrop]
  rfl

theorem read_text {r : Reader} {u rest : Text} (hu : ∀ d ∈ u, isSpecial r.inBrackets d = false)
    (hp : ∀ pieces, r.pieces ≠ .node .lineBreak :: pieces)
    (hrest : ∀ d ∈ rest.head?, isSpecial r.inBrackets d = true ∧ d ≠ '\n') (before : Text) :
    r.read defs before 0 (u ++ rest) =
      ({ r with pieces := (word u).map Piece.node ++ r.pieces }).read defs (u.reverse ++ before) 0
        rest := by
  rcases u with _ | ⟨c, u⟩
  · rfl
  · rw [List.cons_append, Reader.read, step_text defs hu hrest hp]
    dsimp only
    rw [Nat.add_sub_cancel, read_skip]
    simp [word, Reader.add]

theorem read_word {u : Text} (hu : u.all isLetter = true) {pieces : List Piece}
    (hp : ∀ rest, pieces ≠ .node .lineBreak :: rest) {rest : Text}
    (hrest : ∀ c ∈ rest.head?, isSpecial false c = true ∧ c ≠ '\n') (before : Text) :
    ({ pieces } : Reader).read defs before 0 (u ++ rest) =
      ({ pieces := (word u).map Piece.node ++ pieces } : Reader).read defs (u.reverse ++ before) 0
        rest :=
  read_text (r := { pieces }) defs
    (fun c hc => isSpecial_of_isLetter (List.all_eq_true.1 hu c hc) false) hp hrest before

theorem read_last_word {u : Text} (hu : u.all isLetter = true) {pieces : List Piece}
    (hp : ∀ rest, pieces ≠ .node .lineBreak :: rest) (before : Text) :
    ({ pieces } : Reader).read defs before 0 u = { pieces := (word u).map Piece.node ++ pieces } := by
  have hend : ∀ c ∈ ([] : Text).head?, isSpecial false c = true ∧ c ≠ '\n' := by simp
  have h := read_word defs hu hp hend before
  rwa [List.append_nil, Reader.read] at h

theorem read_mark {m : Char} (hm : m = '*' ∨ m = '_') (pieces : List Piece) (before : Text)
    {rest : Text} (hrest : rest.head? ≠ some m) :
    ({ pieces } : Reader).read defs before 0 (m :: rest) =
      ({ pieces := (Run.read m 1 before rest).piece :: pieces } : Reader).read defs (m :: before) 0
        rest := by
  have htake : rest.takeWhile (· == m) = [] := by
    rcases rest with _ | ⟨d, rest⟩
    · rfl
    · simpa using hrest
  have hrun : readRun ({ pieces } : Reader) m before rest =
      (1, { pieces := (Run.read m 1 before rest).piece :: pieces }) := by
    simp [readRun, htake]
  have hstep : ({ pieces } : Reader).step defs before m rest =
      (1, { pieces := (Run.read m 1 before rest).piece :: pieces }) := by
    have hspecial : isSpecial false m = true := by
      rcases hm with rfl | rfl <;> rfl
    unfold Reader.step
    rcases hm with rfl | rfl
    · simpa [hspecial] using hrun
    · simpa [hspecial] using hrun
  rw [Reader.read, hstep]

theorem piece_cons_ne (r : Run) (pieces rest : List Piece) :
    r.piece :: pieces ≠ .node .lineBreak :: rest := by
  unfold Run.piece
  split_ifs <;> simp

end Reading

section Marks

/-- What stands beside a mark is a letter unless there is no word. -/
theorem flank_word {t rest : Text} (ht : t.all isLetter = true) (h : t ≠ [] ∨ rest = []) :
    isBlank (flank (t ++ rest)) = t.isEmpty ∧ isPunctuation (flank (t ++ rest)) = false := by
  rcases t with _ | ⟨c, t⟩
  · obtain rfl : rest = [] := by simpa using h
    decide
  · have hc : isLetter c = true := List.all_eq_true.1 ht c List.mem_cons_self
    have htilde : c ≠ '~' := ne_of_isLetter hc (by decide)
    have hflank : flank (c :: t ++ rest) = c := by simp [flank, htilde]
    rw [hflank]
    exact ⟨isBlank_of_isLetter hc, isPunctuation_of_isLetter hc⟩

/-- A mark without punctuation beside it opens before a word and closes behind one; an underscore
does so only where there is no word on its other side. -/
theorem read_between {m : Char} {before after : Text} (hb : isPunctuation (flank before) = false)
    (ha : isPunctuation (flank after) = false) :
    Run.read m 1 before after =
      ⟨m, 1, 1, !isBlank (flank after) && (m != '_' || isBlank (flank before)),
        !isBlank (flank before) && (m != '_' || isBlank (flank after))⟩ := by
  unfold Run.read
  simp only [ha, hb]
  split_ifs with hm
  · simp_all
  · simp_all

theorem head?_ne_of_letters {m : Char} (hm : isLetter m = false) {t : Text}
    (ht : t.all isLetter = true) : t.head? ≠ some m := by
  rcases t with _ | ⟨c, t⟩
  · simp
  · have hc : isLetter c = true := List.all_eq_true.1 ht c List.mem_cons_self
    simpa using ne_of_isLetter hc hm

variable {u v w : Text} (hu : u.all isLetter = true) (hv : v.all isLetter = true)
  (hw : w.all isLetter = true) (hne : v ≠ [])

include hu hv hw hne

theorem read_marked (defs : Definitions) {m : Char} (hm : m = '*' ∨ m = '_') :
    ({} : Reader).read defs [] 0 (marked m u v w) =
      { pieces := ((word u).map Piece.node ++
          (Run.mk m 1 1 (m != '_' || u.isEmpty) (!u.isEmpty && m != '_')).piece ::
            .node (.text v) ::
              (Run.mk m 1 1 (!w.isEmpty && m != '_') (m != '_' || w.isEmpty)).piece ::
                (word w).map Piece.node).reverse } := by
  have hspecial : ∀ rest : Text, ∀ c ∈ (m :: rest).head?, isSpecial false c = true ∧ c ≠ '\n' := by
    rintro rest c ⟨⟩
    rcases hm with rfl | rfl <;> decide
  have hletter : isLetter m = false := by
    rcases hm with rfl | rfl <;> decide
  have hhead : (v ++ m :: w).head? ≠ some m := by
    rw [List.head?_append_of_ne_nil _ hne]
    exact head?_ne_of_letters hletter hv
  obtain ⟨hb₁, hp₁⟩ := flank_word (List.all_reverse.trans hu) (.inr rfl)
  obtain ⟨ha₁, hq₁⟩ := flank_word hv (.inl hne : v ≠ [] ∨ m :: w = [])
  obtain ⟨hb₂, hp₂⟩ := flank_word (List.all_reverse.trans hv)
    (.inl (by simpa using hne) : v.reverse ≠ [] ∨ m :: u.reverse = [])
  obtain ⟨ha₂, hq₂⟩ := flank_word hw (.inr rfl)
  rw [List.append_nil] at hb₁ hp₁ ha₂ hq₂
  have hword : word v = [.text v] := by simp [word, hne]
  have hreverse : ∀ t : Text, (word t).reverse = word t := fun t => by
    unfold word
    split_ifs <;> rfl
  rw [marked, read_word defs hu (by simp) (hspecial _), List.append_nil, List.append_nil,
    read_mark defs hm _ _ hhead, read_between hp₁ hq₁, hb₁, ha₁]
  rw [read_word defs hv (piece_cons_ne _ _) (hspecial _),
    read_mark defs hm _ _ (head?_ne_of_letters hletter hw), read_between hp₂ hq₂, hb₂, ha₂]
  rw [read_last_word defs hw (piece_cons_ne _ _)]
  have hempty : v.isEmpty = false := by simpa using hne
  simp [hempty, hword, ← List.map_reverse, hreverse]

end Marks

section Prose

theorem toNat_ne {c : Char} {n : Nat} (h : c ≠ Char.ofNat n) : c.toNat ≠ n := by
  rintro rfl
  exact h (Char.ofNat_toNat c).symm

theorem isRule_of_letter {t : Text} {d : Char} (hd : isLetter d = true) (hmem : d ∈ t) :
    isRule t = false := by
  rcases t with _ | ⟨c, rest⟩
  · rfl
  · by_contra hr
    simp only [isRule, Bool.and_eq_true, Bool.or_eq_true, Bool.not_eq_false, beq_iff_eq,
      List.all_eq_true] at hr
    obtain ⟨⟨hc, hall⟩, -⟩ := hr
    rcases hall d hmem with rfl | hi
    · rcases hc with (rfl | rfl) | rfl <;> exact absurd hd (by decide)
    · rw [isIndent_of_not_isBlank (isBlank_of_isLetter hd)] at hi
      cases hi

/-- A line begins no item if no white space follows a bullet and no number can be an ordinal. -/
theorem listMarker?_eq_none {c : Char} {rest : Text} (hstop : ∀ d ∈ c :: rest, d ≠ '.' ∧ d ≠ ')')
    (hbullet : c = '*' ∨ c = '-' ∨ c = '+' → ∃ d ∈ rest.head?, isBlank d = false) :
    listMarker? false (c :: rest) = none := by
  unfold listMarker?
  dsimp only
  split_ifs with hc hends
  · simp only [Bool.or_eq_true, beq_iff_eq, or_assoc] at hc
    obtain ⟨d, hd, hblank⟩ := hbullet hc
    rcases rest with _ | ⟨d', rest⟩
    · cases hd
    · cases hd
      simp [endsListMarker, isSpace_of_not_isBlank hblank] at hends
  · rfl
  · split
    · next d rest' hdrop =>
      have hd : d ∈ c :: rest := List.mem_of_mem_drop (by rw [hdrop]; exact List.mem_cons_self)
      simp [hstop d hd]
    · rfl

variable {u v w : Text} (hu : u.all isLetter = true) (hv : v.all isLetter = true)
  (hw : w.all isLetter = true) (hne : v ≠ []) {m : Char} (hm : m = '*' ∨ m = '_')

include hu hv hw hm

theorem isBlank_of_mem_marked {c : Char} (hc : c ∈ marked m u v w) : isBlank c = false := by
  rcases mem_marked hu hv hw hc with hl | rfl
  · exact isBlank_of_isLetter hl
  · rcases hm with rfl | rfl <;> decide

theorem ne_of_mem_marked {c d : Char} (hc : c ∈ marked m u v w) (hd : isLetter d = false)
    (h1 : d ≠ '*') (h2 : d ≠ '_') : c ≠ d := by
  refine ne_of_letter_or_mark (mem_marked hu hv hw hc) hd ?_
  rcases hm with rfl | rfl
  · exact Ne.symm h1
  · exact Ne.symm h2

include hne

theorem isProse_marked : IsProse (marked m u v w) := by
  have hcons : ∃ c rest, marked m u v w = c :: rest ∧
      (c = '*' ∨ c = '-' ∨ c = '+' → ∃ d ∈ rest.head?, isBlank d = false) := by
    rcases u with _ | ⟨c, u⟩
    · obtain ⟨d, v', rfl⟩ := List.exists_cons_of_ne_nil hne
      have hd : isLetter d = true := List.all_eq_true.1 hv d List.mem_cons_self
      exact ⟨m, _, rfl, fun _ => ⟨d, rfl, isBlank_of_isLetter hd⟩⟩
    · have hc : isLetter c = true := List.all_eq_true.1 hu c List.mem_cons_self
      refine ⟨c, _, rfl, fun h => ?_⟩
      rcases h with rfl | rfl | rfl <;> exact absurd hc (by decide)
  have hblank : ∀ c ∈ marked m u v w, isBlank c = false :=
    fun c hc => isBlank_of_mem_marked hu hv hw hm hc
  have hother : ∀ c ∈ marked m u v w, ∀ d, isLetter d = false → d ≠ '*' → d ≠ '_' → c ≠ d :=
    fun c hc d hd h1 h2 => ne_of_mem_marked hu hv hw hm hc hd h1 h2
  have hletter : ∃ d ∈ marked m u v w, isLetter d = true := by
    obtain ⟨d, v', rfl⟩ := List.exists_cons_of_ne_nil hne
    exact ⟨d, by simp [marked], List.all_eq_true.1 hv d List.mem_cons_self⟩
  obtain ⟨c, rest, hline, hbullet⟩ := hcons
  obtain ⟨d, hd, hl⟩ := hletter
  rw [hline] at hblank hother hd ⊢
  refine ⟨⟨c, rest, rfl, hblank c List.mem_cons_self, ?_, ?_⟩, ?_, ?_, isRule_of_letter hl hd, ?_⟩
  · intro hc
    have hmarks : blockMarks.all (fun d => !isLetter d && d != '*' && d != '_') = true := by decide
    have hmark := List.all_eq_true.1 hmarks c hc
    simp only [Bool.and_eq_true, Bool.not_eq_true', bne_iff_ne] at hmark
    obtain ⟨⟨h0, h1⟩, h2⟩ := hmark
    exact hother c List.mem_cons_self c h0 h1 h2 rfl
  · exact toNat_ne (hother c List.mem_cons_self _ (by decide +kernel) (by decide) (by decide))
  · exact fun c hc => hblank c (List.mem_of_getLast? hc)
  · intro c hc
    refine ⟨?_, ?_, toNat_ne ?_⟩
    · exact hother c hc _ (by decide) (by decide) (by decide)
    · exact hother c hc _ (by decide) (by decide) (by decide)
    · exact hother c hc _ (by decide) (by decide) (by decide)
  · refine listMarker?_eq_none (fun d hd => ⟨?_, ?_⟩) hbullet
    · exact hother d hd _ (by decide) (by decide) (by decide)
    · exact hother d hd _ (by decide) (by decide) (by decide)

end Prose

section Emphasis

variable {u v w : Text} (hu : u.all isLetter = true) (hv : v.all isLetter = true)
  (hw : w.all isLetter = true) (hne : v ≠ [])

include hu hv hw hne

theorem ofText_asterisks (defs : Definitions) :
    Inline.ofText defs (marked '*' u v w ++ ['\n']) =
      word u ++ .emphasis [.text v] :: word w := by
  rw [Inline.ofText, (isProse_marked hu hv hw hne (.inl rfl)).trimSpaceEnd,
    read_marked hu hv hw hne defs (.inl rfl)]
  cases u <;> cases w <;> rfl

/-- A word between underscores is emphasized if there are no other words. -/
theorem ofText_underscores (defs : Definitions) :
    Inline.ofText defs (marked '_' u v w ++ ['\n']) =
      if u.isEmpty && w.isEmpty then [.emphasis [.text v]]
      else word u ++ .text ['_'] :: .text v :: .text ['_'] :: word w := by
  rw [Inline.ofText, (isProse_marked hu hv hw hne (.inr rfl)).trimSpaceEnd,
    read_marked hu hv hw hne defs (.inr rfl)]
  cases u <;> cases w <;> rfl

end Emphasis

end Markdown

namespace Escape

section Lines

variable {t : Text} (ht : ∀ c ∈ t, isLetter c = true ∨ c = '_')

include ht

theorem ordinalPlace?_eq_none : ordinalPlace? t = none := by
  unfold ordinalPlace?
  rcases h : t.dropWhile isDigit with _ | ⟨d, rest⟩
  · rfl
  · have hd : d ∈ t := (List.dropWhile_suffix isDigit).mem (by rw [h]; exact List.mem_cons_self)
    have h1 : d ≠ '.' := ne_of_letter_or_mark (ht d hd) (by decide) (by decide)
    have h2 : d ≠ ')' := ne_of_letter_or_mark (ht d hd) (by decide) (by decide)
    simp [h1, h2]

theorem opensBlock_eq_false : opensBlock t = false := by
  rcases t with _ | ⟨c, t⟩
  · rfl
  · have hother : ∀ d, isLetter d = false → '_' ≠ d → c ≠ d :=
      fun d => ne_of_letter_or_mark (ht c List.mem_cons_self)
    have h1 : c ≠ '#' := hother _ (by decide) (by decide)
    have h2 : c ≠ '>' := hother _ (by decide) (by decide)
    have h3 : c ≠ '-' := hother _ (by decide) (by decide)
    have h4 : c ≠ '+' := hother _ (by decide) (by decide)
    have h5 : c ≠ '=' := hother _ (by decide) (by decide)
    have h6 : c ≠ '~' := hother _ (by decide) (by decide)
    simp [opensBlock, h1, h2, h3, h4, h5, h6]

theorem ofLine_eq_plain : Start.ofLine t = .plain := by
  rw [Start.ofLine, ordinalPlace?_eq_none ht, opensBlock_eq_false ht]
  rfl

end Lines

section Words

theorem needsEscape_letter {c : Char} (hc : isLetter c = true) (place : Nat) (before : Option Char)
    (after : Text) : needsEscape .plain place before c after = false := by
  have h1 : c ≠ '\\' := ne_of_isLetter hc (by decide)
  have h2 : c ≠ '`' := ne_of_isLetter hc (by decide)
  have h3 : c ≠ '*' := ne_of_isLetter hc (by decide)
  have h4 : c ≠ '_' := ne_of_isLetter hc (by decide)
  have h5 : c ≠ '[' := ne_of_isLetter hc (by decide)
  have h6 : c ≠ '<' := ne_of_isLetter hc (by decide)
  simp [needsEscape, h1, h2, h3, h4, h5, h6, Start.escapes]

theorem escapeFrom_append : ∀ {t : Text}, t.all isLetter = true → ∀ (place : Nat)
    (before : Option Char) (rest : Text), escapeFrom .plain place before (t ++ rest) =
      t ++ escapeFrom .plain (place + t.length) (t.getLast?.or before) rest
  | [], _, place, before, rest => by simp
  | c :: t, ht, place, before, rest => by
    rw [List.all_cons, Bool.and_eq_true] at ht
    rw [List.cons_append, escapeFrom, needsEscape_letter ht.1, escapeFrom_append ht.2]
    simp [Nat.add_assoc, Nat.add_comm 1, List.getLast?_cons]

theorem escapeFrom_word {t : Text} (ht : t.all isLetter = true) (place : Nat)
    (before : Option Char) : escapeFrom .plain place before t = t := by
  have h := escapeFrom_append ht place before []
  rwa [List.append_nil, escapeFrom, List.append_nil] at h

theorem mem_escapeFrom {start : Start} {d : Char} : ∀ {t : Text} {place : Nat}
    {before : Option Char}, d ∈ escapeFrom start place before t → d ∈ t ∨ d = '\\'
  | [], place, before, h => by cases h
  | c :: t, place, before, h => by
    rw [escapeFrom] at h
    split_ifs at h
    · rcases List.mem_cons.1 h with rfl | h
      · exact .inr rfl
      · rcases List.mem_cons.1 h with rfl | h
        · exact .inl List.mem_cons_self
        · exact (mem_escapeFrom h).imp_left (List.mem_cons_of_mem c)
    · rcases List.mem_cons.1 h with rfl | h
      · exact .inl List.mem_cons_self
      · exact (mem_escapeFrom h).imp_left (List.mem_cons_of_mem c)

theorem escape_word (lineStart : Bool) {t : Text} (ht : t.all isLetter = true) :
    escape lineStart t = t := by
  have hplain : (if lineStart then Start.ofLine t else .plain) = .plain := by
    rw [ofLine_eq_plain fun c hc => .inl (List.all_eq_true.1 ht c hc), ite_self]
  rw [escape, hplain, escapeFrom_word ht]

theorem any_isAlphanumeric {o : Option Char} (h : ∀ c ∈ o, isLetter c = true) :
    o.any isAlphanumeric = o.isSome := by
  rcases o with _ | c
  · rfl
  · simp [isAlphanumeric_of_isLetter (h c rfl)]

/-- An underscore is escaped unless it stands between words. -/
theorem needsEscape_underscore {before : Option Char} {after : Text}
    (hb : ∀ c ∈ before, isLetter c = true) (ha : ∀ c ∈ after.head?, isLetter c = true)
    (place : Nat) :
    needsEscape .plain place before '_' after = !(before.isSome && after.head?.isSome) := by
  have hblank : before.any isBlank = false := by
    rcases before with _ | c
    · rfl
    · simp [isBlank_of_isLetter (hb c rfl)]
  simp [needsEscape, hblank, any_isAlphanumeric hb, any_isAlphanumeric ha]

variable {u v w : Text} (hu : u.all isLetter = true) (hv : v.all isLetter = true)
  (hw : w.all isLetter = true)

include hu hv hw

/-- Of the underscores around a word, those are escaped that stand beside no other word. -/
theorem escape_marked (hne : v ≠ []) : escape true (marked '_' u v w) =
    u ++ ((if u.isEmpty then ['\\', '_'] else ['_']) ++
      (v ++ ((if w.isEmpty then ['\\', '_'] else ['_']) ++ w))) := by
  have hlast : ∀ {t : Text}, t.all isLetter = true → ∀ c ∈ t.getLast?, isLetter c = true :=
    fun ht c hc => List.all_eq_true.1 ht c (List.mem_of_getLast? hc)
  have hfirst : ∀ c ∈ (v ++ '_' :: w).head?, isLetter c = true := by
    rw [List.head?_append_of_ne_nil _ hne]
    exact fun c hc => List.all_eq_true.1 hv c (List.mem_of_head? hc)
  have hafter : ∀ c ∈ w.head?, isLetter c = true :=
    fun c hc => List.all_eq_true.1 hw c (List.mem_of_head? hc)
  have hor : v.getLast?.or (some '_') = v.getLast? := by
    rw [List.getLast?_eq_some_getLast hne]
    rfl
  have hsome : v.getLast?.isSome = true ∧ (v ++ '_' :: w).head?.isSome = true := by
    simp [hne]
  have hends : u.getLast?.isSome = !u.isEmpty ∧ w.head?.isSome = !w.isEmpty := by
    cases u <;> cases w <;> simp
  have hplain := ofLine_eq_plain fun c => mem_marked (m := '_') hu hv hw
  rw [escape, if_pos rfl, hplain, marked, escapeFrom_append hu, escapeFrom, Option.or_none,
    needsEscape_underscore (hlast hu) hfirst, escapeFrom_append hv, escapeFrom, hor,
    needsEscape_underscore (hlast hv) hafter, escapeFrom_word hw, hsome.1, hsome.2, hends.1,
    hends.2]
  cases u.isEmpty <;> cases w.isEmpty <;> simp

end Words

end Escape

end TidyMark
