import TidyMark.Proofs.Cut

/-!
# Crossing frames cut characters

`Slot`s are turns whose pieces have yet to get the text that follows them (`fill`). Where a frame
has outlived one that held it, there are texts with which it begins inside a character from then on
(`misplaces_of_outlives`): the close of the frame that held it has moved the text but not the
place. So turns that close such a frame cut a character for some texts (`exists_filled_eq_none`).
-/

namespace TidyMark.Render

open Text Canvas

/-- A turn with the text of its piece. Where the slot is free, any text may follow. -/
structure Slot where
  turn : Turn
  head : Text
  free : Bool

def Slot.pieces (s : Slot) (tail : Text) : List Piece :=
  [⟨s.turn.role, s.head⟩, ⟨.plain, if s.free then tail else []⟩]

def fill (filled : List (Slot × Text)) : List Piece :=
  filled.flatMap fun f => f.1.pieces f.2

def framesAfter (slots : List Slot) : Option (List Held) :=
  (slots.map (·.turn)).foldlM (turnOver? []) []

/-- What is asked of slots: a text may follow wherever a frame opens and wherever a quote closes
while an item is open, and no frame opens with an empty text. -/
structure Suits (slots : List Slot) : Prop where
  opens : ∀ s ∈ slots, ∀ k, s.turn = .opens k → s.free = true ∧ s.head ≠ []
  closes : ∀ above s below frames, slots = above ++ s :: below → s.turn = .closes .quote →
    framesAfter above = some frames → .item ∈ kinds frames → s.free = true

section Filling

theorem turns_pieces (s : Slot) (tail : Text) : turns (s.pieces tail) = [s.turn] := by
  have hplain : Role.plain.turn? = none := rfl
  simp [turns, Slot.pieces, hplain]

theorem turns_fill (filled : List (Slot × Text)) :
    turns (fill filled) = (filled.map (·.1)).map (·.turn) := by
  induction filled with
  | nil => rfl
  | cons f filled ih =>
    rw [fill, List.flatMap_cons, turns_append, ← fill, ih, turns_pieces]
    rfl

theorem fill_append (filled filled' : List (Slot × Text)) :
    fill (filled ++ filled') = fill filled ++ fill filled' :=
  List.flatMap_append

theorem Suits.left {slots slots' : List Slot} (h : Suits (slots ++ slots')) : Suits slots where
  opens s hs := h.opens s (List.mem_append_left _ hs)
  closes above s below frames he :=
    h.closes above s (below ++ slots') frames (by rw [he]; simp)

theorem run_slot (c : Canvas) (s : Slot) (tail : Text) :
    c.run (s.pieces tail) = (c.add? ⟨s.turn.role, s.head⟩).map
      (·.write (if s.free then tail else [])) := by
  rw [Slot.pieces, run_cons]
  cases c.add? ⟨s.turn.role, s.head⟩ <;> rfl

theorem starts_write (c : Canvas) (t : Text) (k : FrameKind) : (c.write t).starts k = c.starts k := by
  cases k <;> rfl

theorem add?_opens (c : Canvas) (k : FrameKind) (t : Text) : ∃ c',
    c.add? ⟨(Turn.opens k).role, t⟩ = some c' ∧ c'.out = c.out ++ t ∧
      c'.starts k = (c.out ++ t).byteLength :: c.starts k ∧ (∀ j ≠ k, c'.starts j = c.starts j) ∧
      (k = .item → c'.items = ⟨(c.out ++ t).byteLength, t.byteLength⟩ :: c.items) := by
  rcases k with _ | _
  · refine ⟨_, rfl, rfl, rfl, fun j hj => ?_, fun h => by cases h⟩
    cases j
    · exact absurd rfl hj
    · rfl
  · refine ⟨_, rfl, rfl, rfl, fun j hj => ?_, fun _ => rfl⟩
    cases j
    · rfl
    · exact absurd rfl hj

def FrameKind.change (k : FrameKind) (width : Nat) : Text → Text :=
  match k with
  | .quote => Render.quote
  | .item => indentContinuations width

theorem add?_closes {c : Canvas} {k : FrameKind} {before body : Text} {width : Nat}
    (hout : c.out = before ++ body) (hs : (c.starts k).head? = some before.byteLength)
    (hw : k = .item → c.items.head? = some ⟨before.byteLength, width⟩) (t : Text) :
    ∃ c', c.add? ⟨(Turn.closes k).role, t⟩ = some c' ∧
      c'.out = before ++ k.change width body ++ t := by
  obtain ⟨out, items, quotes⟩ := c
  obtain rfl : out = before ++ body := hout
  rcases k with _ | _
  · rcases quotes with _ | ⟨start, quotes⟩
    · cases hs
    · obtain rfl : start = before.byteLength := by simpa [starts] using hs
      simp only [Turn.role, add?, closeQuote?, changeFrom?_byteLength]
      exact ⟨_, rfl, rfl⟩
  · rcases items with _ | ⟨f, items⟩
    · cases hs
    · obtain rfl : f = ⟨before.byteLength, width⟩ := by simpa using hw rfl
      simp only [Turn.role, add?, closeItem?, changeFrom?_byteLength]
      exact ⟨_, rfl, rfl⟩

/-- A frame that begins inside a character cannot close. -/
theorem add?_closes_eq_none {c : Canvas} {k : FrameKind} {start : Nat}
    (hs : (c.starts k)[0]? = some start) (hc : c.out.IsCut start) (t : Text) :
    c.add? ⟨(Turn.closes k).role, t⟩ = none := by
  have hmin : min start c.out.byteLength = start := Nat.min_eq_left hc.le
  have hsplit : splitAtByte? start c.out = none := by
    have := mt splitAtByte?_isSome.1 hc.not_isBoundary
    simpa using this
  obtain ⟨out, items, quotes⟩ := c
  rcases k with _ | _
  · rcases quotes with _ | ⟨start', quotes⟩
    · simp [starts] at hs
    · obtain rfl : start' = start := by simpa [starts] using hs
      simp only at hmin hsplit
      simp [Turn.role, add?, closeQuote?, changeFrom?, hmin, hsplit]
  · rcases items with _ | ⟨⟨start', width⟩, items⟩
    · simp [starts] at hs
    · obtain rfl : start' = start := by simpa [starts] using hs
      simp only at hmin hsplit
      simp [Turn.role, add?, closeItem?, changeFrom?, hmin, hsplit]

theorem add?_closes_of_nil {c : Canvas} {k : FrameKind} (h : c.starts k = []) (t : Text) :
    c.add? ⟨(Turn.closes k).role, t⟩ = some (c.write t) := by
  obtain ⟨out, items, quotes⟩ := c
  rcases k with _ | _
  · obtain rfl : quotes = [] := h
    rfl
  · obtain rfl : items = [] := by simpa [starts] using h
    rfl

theorem run_fill_concat {filled : List (Slot × Text)} {s : Slot} {tail : Text} {c : Canvas}
    (h : run {} (fill (filled ++ [(s, tail)])) = some c) : ∃ c₀ c₁, run {} (fill filled) = some c₀ ∧
      c₀.add? ⟨s.turn.role, s.head⟩ = some c₁ ∧ c = c₁.write (if s.free then tail else []) := by
  rw [fill_append, run_append] at h
  obtain ⟨c₀, hc₀, h⟩ := Option.bind_eq_some_iff.1 h
  have hone : fill [(s, tail)] = s.pieces tail := by simp [fill]
  rw [hone, run_slot] at h
  obtain ⟨c₁, hc₁, rfl⟩ := Option.map_eq_some_iff.1 h
  exact ⟨c₀, c₁, hc₀, hc₁, rfl⟩

variable {filled₁ filled₂ : List (Slot × Text)} {opening closing : Slot} {inside tail : Text}
  {k : FrameKind} {top below : List Held} {c : Canvas}

theorem exists_entered (ho : opening.turn = .opens k) (hfree : opening.free = true)
    (h₁ : framesAfter (filled₁.map (·.1)) = some below)
    (h : run {} (fill (filled₁ ++ [(opening, inside)])) = some c) :
    ∃ c₁, run {} (fill filled₁) = some c₁ ∧ c.Fits (k :: kinds below) ∧
      c.out = c₁.out ++ opening.head ++ inside ∧
      c.starts k = (c₁.out ++ opening.head).byteLength :: c₁.starts k ∧
      (∀ j ≠ k, c.starts j = c₁.starts j) ∧
      (k = .item → c.items.head? =
        some ⟨(c₁.out ++ opening.head).byteLength, opening.head.byteLength⟩) := by
  obtain ⟨c₁, c₂, hc₁, hadd, rfl⟩ := run_fill_concat h
  rw [ho] at hadd
  obtain ⟨_, hadd', hout, hstarts, hothers, hitems⟩ := add?_opens c₁ k opening.head
  rw [hadd] at hadd'
  cases hadd'
  rw [if_pos hfree]
  refine ⟨c₁, hc₁, fun j => ?_, ?_, ?_, fun j hj => ?_, fun hk => ?_⟩
  · have ht : turnOver? [] below (.opens k) = some (⟨k, false⟩ :: below) := rfl
    have h₁' : c₁.Fits (kinds below) := fits_run fits_empty (by rwa [turns_fill]) hc₁
    rw [starts_write]
    exact fits_add? hadd h₁' (turn?_role _) ht j
  · rw [write, hout]
  · rw [starts_write, hstarts]
  · rw [starts_write, hothers j hj]
  · simp [write, hitems hk]

/-- A canvas on which a frame has opened and closed again. -/
theorem exists_closed (ho : opening.turn = .opens k) (hfree : opening.free = true)
    (hc : closing.turn = .closes k) (h₁ : framesAfter (filled₁.map (·.1)) = some below)
    (h₂ : ((filled₂.map (·.1)).map (·.turn)).foldlM (turnOver? (k :: kinds below)) [] = some top)
    (hk : k ∉ kinds top)
    (h : run {} (fill (filled₁ ++ (opening, inside) :: filled₂ ++ [(closing, tail)])) = some c) :
    ∃ c₁ inner, run {} (fill filled₁) = some c₁ ∧ run {} (fill filled₂) = some inner ∧
      inner.Fits (kinds top) ∧
      (∀ j, c.starts j =
        (inner.starts j).map ((c₁.out ++ opening.head ++ inside).byteLength + ·) ++ c₁.starts j) ∧
      c.out = c₁.out ++ opening.head ++
        k.change opening.head.byteLength (inside ++ inner.out) ++ closing.head ++
          if closing.free then tail else [] := by
  obtain ⟨c₃, c₄, hc₃, hc₄, rfl⟩ := run_fill_concat h
  rw [List.append_cons, fill_append, run_append] at hc₃
  obtain ⟨c₂, hc₂, hc₃⟩ := Option.bind_eq_some_iff.1 hc₃
  obtain ⟨c₁, hc₁, hfits, hout, hstarts, hothers, hitems⟩ := exists_entered ho hfree h₁ hc₂
  have hturns : (turns (fill filled₂)).foldlM (turnOver? (k :: kinds below)) [] = some top := by
    rwa [turns_fill]
  have hrun := run_onto hfits fits_empty hturns
  rw [onto_empty, hc₃] at hrun
  obtain ⟨inner, hi, rfl⟩ := Option.map_eq_some_iff.1 hrun.symm
  have hf := fits_run fits_empty hturns hi
  have hnil : inner.starts k = [] := (starts_eq_nil_iff hf).2 hk
  rw [hc] at hc₄
  refine ⟨c₁, inner, hc₁, hi, hf, fun j => ?_, ?_⟩
  · rw [starts_write, starts_add? hc₄ j, turn?_role, starts_onto, hout]
    dsimp only
    split_ifs with hj
    · subst hj
      rw [hnil, hstarts]
      rfl
    · rw [hothers j (Ne.symm hj)]
  · have hall : (c₂.onto inner).out = c₁.out ++ opening.head ++ (inside ++ inner.out) := by
      simp [onto, hout]
    have hhead : ((c₂.onto inner).starts k).head? = some (c₁.out ++ opening.head).byteLength := by
      rw [starts_onto, hnil, hstarts]
      rfl
    have hwidth : k = .item → (c₂.onto inner).items.head? =
        some ⟨(c₁.out ++ opening.head).byteLength, opening.head.byteLength⟩ := by
      rintro rfl
      have hitems' : inner.items = [] := by simpa [starts] using hnil
      simpa [onto, hitems'] using hitems rfl
    obtain ⟨c₅, hc₅, hout₅⟩ := add?_closes hall hhead hwidth closing.head
    rw [hc₄] at hc₅
    cases hc₅
    simp [write, hout₅]

end Filling

section Misplacing

/-- Whether there are texts for slots with which the frame number `n` of a kind begins inside a
character, unless the slots cut one already. -/
def Misplaces (slots : List Slot) (k : FrameKind) (n : Nat) : Prop :=
  ∃ filled : List (Slot × Text), filled.map (·.1) = slots ∧
    ∀ c, run {} (fill filled) = some c →
      ∃ start, (c.starts k)[n]? = some start ∧ c.out.IsCut start

def bare (slots : List Slot) : List (Slot × Text) :=
  slots.map fun s => (s, [])

theorem map_bare (slots : List Slot) : (bare slots).map (·.1) = slots := by
  rw [bare, List.map_map]
  exact List.map_id slots

variable {slots slots₁ slots₂ : List Slot} {opening closing : Slot} {top below : List Held}
  {k k₀ : FrameKind} {n : Nat}

theorem Misplaces.opens (h : Misplaces slots k n) (ho : opening.turn = .opens k₀) :
    Misplaces (slots ++ [opening]) k (n + if k₀ = k then 1 else 0) := by
  obtain ⟨filled, rfl, h⟩ := h
  refine ⟨filled ++ [(opening, [])], by simp, fun c hc => ?_⟩
  obtain ⟨c₀, c₁, hc₀, hc₁, rfl⟩ := run_fill_concat hc
  obtain ⟨start, hs, hcut⟩ := h c₀ hc₀
  obtain ⟨c₁', hadd, hout, hstarts, hothers, -⟩ := add?_opens c₀ k₀ opening.head
  rw [ho, hadd] at hc₁
  cases hc₁
  refine ⟨start, ?_, ?_⟩
  · rw [starts_write]
    split_ifs with hk
    · subst hk
      rw [hstarts, List.getElem?_cons_succ, hs]
    · rw [hothers k (Ne.symm hk), Nat.add_zero, hs]
  · simp only [write, hout]
    exact (hcut.append _).append _

theorem Misplaces.skips (h : Misplaces slots k n) (hc : closing.turn = .closes k₀)
    {frames : List Held} (hf : framesAfter slots = some frames) (hk : k₀ ∉ kinds frames) :
    Misplaces (slots ++ [closing]) k n := by
  obtain ⟨filled, rfl, h⟩ := h
  refine ⟨filled ++ [(closing, [])], by simp, fun c hc' => ?_⟩
  obtain ⟨c₀, c₁, hc₀, hc₁, rfl⟩ := run_fill_concat hc'
  obtain ⟨start, hs, hcut⟩ := h c₀ hc₀
  have hfits : c₀.Fits (kinds frames) := fits_run fits_empty (by rwa [turns_fill]) hc₀
  rw [hc, add?_closes_of_nil ((starts_eq_nil_iff hfits).2 hk)] at hc₁
  cases hc₁
  refine ⟨start, ?_, ?_⟩
  · rw [starts_write, starts_write, hs]
  · simp only [write]
    exact (hcut.append _).append _

/-- A frame that opens and closes again leaves those alone that were open before. -/
theorem Misplaces.closed (h : Misplaces slots₁ k n) (ho : opening.turn = .opens k₀)
    (hfree : opening.free = true) (hc : closing.turn = .closes k₀)
    (h₁ : framesAfter slots₁ = some below)
    (h₂ : (slots₂.map (·.turn)).foldlM (turnOver? (k₀ :: kinds below)) [] = some top)
    (hk : k₀ ∉ kinds top) :
    Misplaces (slots₁ ++ opening :: slots₂ ++ [closing]) k ((kinds top).count k + n) := by
  obtain ⟨filled, rfl, h⟩ := h
  refine ⟨filled ++ (opening, []) :: bare slots₂ ++ [(closing, [])], by simp [map_bare],
    fun c hc' => ?_⟩
  rw [← map_bare slots₂] at h₂
  obtain ⟨c₁, inner, hc₁, -, hinner, hstarts, hout⟩ := exists_closed ho hfree hc h₁ h₂ hk hc'
  obtain ⟨start, hs, hcut⟩ := h c₁ hc₁
  refine ⟨start, ?_, ?_⟩
  · rw [hstarts k, List.getElem?_append_right (by simp [hinner k]), List.length_map, hinner k,
      Nat.add_sub_cancel_left, hs]
  · rw [hout]
    simp only [List.append_assoc]
    exact hcut.append _

/-- Whether texts put a place behind them inside a character when the frame around them closes,
whatever stands before the frame. -/
def Shifts (opening closing : Slot) (k₀ : FrameKind) (inner : Text) (start : Nat) : Prop :=
  ∃ inside tail, ∀ before : Text,
    (before ++ k₀.change opening.head.byteLength (inside ++ inner) ++ closing.head ++
      if closing.free then tail else []).IsCut ((before ++ inside).byteLength + start)

theorem misplaces_of_shifts (ho : opening.turn = .opens k₀) (hfree : opening.free = true)
    (hc : closing.turn = .closes k₀) (h₁ : framesAfter slots₁ = some below)
    (h₂ : (slots₂.map (·.turn)).foldlM (turnOver? (k₀ :: kinds below)) [] = some top)
    (hk : k₀ ∉ kinds top) (hn : n < (kinds top).count k)
    (h : ∀ inner start, Shifts opening closing k₀ inner start) :
    Misplaces (slots₁ ++ opening :: slots₂ ++ [closing]) k n := by
  have hmap : ∀ inside tail, List.map (·.1)
      (bare slots₁ ++ (opening, inside) :: bare slots₂ ++ [(closing, tail)]) =
        slots₁ ++ opening :: slots₂ ++ [closing] := fun _ _ => by simp [map_bare]
  rw [← map_bare slots₁] at h₁
  rw [← map_bare slots₂] at h₂
  -- the texts depend on what the slots in the frame write, if they do not cut a character
  rcases hi : run {} (fill (bare slots₂)) with _ | inner
  · refine ⟨_, hmap [] [], fun c hc' => ?_⟩
    obtain ⟨_, _, -, hi', -⟩ := exists_closed ho hfree hc h₁ h₂ hk hc'
    rw [hi] at hi'
    cases hi'
  · have hlen : n < (inner.starts k).length := by
      rw [← turns_fill] at h₂
      rwa [fits_run fits_empty h₂ hi k]
    obtain ⟨inside, tail, hcut⟩ := h inner.out (inner.starts k)[n]
    refine ⟨_, hmap inside tail, fun c hc' => ?_⟩
    obtain ⟨c₁, inner', -, hi', -, hstarts, hout⟩ := exists_closed ho hfree hc h₁ h₂ hk hc'
    rw [hi] at hi'
    cases hi'
    refine ⟨(c₁.out ++ opening.head ++ inside).byteLength + (inner.starts k)[n], ?_, ?_⟩
    · rw [hstarts, List.getElem?_append_left (by simpa using hlen), List.getElem?_map,
        List.getElem?_eq_getElem hlen, Option.map_some]
    · rw [hout]
      exact hcut (c₁.out ++ opening.head)

/-- When an item closes, its lines move on under what is still open in it. -/
theorem shifts_of_item (hne : opening.head ≠ []) (inner : Text) (d : Nat) :
    Shifts opening closing .item inner d := by
  obtain ⟨q, hq⟩ : ∃ q, (d + 1) * opening.head.byteLength = q := ⟨_, rfl⟩
  have hle : d + 1 ≤ q := by
    rw [← hq]
    exact Nat.le_mul_of_pos_right _ (byteLength_pos hne)
  let e := (q + d + 1) % 2
  obtain ⟨moved, rest, hindent, hlen⟩ := exists_indented (newline_not_mem_row q e)
    (allBlank_row e (by omega)) opening.head.byteLength d inner
  refine ⟨stairs (d + 1) ++ (row q ++ List.replicate e 'a'), [], fun before => ?_⟩
  have hcut := isCut_row (before ++ moved)
    (List.replicate e 'a' ++ rest ++ closing.head ++ if closing.free then [] else [])
    (show (q + e + d) / 2 < q by omega)
  have hplace : (before ++ moved).byteLength + 2 * ((q + e + d) / 2) + 1 =
      (before ++ (stairs (d + 1) ++ (row q ++ List.replicate e 'a'))).byteLength + d := by
    simp only [byteLength_append, byteLength_stairs, byteLength_row, hlen, hq,
      byteLength_replicate (c := 'a') (by decide)]
    omega
  rw [hplace] at hcut
  rw [FrameKind.change, List.append_assoc (stairs (d + 1)), hindent]
  simpa using hcut

/-- When a quote closes, the line feeds at its beginning are lost, but not to what is still open
in it. -/
theorem shifts_of_quote (hcfree : closing.free = true) (inner : Text) (d : Nat) :
    Shifts opening closing .quote inner d := by
  let lost := (quote inner ++ closing.head).byteLength + 1
  let tail := List.replicate (d % 2) 'a' ++ row (d + 1)
  refine ⟨List.replicate lost '\n', tail, fun before => ?_⟩
  have hcut := isCut_row (before ++ (quote inner ++ closing.head) ++ List.replicate (d % 2) 'a') []
    (show d / 2 < d + 1 by omega)
  have hplace : (before ++ (quote inner ++ closing.head) ++
      List.replicate (d % 2) 'a').byteLength + 2 * (d / 2) + 1 =
        (before ++ List.replicate lost '\n').byteLength + d := by
    simp only [byteLength_append _ (List.replicate _ _), byteLength_append _ (_ ++ closing.head),
      byteLength_replicate (c := 'a') (by decide), byteLength_replicate (c := '\n') (by decide)]
    omega
  rw [hplace] at hcut
  rw [FrameKind.change, quote_replicate, if_pos hcfree]
  simpa [tail] using hcut

end Misplacing

section Failing

theorem framesAfter_concat {slots : List Slot} {s : Slot} {frames : List Held}
    (h : framesAfter (slots ++ [s]) = some frames) : ∃ frames₀,
      framesAfter slots = some frames₀ ∧ turnOver? [] frames₀ s.turn = some frames := by
  rw [framesAfter, List.map_append, List.foldlM_append] at h
  obtain ⟨frames₀, h₀, h⟩ := Option.bind_eq_some_iff.1 h
  exact ⟨frames₀, h₀, by simpa using h⟩

theorem kinds_outlive (frames : List Held) : kinds (frames.map Held.outlive) = kinds frames := by
  rw [kinds, kinds, List.map_map]
  rfl

theorem exists_opening {slots : List Slot} {top below : List Held} {k : FrameKind}
    (h : framesAfter slots = some (top ++ ⟨k, false⟩ :: below)) :
    ∃ slots₁ opening slots₂, slots = slots₁ ++ opening :: slots₂ ∧ opening.turn = .opens k ∧
      framesAfter slots₁ = some below ∧
      (slots₂.map (·.turn)).foldlM (turnOver? (k :: kinds below)) [] = some top := by
  obtain ⟨before, after, hturns, hb, ha⟩ := exists_opened h
  obtain ⟨slots₁, rest, rfl, rfl, hrest⟩ := List.map_eq_append_iff.1 hturns
  obtain ⟨opening, slots₂, rfl, ho, rfl⟩ := List.map_eq_cons_iff.1 hrest
  exact ⟨slots₁, opening, slots₂, rfl, ho, hb, ha⟩

/-- A frame that is misplaced when the one closes that holds it. -/
theorem Suits.misplaces_held {slots₁ slots₂ : List Slot} {opening s : Slot}
    {top₀ below₀ top mid : List Held} {k₀ k : FrameKind}
    (hs : Suits (slots₁ ++ opening :: slots₂ ++ [s])) (ho : opening.turn = .opens k₀)
    (hturn : s.turn = .closes k₀) (h₁ : framesAfter slots₁ = some below₀)
    (h₂ : (slots₂.map (·.turn)).foldlM (turnOver? (k₀ :: kinds below₀)) [] = some top₀)
    (hframes : framesAfter (slots₁ ++ opening :: slots₂) = some (top₀ ++ ⟨k₀, false⟩ :: below₀))
    (hk : k₀ ∉ kinds top₀) (hheld : top₀.map Held.outlive = top ++ ⟨k, true⟩ :: mid) :
    Misplaces (slots₁ ++ opening :: slots₂ ++ [s]) k ((kinds top).count k) := by
  obtain ⟨hfree, hne⟩ := hs.opens opening (by simp) k₀ ho
  have hkinds : kinds top₀ = kinds top ++ k :: kinds mid := by
    rw [← kinds_outlive, hheld]
    simp [kinds]
  have hn : (kinds top).count k < (kinds top₀).count k := by
    rw [hkinds, List.count_append, List.count_cons_self]
    omega
  have hin : k ∈ kinds top₀ := by simp [hkinds]
  cases k₀ <;> cases k
  · exact absurd hin hk
  · have hframes' : .item ∈ kinds (top₀ ++ ⟨.quote, false⟩ :: below₀) := by
      rw [kinds, List.map_append]
      exact List.mem_append_left _ hin
    have hclosing := hs.closes _ s [] _ (by simp) hturn hframes hframes'
    exact misplaces_of_shifts ho hfree hturn h₁ h₂ hk hn (shifts_of_quote hclosing)
  · exact misplaces_of_shifts ho hfree hturn h₁ h₂ hk hn (shifts_of_item hne)
  · exact absurd hin hk

/-- A frame that has outlived one that held it can be made to begin inside a character. -/
theorem misplaces_of_outlives {slots : List Slot} (hs : Suits slots) {top below : List Held}
    {k : FrameKind} (h : framesAfter slots = some (top ++ ⟨k, true⟩ :: below)) :
    Misplaces slots k ((kinds top).count k) := by
  induction hl : slots.length using Nat.strongRecOn generalizing slots top below with
  | _ m ih =>
    rcases List.eq_nil_or_concat slots with rfl | ⟨slots, s, rfl⟩
    · simp [framesAfter] at h
    rw [List.concat_eq_append] at *
    rw [List.length_append, List.length_singleton] at hl
    obtain ⟨frames, hframes, ht⟩ := framesAfter_concat h
    obtain ⟨k₀, hturn, he⟩ | ⟨k₀, top₀, below₀, hturn, rfl, hk, he⟩ | ⟨k₀, hturn, hk, -, rfl⟩ :=
      turnOver?_eq_some_iff.1 ht
    -- the frame that opens is not the one, which is further out now
    · rcases top with _ | ⟨f, top⟩
      · simp at he
      · simp only [List.cons_append, List.cons.injEq] at he
        obtain ⟨rfl, rfl⟩ := he
        have := (ih slots.length (by omega) hs.left hframes rfl).opens hturn
        simpa [kinds, List.count_cons] using this
    -- a frame closes: either the one is in it, and is misplaced by this, or it has been before
    · obtain ⟨slots₁, opening, slots₂, rfl, ho, h₁, h₂⟩ := exists_opening hframes
      have hfree := (hs.opens opening (by simp) k₀ ho).1
      have outer : ∀ mid, top = top₀.map Held.outlive ++ mid →
          below₀ = mid ++ ⟨k, true⟩ :: below → Misplaces (slots₁ ++ opening :: slots₂ ++ [s]) k
            ((kinds top).count k) := by
        rintro mid rfl rfl
        have hl₁ : slots₁.length < m := by
          rw [List.length_append] at hl
          omega
        have := (ih slots₁.length hl₁ hs.left.left h₁ rfl).closed ho hfree hturn h₁ h₂ hk
        have hcount : (kinds (top₀.map Held.outlive ++ mid)).count k =
            (kinds top₀).count k + (kinds mid).count k := by
          rw [kinds, List.map_append, List.count_append, ← kinds, ← kinds, kinds_outlive]
        rwa [hcount]
      rcases List.append_eq_append_iff.1 he with ⟨_ | ⟨f, mid⟩, h3, h4⟩ | ⟨mid, h3, h4⟩
      · exact outer [] (by simpa using h3.symm) (by simpa using h4.symm)
      · obtain ⟨rfl, -⟩ : f = ⟨k, true⟩ ∧ _ := by simpa [eq_comm] using h4
        exact hs.misplaces_held ho hturn h₁ h₂ hframes hk h3
      · exact outer mid h3 h4
    · exact (ih slots.length (by omega) hs.left hframes rfl).skips hturn hframes hk

/-- Slots whose turns close a frame that has outlived one that held it cut a character with some
texts. -/
theorem exists_filled_eq_none {slots : List Slot} (hs : Suits slots)
    (h : framesAfter slots = none) :
    ∃ filled : List (Slot × Text), filled.map (·.1) = slots ∧ run {} (fill filled) = none := by
  induction slots using List.reverseRecOn with
  | nil => cases h
  | append_singleton slots s ih =>
    rcases hframes : framesAfter slots with _ | frames
    · obtain ⟨filled, rfl, hrun⟩ := ih hs.left hframes
      refine ⟨filled ++ [(s, [])], by simp, ?_⟩
      rw [fill_append, run_append, hrun, Option.bind_none]
    · have ht : turnOver? [] frames s.turn = none := by
        rw [framesAfter, List.map_append, List.foldlM_append] at h
        rw [framesAfter] at hframes
        simpa [hframes] using h
      obtain ⟨k, top, below, hturn, rfl, hk⟩ := turnOver?_eq_none ht
      obtain ⟨filled, rfl, hcut⟩ := misplaces_of_outlives hs.left hframes
      refine ⟨filled ++ [(s, [])], by simp, ?_⟩
      rw [fill_append, run_append]
      rcases hc : run {} (fill filled) with _ | c
      · rfl
      · obtain ⟨start, hstart, hcut⟩ := hcut c hc
        rw [List.count_eq_zero_of_not_mem hk] at hstart
        have hone : fill [(s, [])] = s.pieces [] := by simp [fill]
        rw [Option.bind_some, hone, run_slot, hturn, add?_closes_eq_none hstart hcut]
        rfl

end Failing

end TidyMark.Render
