import Mathlib.Data.List.DropRight
import Mathlib.Data.List.Forall2
import Mathlib.Tactic.SplitIfs
import TidyMark.Reflink.Region

/-!
# What the line scanner sees

Whether a line is code, and what the lines after it are, goes by the beginning of the line: nothing
from its first bracket on counts (`step_eq_of_sameStart`). So lines that are the same up to their
first bracket are marked in the same way, one after the other (`mark_changed`), as long as the
text that they make up is cut into the same pieces again (`pieces_flatten`).
-/

namespace TidyMark

section DropWhile

variable {α : Type} (p : α → Bool)

theorem takeWhile_append_cons {c : α} (hc : p c = false) (s t : List α) :
    (s ++ c :: t).takeWhile p = s.takeWhile p := by
  induction s with
  | nil => simp [hc]
  | cons d s ih => simp only [List.cons_append, List.takeWhile_cons, ih]

theorem dropWhile_append_cons {c : α} (hc : p c = false) (s t : List α) :
    (s ++ c :: t).dropWhile p = s.dropWhile p ++ c :: t := by
  induction s with
  | nil => simp [hc]
  | cons d s ih =>
    simp only [List.cons_append, List.dropWhile_cons, ih]
    split_ifs <;> rfl

theorem take_length_takeWhile (l : List α) : l.take (l.takeWhile p).length = l.takeWhile p :=
  (List.prefix_iff_eq_take.1 (List.takeWhile_prefix p)).symm

theorem drop_length_takeWhile (l : List α) : l.drop (l.takeWhile p).length = l.dropWhile p :=
  (congrArg (List.drop _) List.takeWhile_append_dropWhile.symm).trans List.drop_left

end DropWhile

section Replicate

variable {α : Type} [DecidableEq α] {c : α} (n : Nat) {t : List α} (ht : t.head? ≠ some c)

include ht

theorem takeWhile_replicate_append :
    (List.replicate n c ++ t).takeWhile (· == c) = List.replicate n c := by
  rw [List.takeWhile_append_of_pos (by simp)]
  rcases t with _ | ⟨d, t⟩
  · simp
  · simp [show d ≠ c by simpa using ht]

theorem dropWhile_replicate_append : (List.replicate n c ++ t).dropWhile (· == c) = t := by
  rw [List.dropWhile_append_of_pos (by simp)]
  rcases t with _ | ⟨d, t⟩
  · rfl
  · simp [show d ≠ c by simpa using ht]

end Replicate

/-- A list begins with a run of any element, which may be empty. -/
theorem exists_replicate_append {α : Type} [DecidableEq α] (c : α) (t : List α) :
    ∃ n rest, t = List.replicate n c ++ rest ∧ rest.head? ≠ some c := by
  induction t with
  | nil => exact ⟨0, [], rfl, by simp⟩
  | cons d t ih =>
    by_cases hd : d = c
    · obtain ⟨n, rest, rfl, hrest⟩ := ih
      exact ⟨n + 1, rest, by simp [hd, List.replicate_succ], hrest⟩
    · exact ⟨0, d :: t, rfl, by simpa using hd⟩

namespace Text

/-- Texts that make up a text when each of them but the last ends with its only line feed. -/
inductive ArePieces : List Text → Prop
  | nil : ArePieces []
  | last {t : Text} (hn : '\n' ∉ t) (ht : t ≠ []) : ArePieces [t]
  | cons {t : Text} {ps : List Text} (hn : '\n' ∉ t) (h : ArePieces ps) :
      ArePieces ((t ++ ['\n']) :: ps)

theorem pieces_append_newline : ∀ {t : Text}, '\n' ∉ t → ∀ rest : Text,
    pieces (t ++ '\n' :: rest) = (t ++ ['\n']) :: pieces rest
  | [], _, rest => by simp [pieces]
  | c :: t, h, rest => by
    simp only [List.mem_cons, not_or] at h
    rw [List.cons_append, pieces, pieces_append_newline h.2, if_neg (by simpa using Ne.symm h.1)]
    rfl

theorem pieces_of_not_mem : ∀ {t : Text}, '\n' ∉ t → t ≠ [] → pieces t = [t]
  | [], _, ht => absurd rfl ht
  | c :: t, h, _ => by
    simp only [List.mem_cons, not_or] at h
    rw [pieces, if_neg (by simpa using Ne.symm h.1)]
    rcases t with _ | ⟨d, t⟩
    · rfl
    · rw [pieces_of_not_mem h.2 (by simp)]

theorem arePieces_pieces (t : Text) : ArePieces t.pieces := by
  induction t with
  | nil => exact .nil
  | cons c t ih =>
    rw [pieces]
    split_ifs with hc
    · rw [eq_of_beq hc]
      exact .cons List.not_mem_nil ih
    · have hc : '\n' ≠ c := fun h => hc (by simp [← h])
      rcases h : pieces t with _ | ⟨line, lines⟩ <;> rw [h] at ih
      · exact .last (by simpa using hc) (by simp)
      · cases ih with
        | last hn ht => exact .last (by simpa using ⟨hc, hn⟩) (by simp)
        | cons hn ih =>
          refine ArePieces.cons (t := c :: _) ?_ ih
          simpa using ⟨hc, hn⟩

theorem pieces_flatten {ps : List Text} (h : ArePieces ps) : pieces ps.flatten = ps := by
  induction h with
  | nil => rfl
  | last hn ht => simpa using pieces_of_not_mem hn ht
  | cons hn _ ih =>
    rw [List.flatten_cons, List.append_assoc, List.singleton_append, pieces_append_newline hn, ih]

end Text

namespace Reflink

open Text

/-- Two lines that are the same, at least up to a bracket. -/
def SameStart (s t : Text) : Prop :=
  s = t ∨ ∃ p r r', s = p ++ '[' :: r ∧ t = p ++ '[' :: r'

section Bracket

theorem allBlank_append_bracket (p r : Text) : (p ++ '[' :: r).allBlank = false := by
  simp [Text.allBlank, show isBlank '[' = false by decide]

theorem indentWidth_append_bracket (p r r' : Text) :
    indentWidth (p ++ '[' :: r) = indentWidth (p ++ '[' :: r') := by
  have go : ∀ (p : Text) (width : Nat),
      indentWidth.go width (p ++ '[' :: r) = indentWidth.go width (p ++ '[' :: r') := by
    intro p
    induction p with
    | nil => intro width; rfl
    | cons c p ih =>
      intro width
      simp only [List.cons_append]
      unfold indentWidth.go
      split <;> split <;> simp_all
  exact go p 0

theorem endsMarker_append_bracket (p r r' : Text) :
    endsMarker (p ++ '[' :: r) = endsMarker (p ++ '[' :: r') := by
  rcases p with _ | ⟨c, p⟩ <;> rfl

theorem isListItem_append_bracket (p r r' : Text) :
    isListItem (p ++ '[' :: r) = isListItem (p ++ '[' :: r') := by
  have hd : isDigit '[' = false := by decide
  simp only [isListItem]
  rw [takeWhile_append_cons (· == ' ') (by decide), takeWhile_append_cons (· == ' ') (by decide),
    dropWhile_append_cons (· == ' ') (by decide), dropWhile_append_cons (· == ' ') (by decide)]
  rcases p.dropWhile (· == ' ') with _ | ⟨c, q⟩
  · simp [hd]
  · have ht : ∀ r, (c :: (q ++ '[' :: r)).takeWhile isDigit = (c :: q).takeWhile isDigit :=
      takeWhile_append_cons _ hd (c :: q)
    have hw : ∀ r, (c :: (q ++ '[' :: r)).dropWhile isDigit =
        (c :: q).dropWhile isDigit ++ '[' :: r := dropWhile_append_cons _ hd (c :: q)
    simp only [List.cons_append, ht, hw, endsMarker_append_bracket q r r']
    rcases (c :: q).dropWhile isDigit with _ | ⟨d, s⟩
    · simp
    · simp only [List.cons_append]
      rw [endsMarker_append_bracket s r r']

theorem fenceMark_append_bracket (p r r' : Text) :
    (FenceMark.ofLine? (p ++ '[' :: r)).isSome = (FenceMark.ofLine? (p ++ '[' :: r')).isSome := by
  simp only [FenceMark.ofLine?]
  rw [takeWhile_append_cons (· == ' ') (by decide), takeWhile_append_cons (· == ' ') (by decide),
    dropWhile_append_cons (· == ' ') (by decide), dropWhile_append_cons (· == ' ') (by decide)]
  split_ifs
  · rfl
  · rcases p.dropWhile (· == ' ') with _ | ⟨c, q⟩
    · simp
    · simp only [List.cons_append]
      by_cases hc : c = '['
      · subst hc
        simp
      · have ht : ∀ r, (c :: (q ++ '[' :: r)).takeWhile (· == c) = (c :: q).takeWhile (· == c) :=
          takeWhile_append_cons (· == c) (beq_false_of_ne (Ne.symm hc)) (c :: q)
        simp only [ht]
        split_ifs <;> rfl

end Bracket

/-- When a line is no code: no fence is open, it goes on no indented code and begins none, and it
is no fence. -/
theorem classify_eq_not_code {region : Region} {line : Text} :
    region.classify line = (false, none, false) ↔ region.fence = none ∧
      (region.indented && (line.allBlank || decide (4 ≤ indentWidth line))) = false ∧
      (!line.allBlank && decide (4 ≤ indentWidth line) && region.afterBlank &&
        !region.inList) = false ∧ (FenceMark.ofLine? line).isSome = false := by
  unfold Region.classify
  rcases region.fence with _ | fence
  · dsimp only
    split_ifs with h1 h2
    · simp [h1]
    · simp [h2]
    · rcases FenceMark.ofLine? line with _ | mark
      · simp only [Bool.not_eq_true] at h1 h2
        simp only [h1, h2, Option.isSome_none, and_self]
      · simp
  · simp

theorem classify_of_fst_eq_false {region : Region} {line : Text}
    (h : (region.classify line).1 = false) : region.classify line = (false, none, false) := by
  unfold Region.classify at h ⊢
  rcases hf : region.fence with _ | fence <;> rw [hf] at h
  · dsimp only at h ⊢
    split_ifs at h ⊢
    rcases hm : FenceMark.ofLine? line with _ | mark
    · rfl
    · simp [hm] at h
  · simp at h

/-- Of a line that is no code, the scanner sees nothing from the first bracket on. -/
theorem step_eq_of_sameStart {region : Region} {line line' : Text} (h : SameStart line line')
    (hc : (region.step line).1 = false) : region.step line' = region.step line := by
  obtain rfl | ⟨p, r, r', rfl, rfl⟩ := h
  · rfl
  · have hcode := classify_of_fst_eq_false (show (region.classify (p ++ '[' :: r)).1 = false from hc)
    have hcode' : region.classify (p ++ '[' :: r') = (false, none, false) := by
      rw [classify_eq_not_code] at hcode ⊢
      rw [allBlank_append_bracket] at hcode ⊢
      rwa [indentWidth_append_bracket p r' r, fenceMark_append_bracket p r' r]
    simp only [Region.step, hcode, hcode', allBlank_append_bracket, isListItem_append_bracket p r' r,
      indentWidth_append_bracket p r' r]

section Marking

theorem sameStart_append {s t : Text} (u : Text) (h : SameStart s t) :
    SameStart (u ++ s) (u ++ t) := by
  obtain rfl | ⟨p, r, r', rfl, rfl⟩ := h
  · exact .inl rfl
  · exact .inr ⟨u ++ p, r, r', by simp, by simp⟩

structure IsLine (text ending : Text) : Prop where
  no_newline : '\n' ∉ text
  no_return : text.getLast? ≠ some '\r'
  ending : ∃ rs : Text, (∀ c ∈ rs, c = '\r') ∧ (ending = rs ∨ ending = rs ++ ['\n'])

theorem dropEndWhile_append_of_all {p : Char → Bool} (s : Text) {t : Text}
    (h : ∀ c ∈ t, p c = true) : (s ++ t).dropEndWhile p = s.dropEndWhile p := by
  rw [Text.dropEndWhile, List.reverse_append, List.dropWhile_append_of_pos (by simpa using h)]
  rfl

theorem dropEndWhile_append_cons {p : Char → Bool} {c : Char} (hc : p c = false) (s t : Text) :
    (s ++ c :: t).dropEndWhile p = s ++ c :: t.dropEndWhile p := by
  simp only [Text.dropEndWhile, List.reverse_append, List.reverse_cons, List.append_assoc,
    List.singleton_append]
  rw [dropWhile_append_cons p hc]
  simp

theorem dropEndWhile_eq_self {p : Char → Bool} {s : Text}
    (h : ∀ hs : s ≠ [], p (s.getLast hs) = false) : s.dropEndWhile p = s :=
  List.rdropWhile_eq_self_iff.2 fun hs => by simp [h hs]

theorem IsLine.lineText_append {text ending : Text} (h : IsLine text ending) :
    lineText (text ++ ending) = text := by
  obtain ⟨rs, hrs, he⟩ := h.ending
  have hn : (text ++ rs).dropEndWhile (· == '\n') = text ++ rs := by
    refine dropEndWhile_eq_self fun hs => ?_
    have hm := List.getLast_mem hs
    rw [beq_eq_false_iff_ne]
    intro heq
    rw [heq] at hm
    rcases List.mem_append.1 hm with hm | hm
    · exact h.no_newline hm
    · cases hrs _ hm
  have hr : (text ++ rs).dropEndWhile (· == '\r') = text := by
    rw [dropEndWhile_append_of_all _ (by simpa using hrs)]
    refine dropEndWhile_eq_self fun hs => ?_
    simpa [List.getLast?_eq_some_getLast hs] using h.no_return
  unfold lineText
  rcases he with rfl | rfl
  · rw [hn, hr]
  · rw [← List.append_assoc, dropEndWhile_append_of_all _ (by simp), hn, hr]

theorem exists_isLine {t : Text} (hn : '\n' ∉ t) : ∃ text rs : Text, t = text ++ rs ∧
    IsLine text rs ∧ IsLine text (rs ++ ['\n']) := by
  have ht : t.rdropWhile (· == '\r') ++ t.rtakeWhile (· == '\r') = t :=
    List.rdropWhile_append_rtakeWhile
  have hrs : ∀ c ∈ t.rtakeWhile (· == '\r'), c = '\r' := fun c hc => by
    simpa using List.mem_rtakeWhile_imp hc
  have hline : '\n' ∉ t.rdropWhile (· == '\r') := fun h =>
    hn ((List.rdropWhile_prefix _ _).subset h)
  have hlast : (t.rdropWhile (· == '\r')).getLast? ≠ some '\r' := by
    intro h
    obtain ⟨s, hs⟩ := List.getLast?_eq_some_iff.1 h
    have hne : t.rdropWhile (· == '\r') ≠ [] := by simp [hs]
    have := List.rdropWhile_last_not (· == '\r') t hne
    simp [hs] at this
  exact ⟨_, _, ht.symm, ⟨hline, hlast, _, hrs, .inl rfl⟩, ⟨hline, hlast, _, hrs, .inr rfl⟩⟩

theorem SameStart.ne_nil {s t : Text} (h : SameStart s t) (hs : s ≠ []) : t ≠ [] := by
  obtain rfl | ⟨p, r, r', -, rfl⟩ := h
  · exact hs
  · simp

def Line.withText (line : Line) (text : Text) : Line :=
  { line with text }

/-- A change of lines that the scanner does not see. -/
structure Unseen (f : Line → Text) : Prop where
  code : ∀ line : Line, line.inCode = true → f line = line.text
  sameStart : ∀ line, SameStart line.text (f line)
  isLine : ∀ line : Line, IsLine line.text line.ending → IsLine (f line) line.ending

def changed (f : Line → Text) (lines : List Line) : List Text :=
  lines.map fun line => f line ++ line.ending

theorem mark_cons {text ending : Text} (h : IsLine text ending) (region : Region)
    (ps : List Text) : Line.mark region ((text ++ ending) :: ps) =
      ⟨text, ending, (region.step text).1⟩ :: Line.mark (region.step text).2 ps := by
  simp only [Line.mark, h.lineText_append, List.drop_left]

theorem step_of_unseen {f : Line → Text} (hf : Unseen f) (region : Region) (text ending : Text) :
    region.step (f ⟨text, ending, (region.step text).1⟩) = region.step text := by
  rcases hc : (region.step text).1 with _ | _
  · exact step_eq_of_sameStart (hf.sameStart ⟨text, ending, false⟩) hc
  · rw [hf.code _ rfl]

theorem changed_mark_cons {text ending : Text} (h : IsLine text ending) (f : Line → Text)
    (region : Region) (ps : List Text) :
    changed f (Line.mark region ((text ++ ending) :: ps)) =
      (f ⟨text, ending, (region.step text).1⟩ ++ ending) ::
        changed f (Line.mark (region.step text).2 ps) := by
  rw [mark_cons h]
  rfl

/-- When a text is put together again after a change of its lines that the scanner does not see,
its lines are the changed ones, marked as they were. -/
theorem mark_changed {f : Line → Text} (hf : Unseen f) {ps : List Text} (h : ArePieces ps) :
    ∀ region : Region, ArePieces (changed f (Line.mark region ps)) ∧
      Line.mark region (changed f (Line.mark region ps)) =
        (Line.mark region ps).map fun line => line.withText (f line) := by
  induction h with
  | nil => exact fun _ => ⟨.nil, rfl⟩
  | last hn ht =>
    intro region
    obtain ⟨text, rs, rfl, hline, -⟩ := exists_isLine hn
    have hline' := hf.isLine ⟨text, rs, (region.step text).1⟩ hline
    have hrs : '\n' ∉ rs := fun h => hn (List.mem_append_right _ h)
    rw [changed_mark_cons hline, mark_cons hline', step_of_unseen hf, mark_cons hline]
    refine ⟨.last ?_ ?_, rfl⟩
    · exact fun h => (List.mem_append.1 h).elim hline'.no_newline hrs
    · intro h
      obtain ⟨hf0, rfl⟩ := List.append_eq_nil_iff.1 h
      exact (hf.sameStart ⟨text, [], (region.step text).1⟩).ne_nil (by simpa using ht) hf0
  | cons hn _ ih =>
    intro region
    obtain ⟨text, rs, rfl, -, hline⟩ := exists_isLine hn
    have hline' := hf.isLine ⟨text, rs ++ ['\n'], (region.step text).1⟩ hline
    have hrs : '\n' ∉ rs := fun h => hn (List.mem_append_right _ h)
    obtain ⟨hp, hm⟩ := ih (region.step text).2
    rw [List.append_assoc, changed_mark_cons hline, mark_cons hline', step_of_unseen hf, hm,
      mark_cons hline]
    refine ⟨?_, rfl⟩
    rw [← List.append_assoc]
    refine .cons (fun h => ?_) hp
    exact (List.mem_append.1 h).elim hline'.no_newline hrs

theorem ofSource_changed {f : Line → Text} (hf : Unseen f) (source : Text) :
    Line.ofSource (changed f (Line.ofSource source)).flatten =
      (Line.ofSource source).map fun line => line.withText (f line) := by
  obtain ⟨hp, hm⟩ := mark_changed hf (arePieces_pieces source) {}
  rw [Line.ofSource, Line.ofSource, pieces_flatten hp, hm]

end Marking

end Reflink

end TidyMark
