import TidyMark.Proofs.Canvas

/-!
# Cut characters

A place inside a character (`IsCut`) is none where a text can be split, and it remains one whatever
is added to the text (`IsCut.append`). Every second place in a row of characters of two bytes is
such a place (`isCut_row`). When a quote or an item closes, what stands in it is shifted: a quote
loses the line feeds that it begins with (`quote_replicate`), and an item gains its width on each
line (`exists_indented`).
-/

namespace TidyMark

open Text

namespace Text

def IsCut (t : Text) (n : Nat) : Prop :=
  ∃ before c after, t = before ++ c :: after ∧ byteLength before < n ∧
    n < byteLength before + c.utf8Size

theorem IsCut.append {t : Text} {n : Nat} (h : t.IsCut n) (u : Text) : IsCut (t ++ u) n := by
  obtain ⟨before, c, after, rfl, h1, h2⟩ := h
  exact ⟨before, c, after ++ u, by simp, h1, h2⟩

theorem IsCut.not_isBoundary {t : Text} {n : Nat} (h : t.IsCut n) : ¬ t.IsBoundary n := by
  obtain ⟨before, c, after, rfl, h1, h2⟩ := h
  rintro ⟨s, u, hs, rfl⟩
  rcases List.append_eq_append_iff.1 hs with ⟨_ | ⟨d, mid⟩, rfl, hm⟩ | ⟨mid, rfl, -⟩
  · simp at h1
  · simp only [List.cons_append, List.cons.injEq] at hm
    rw [byteLength_append, byteLength_cons, ← hm.1] at h2
    omega
  · rw [byteLength_append] at h1
    omega

theorem IsCut.le {t : Text} {n : Nat} (h : t.IsCut n) : n ≤ byteLength t := by
  obtain ⟨before, c, after, rfl, h1, h2⟩ := h
  rw [byteLength_append, byteLength_cons]
  omega

def row (n : Nat) : Text :=
  List.replicate n 'é'

theorem byteLength_row (n : Nat) : byteLength (row n) = 2 * n := by
  induction n with
  | zero => rfl
  | succ n ih =>
    have hc : 'é'.utf8Size = 2 := by decide
    rw [row, List.replicate_succ, byteLength_cons, hc]
    rw [row] at ih
    omega

theorem isCut_row (s u : Text) {i n : Nat} (h : i < n) :
    IsCut (s ++ row n ++ u) (byteLength s + 2 * i + 1) := by
  refine ⟨s ++ row i, 'é', row (n - i - 1) ++ u, ?_, ?_, ?_⟩
  · have hrow : row n = row i ++ 'é' :: row (n - i - 1) := by
      rw [row, row, row, ← List.replicate_succ, List.replicate_append_replicate]
      congr 1
      omega
    simp [hrow]
  · rw [byteLength_append, byteLength_row]
    omega
  · have hc : 'é'.utf8Size = 2 := by decide
    rw [byteLength_append, byteLength_row, hc]
    omega

theorem byteLength_replicate {c : Char} (hc : c.utf8Size = 1) (n : Nat) :
    byteLength (List.replicate n c) = n := by
  induction n with
  | zero => rfl
  | succ n ih =>
    rw [List.replicate_succ, byteLength_cons, hc, ih]
    omega

theorem newline_not_mem_row (n e : Nat) : '\n' ∉ row n ++ List.replicate e 'a' := by
  simp [row]

theorem allBlank_row {n : Nat} (e : Nat) (hn : 0 < n) :
    allBlank (row n ++ List.replicate e 'a') = false := by
  obtain ⟨m, rfl⟩ : ∃ m, n = m + 1 := ⟨n - 1, by omega⟩
  have hc : isBlank 'é' = false := by decide
  simp [allBlank, row, List.replicate_succ, hc]

end Text

namespace Render

section Quote

theorem trimEnd_cons (c : Char) (t : Text) :
    Text.trimEnd (c :: t) =
      if Text.trimEnd t = [] ∧ isBlank c = true then [] else c :: Text.trimEnd t := by
  simp only [Text.trimEnd, Text.dropEndWhile, List.reverse_cons, List.dropWhile_append,
    List.reverse_eq_nil_iff, List.isEmpty_iff]
  by_cases h : t.reverse.dropWhile isBlank = [] <;> by_cases hc : isBlank c = true <;> simp [h, hc]

theorem quote_newline_cons (t : Text) : quote ('\n' :: t) = quote t := by
  unfold quote
  rw [trimEnd_cons]
  split_ifs with h
  · rw [h.1]
  · simp

/-- The line feeds that a quote begins with are not written. -/
theorem quote_replicate (n : Nat) (t : Text) : quote (List.replicate n '\n' ++ t) = quote t := by
  induction n with
  | zero => rfl
  | succ n ih => rw [List.replicate_succ, List.cons_append, quote_newline_cons, ih]

end Quote

section Item

def continuations (width : Nat) (t : Text) : Text :=
  (Text.splitLines t).flatMap (indentContinuations.indentLine width)

/-- Short lines. -/
def stairs (n : Nat) : Text :=
  (List.replicate n ['b', '\n']).flatten

theorem byteLength_stairs (n : Nat) : byteLength (stairs n) = 2 * n := by
  induction n with
  | zero => rfl
  | succ n ih =>
    have hb : 'b'.utf8Size = 1 := by decide
    have hn : '\n'.utf8Size = 1 := by decide
    rw [stairs, List.replicate_succ, List.flatten_cons, byteLength_append, byteLength_cons,
      byteLength_cons, byteLength_nil, hb, hn]
    rw [stairs] at ih
    omega

theorem splitLines_cons_newline (c : Char) (hc : c ≠ '\n') (t : Text) :
    Text.splitLines (c :: '\n' :: t) = [c] :: Text.splitLines t := by
  simp [Text.splitLines, Text.split, hc]

theorem continuations_append {l : Text} (hl : '\n' ∉ l) (hb : Text.allBlank l = false)
    (width : Nat) (t : Text) : ∃ rest, continuations width (l ++ t) =
      '\n' :: (List.replicate width ' ' ++ l) ++ rest := by
  obtain ⟨first, rest, -, h⟩ := splitLines_append hl t
  have hall : Text.allBlank (l ++ first) = false := by
    simp only [Text.allBlank, List.all_append] at hb ⊢
    simp [hb]
  refine ⟨first ++ rest.flatMap (indentContinuations.indentLine width), ?_⟩
  simp [continuations, h, indentContinuations.indentLine, hall]

theorem continuations_stairs {l : Text} (hl : '\n' ∉ l) (hb : Text.allBlank l = false)
    (width : Nat) (t : Text) : ∀ n, ∃ before rest,
      continuations width (stairs n ++ (l ++ t)) = before ++ l ++ rest ∧
        byteLength before = (n + 1) * width + 2 * n + 1
  | 0 => by
    have hn : '\n'.utf8Size = 1 := by decide
    obtain ⟨rest, h⟩ := continuations_append hl hb width t
    refine ⟨'\n' :: List.replicate width ' ', rest, by simpa [stairs] using h, ?_⟩
    rw [byteLength_cons, hn, byteLength_replicate (by decide)]
    omega
  | n + 1 => by
    have hn : '\n'.utf8Size = 1 := by decide
    have hc : 'b'.utf8Size = 1 := by decide
    have hblank : Text.allBlank ['b'] = false := by decide
    obtain ⟨before, rest, h, hlen⟩ := continuations_stairs hl hb width t n
    refine ⟨'\n' :: (List.replicate width ' ' ++ ['b']) ++ before, rest, ?_, ?_⟩
    · have hs : stairs (n + 1) ++ (l ++ t) = 'b' :: '\n' :: (stairs n ++ (l ++ t)) := rfl
      rw [continuations] at h
      rw [hs, continuations, splitLines_cons_newline 'b' (by decide), List.flatMap_cons, h]
      simp [indentContinuations.indentLine, hblank]
    · simp only [List.cons_append, byteLength_cons, byteLength_append, byteLength_nil, hn, hc,
        byteLength_replicate (c := ' ') (by decide), hlen, Nat.add_mul]
      omega

/-- What stands behind lines in an item moves on by its width for each of them. -/
theorem exists_indented {l : Text} (hl : '\n' ∉ l) (hb : Text.allBlank l = false) (width n : Nat)
    (t : Text) : ∃ before rest,
      indentContinuations width (stairs (n + 1) ++ (l ++ t)) = before ++ l ++ rest ∧
        byteLength before = (n + 1) * width + 2 * (n + 1) := by
  obtain ⟨before, rest, h, hlen⟩ := continuations_stairs hl hb width t n
  have hs : stairs (n + 1) ++ (l ++ t) = 'b' :: '\n' :: (stairs n ++ (l ++ t)) := rfl
  have hc : 'b'.utf8Size = 1 := by decide
  refine ⟨'b' :: before, rest, ?_, ?_⟩
  · rw [continuations] at h
    simp only [indentContinuations, hs, splitLines_cons_newline 'b' (by decide), h]
    simp
  · rw [byteLength_cons, hc, hlen]
    omega

end Item

end Render

end TidyMark
