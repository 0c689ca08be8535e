import TidyMark.Text.Basic

/-!
# White space

Two classes: `isBlank`, every character with the property White_Space, which trimming and words go
by, and `isSpace`, the ASCII ones of it, which the grammar of Markdown goes by.
-/

namespace TidyMark

/-- Whether a character has the property White_Space. -/
def isBlank (c : Char) : Bool :=
  let n := c.toNat
  c == ' ' || (9 ≤ n && n ≤ 13) || n == 0x85 || n == 0xA0 || n == 0x1680 ||
    (0x2000 ≤ n && n ≤ 0x200A) || n == 0x2028 || n == 0x2029 || n == 0x202F || n == 0x205F ||
    n == 0x3000

/-- Whether a character is a space, tab, line feed, vertical tab, form feed or carriage return. -/
def isSpace (c : Char) : Bool :=
  c == ' ' || (9 ≤ c.toNat && c.toNat ≤ 13)

/-- Whether a character is a space or a tab. -/
def isIndent (c : Char) : Bool :=
  c == ' ' || c == '\t'

namespace Text

/-- Whether nothing of the text would be seen. -/
def allBlank (t : Text) : Bool :=
  t.all isBlank

def trimStart (t : Text) : Text :=
  t.dropWhile isBlank

def trimEnd (t : Text) : Text :=
  t.dropEndWhile isBlank

def trim (t : Text) : Text :=
  trimEnd (trimStart t)

/-- Takes ASCII white space off the end. -/
def trimSpaceEnd (t : Text) : Text :=
  t.dropEndWhile isSpace

/-- Takes ASCII white space off both ends. -/
def trimSpace (t : Text) : Text :=
  trimSpaceEnd (t.dropWhile isSpace)

/-- Adds a character to the first word of a list of words, where a word is still open. -/
private def wordsAux : Text → List Text × Bool
  | [] => ([], false)
  | c :: rest =>
    let (ws, isOpen) := wordsAux rest
    if isBlank c then (ws, false)
    else
      match isOpen, ws with
      | true, w :: ws => ((c :: w) :: ws, true)
      | _, ws => ([c] :: ws, true)

/-- The longest stretches without white space, in order. -/
def words (t : Text) : List Text :=
  (wordsAux t).1

theorem allBlank_append (s t : Text) : allBlank (s ++ t) = (allBlank s && allBlank t) :=
  List.all_append

theorem isBlank_of_mem_words {t w : Text} (h : w ∈ words t) : ∀ c ∈ w, isBlank c = false := by
  unfold words at h
  induction t generalizing w with
  | nil => cases h
  | cons c t ih =>
    rw [wordsAux] at h
    generalize wordsAux t = aux at h ih
    obtain ⟨ws, isOpen⟩ := aux
    dsimp only at h ih
    split at h
    · exact ih h
    · next hc =>
      have hc : isBlank c = false := by simpa using hc
      split at h
      · next v ws =>
        rcases List.mem_cons.1 h with rfl | h
        · exact List.forall_mem_cons.2 ⟨hc, ih List.mem_cons_self⟩
        · exact ih (List.mem_cons_of_mem _ h)
      · rcases List.mem_cons.1 h with rfl | h
        · exact List.forall_mem_cons.2 ⟨hc, by simp⟩
        · exact ih h

theorem words_of_not_isBlank {t : Text} (h : ∀ c ∈ t, isBlank c = false) (hne : t ≠ []) :
    words t = [t] := by
  have haux : ∀ {c : Char} {t : Text}, (∀ d ∈ c :: t, isBlank d = false) →
      wordsAux (c :: t) = ([c :: t], true) := by
    intro c t h
    induction t generalizing c with
    | nil => simp [wordsAux, h c]
    | cons d t ih =>
      obtain ⟨hc, ht⟩ := List.forall_mem_cons.1 h
      rw [wordsAux, ih ht, hc]
      rfl
  obtain ⟨c, t, rfl⟩ := List.exists_cons_of_ne_nil hne
  rw [words, haux h]

end Text

end TidyMark
