/-!
# Text

A text is the list of its characters. A string literal stands for its characters wherever a text
is expected. Lengths that the rendered output depends on are counted in the bytes of UTF-8
(`byteLength`), everything else in characters.
-/

namespace TidyMark

/-- A text, as the list of its characters. -/
abbrev Text := List Char

instance : Coe String Text := ⟨String.toList⟩

namespace Text

/-- The number of bytes that the text takes in UTF-8. -/
def byteLength : Text → Nat
  | [] => 0
  | c :: rest => c.utf8Size + byteLength rest

/-- Splits after `n` bytes; `none` if that is past the end or inside a character. -/
def splitAtByte? : Nat → Text → Option (Text × Text)
  | 0, t => some ([], t)
  | _ + 1, [] => none
  | n + 1, c :: rest =>
    if c.utf8Size ≤ n + 1 then
      (splitAtByte? (n + 1 - c.utf8Size) rest).map fun (before, after) => (c :: before, after)
    else none

/-- What stands between the bytes `start` and `stop`; `none` where one of the two is past the end,
inside a character or the other way round. -/
def slice? (start stop : Nat) (t : Text) : Option Text :=
  if start ≤ stop then
    (splitAtByte? start t).bind fun (_, rest) => (splitAtByte? (stop - start) rest).map (·.1)
  else none

/-- Splits off a fixed beginning. -/
def strip? : Text → Text → Option Text
  | [], t => some t
  | _ :: _, [] => none
  | p :: ps, c :: rest => if p == c then strip? ps rest else none

def startsWith (p t : Text) : Bool :=
  (strip? p t).isSome

def includes (p : Text) : Text → Bool
  | [] => p.isEmpty
  | c :: rest => startsWith p (c :: rest) || includes p rest

def replaceChar (c : Char) (by_ : Text) (t : Text) : Text :=
  t.flatMap fun d => if d == c then by_ else [d]

/-- Takes characters off the end while they satisfy `p`. -/
def dropEndWhile (p : Char → Bool) (t : Text) : Text :=
  (t.reverse.dropWhile p).reverse

def join (sep : Text) : List Text → Text
  | [] => []
  | [t] => t
  | t :: u :: rest => t ++ sep ++ join sep (u :: rest)

/-- The decimal digits of a number. -/
def ofNat (n : Nat) : Text :=
  Nat.toDigits 10 n

theorem replaceChar_self (c : Char) (by_ t : Text) :
    replaceChar c by_ (c :: t) = by_ ++ replaceChar c by_ t := by
  simp [replaceChar]

theorem replaceChar_of_ne {c d : Char} (h : d ≠ c) (by_ t : Text) :
    replaceChar c by_ (d :: t) = d :: replaceChar c by_ t := by
  simp [replaceChar, h]

theorem byteLength_append (s t : Text) : byteLength (s ++ t) = byteLength s + byteLength t := by
  induction s with
  | nil => simp [byteLength]
  | cons c s ih => simp [byteLength, ih, Nat.add_assoc]

theorem bne_of_not_mem {c : Char} {s : Text} (h : c ∉ s) : ∀ d ∈ s, (d != c) = true :=
  fun _ hd => bne_iff_ne.2 fun he => h (he ▸ hd)

theorem takeWhile_ne_append {c : Char} {s : Text} (h : c ∉ s) (t : Text) :
    (s ++ c :: t).takeWhile (· != c) = s := by
  rw [List.takeWhile_append_of_pos (bne_of_not_mem h), List.takeWhile_cons_of_neg (by simp),
    List.append_nil]

theorem dropWhile_ne_append {c : Char} {s : Text} (h : c ∉ s) (t : Text) :
    (s ++ c :: t).dropWhile (· != c) = c :: t := by
  rw [List.dropWhile_append_of_pos (bne_of_not_mem h), List.dropWhile_cons_of_neg (by simp)]

/-- What is left behind the characters before a certain one begins with it. -/
theorem eq_of_dropWhile_ne {c d : Char} : ∀ {t rest : Text}, t.dropWhile (· != c) = d :: rest →
    t = t.takeWhile (· != c) ++ c :: rest ∧ c ∉ t.takeWhile (· != c)
  | e :: t, rest, h => by
    rw [List.dropWhile_cons] at h
    rw [List.takeWhile_cons]
    by_cases he : e = c
    · subst he
      obtain ⟨-, rfl⟩ : e = d ∧ t = rest := by simpa using h
      simp
    · have hne : (e != c) = true := bne_iff_ne.2 he
      rw [if_pos hne] at h ⊢
      obtain ⟨heq, hnot⟩ := eq_of_dropWhile_ne h
      refine ⟨congrArg (e :: ·) heq, ?_⟩
      rw [List.mem_cons, not_or]
      exact ⟨Ne.symm he, hnot⟩

/-- A split loses nothing. -/
theorem append_of_splitAtByte? :
    ∀ {n : Nat} {t before after : Text}, splitAtByte? n t = some (before, after) →
      before ++ after = t
  | 0, t, before, after, h => by
    simp only [splitAtByte?, Option.some.injEq, Prod.mk.injEq] at h
    obtain ⟨rfl, rfl⟩ := h
    rfl
  | n + 1, [], before, after, h => by simp [splitAtByte?] at h
  | n + 1, c :: rest, before, after, h => by
    simp only [splitAtByte?] at h
    split at h
    · obtain ⟨⟨b, a⟩, hb, hr⟩ := Option.map_eq_some_iff.1 h
      simp only [Prod.mk.injEq] at hr
      obtain ⟨rfl, rfl⟩ := hr
      simp [append_of_splitAtByte? hb]
    · simp at h

end Text

end TidyMark
