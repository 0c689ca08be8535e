import TidyMark.Proofs.Paragraph
import TidyMark.Proofs.Unlinked
import TidyMark.Render.Address

/-!
# Destinations that are read as they are written

A link is written with its address as it is and with its title in quotes, the quotes in the title
behind backslashes. Here is what the reader of links makes of that. What it reads means no more
characters than it has (`length_plainText_le`), so that nothing shorter than the address means the
address, and nothing inside the quotes means the title (`length_plainText_escapedQuotes_le`). What
is left is that both are read to their end and mean themselves (`IsWritable`), and then they are
read back (`inlineTarget?_destination_iff`).
-/

namespace TidyMark.Markdown

open Render

section Shrinking

variable {s t rest : Text} {c : Char} {n : Nat}

theorem mem_of_lookup {α β : Type} [BEq α] [LawfulBEq α] {l : List (α × β)} {a : α} {b : β}
    (h : l.lookup a = some b) : (a, b) ∈ l := by
  obtain ⟨l₁, l₂, rfl, -⟩ := List.lookup_eq_some_iff.1 h
  simp

theorem length_of_mem_entities {name : Text} (h : (name, s) ∈ entities) : s.length ≤ 2 := by
  obtain ⟨line, -, hline⟩ := List.mem_filterMap.1 h
  split at hline
  · cases hline
    exact Nat.le_succ 1
  · cases hline
    exact Nat.le_refl 2
  · cases hline

theorem length_numeric? {digit : Char → Bool} {value : Text → Nat}
    (h : numeric? digit value t = some (s, n)) : s.length = 1 ∧ 1 < n := by
  unfold numeric? at h
  dsimp only at h
  split_ifs at h with hd
  cases h
  simp only [Bool.and_eq_true, decide_eq_true_eq] at hd
  exact ⟨rfl, by omega⟩

/-- A character reference stands for one or two characters, which are fewer than it has itself. -/
theorem length_entity? (h : entity? t = some (s, n)) : s.length ≤ 2 ∧ s.length < n := by
  have hnumeric : ∀ {digit : Char → Bool} {value : Text → Nat} {rest : Text} (k : Nat),
      ((numeric? digit value rest).map fun p => (p.1, p.2 + k)) = some (s, n) →
        s.length ≤ 2 ∧ s.length < n := by
    intro digit value rest k hmap
    obtain ⟨⟨s', m⟩, hm, heq⟩ := Option.map_eq_some_iff.1 hmap
    cases heq
    have hlength := length_numeric? hm
    dsimp only
    omega
  unfold entity? at h
  split at h
  · split at h
    · exact hnumeric 2 h
    · exact hnumeric 2 h
    · exact hnumeric 1 h
  · dsimp only at h
    split_ifs at h with hname
    obtain ⟨s', hs, heq⟩ := Option.map_eq_some_iff.1 h
    obtain ⟨rfl, rfl⟩ := Prod.mk.inj heq
    simp only [Bool.and_eq_true, decide_eq_true_eq] at hname
    have hlength : s'.length ≤ 2 := length_of_mem_entities (mem_of_lookup hs)
    omega

theorem decodeEntities_skip : ∀ (n : Nat) (t : Text),
    decodeEntities n t = decodeEntities 0 (t.drop n)
  | 0, t => rfl
  | n + 1, [] => rfl
  | n + 1, c :: t => by
    rw [decodeEntities, decodeEntities_skip n t]
    rfl

/-- Decoding goes past a character or takes a whole reference. -/
theorem decodeEntities_cons (c : Char) (t : Text) :
    decodeEntities 0 (c :: t) = c :: decodeEntities 0 t ∨
      ∃ s u v, c = '&' ∧ t = u ++ ';' :: v ∧ s.length ≤ 2 ∧ s.length ≤ u.length ∧
        decodeEntities 0 (c :: t) = s ++ decodeEntities 0 v := by
  rw [decodeEntities]
  split_ifs with hc
  · split
    · next s n hs =>
      obtain ⟨u, v, rfl, rfl⟩ := semicolon_of_entity? hs
      obtain ⟨htwo, hlength⟩ := length_entity? hs
      refine .inr ⟨s, u, v, beq_iff_eq.1 hc, rfl, htwo, by omega, ?_⟩
      rw [decodeEntities_skip]
      simp
    · exact .inl rfl
  · exact .inl rfl

theorem decodeEntities_eq_or_lt (t : Text) :
    decodeEntities 0 t = t ∨ (decodeEntities 0 t).length < t.length := by
  induction hn : t.length using Nat.strongRecOn generalizing t with
  | _ n ih =>
    rcases t with _ | ⟨c, t⟩
    · exact .inl rfl
    subst hn
    rcases decodeEntities_cons c t with hcons | ⟨s, u, v, -, rfl, -, hlength, hcons⟩
    · rw [hcons]
      refine (ih t.length (by simp) t rfl).imp (congrArg (c :: ·)) fun hlt => ?_
      simpa using hlt
    · have hv : (decodeEntities 0 v).length ≤ v.length :=
        (ih v.length (by simp; omega) v rfl).elim (fun he => (congrArg List.length he).le)
          Nat.le_of_lt
      refine .inr ?_
      rw [hcons]
      simp only [List.length_append, List.length_cons]
      omega

theorem unescape_escape (hc : isAsciiPunctuation c = true) (t : Text) :
    unescape ('\\' :: c :: t) = c :: unescape t := by
  rw [unescape, if_pos hc]

theorem unescape_cons (h : escapesNext c t = false) : unescape (c :: t) = c :: unescape t := by
  rcases t with _ | ⟨d, t⟩
  · rw [unescape]
    simp
  · by_cases hc : c = '\\'
    · subst hc
      have hd : isAsciiPunctuation d = false := by simpa [escapesNext] using h
      rw [unescape, if_neg (by simp [hd])]
    · rw [unescape]
      simpa using hc

theorem exists_of_escapesNext (h : escapesNext c t = true) :
    ∃ d rest, c = '\\' ∧ t = d :: rest ∧ isAsciiPunctuation d = true := by
  rcases t with _ | ⟨d, t⟩
  · simp [escapesNext] at h
  · simp only [escapesNext, Bool.and_eq_true, beq_iff_eq] at h
    exact ⟨d, t, h.1, rfl, h.2⟩

/-- One character more is at most one character more when escapes are undone, and never less. -/
theorem length_unescape_cons (c : Char) (t : Text) :
    (unescape t).length ≤ (unescape (c :: t)).length ∧
      (unescape (c :: t)).length ≤ (unescape t).length + 1 := by
  induction t generalizing c with
  | nil => simp [unescape_cons (c := c) (t := []) (by simp [escapesNext]), unescape]
  | cons d t ih =>
    by_cases h : escapesNext c (d :: t) = true
    · obtain ⟨_, _, rfl, he, hd⟩ := exists_of_escapesNext h
      obtain ⟨rfl, rfl⟩ := List.cons.inj he
      have hlength := ih d
      rw [unescape_escape hd, List.length_cons]
      omega
    · rw [unescape_cons (Bool.eq_false_iff.2 h), List.length_cons]
      omega

theorem length_unescape_append_le (s t : Text) :
    (unescape (s ++ t)).length ≤ s.length + (unescape t).length := by
  induction s with
  | nil => simp
  | cons c s ih =>
    have hlength := length_unescape_cons c (s ++ t)
    rw [List.cons_append, List.length_cons]
    omega

theorem length_unescape_le (t : Text) : (unescape t).length ≤ t.length := by
  have h := length_unescape_append_le t []
  rw [List.append_nil] at h
  exact h

theorem length_plainText_le (t : Text) : (plainText t).length ≤ t.length := by
  have hunescape := length_unescape_le (decodeEntities 0 t)
  rcases decodeEntities_eq_or_lt t with he | hlt
  · rw [he] at hunescape
    rwa [plainText, he]
  · exact hunescape.trans hlt.le

/-- A text that means itself has no escapes. -/
theorem unescape_of_plainText (h : plainText t = t) : unescape t = t := by
  rcases decodeEntities_eq_or_lt t with he | hlt
  · rwa [plainText, he] at h
  · have hlength := length_unescape_le (decodeEntities 0 t)
    rw [← plainText, h] at hlength
    omega

/-- A text without escapes does not begin with one. -/
theorem escapesNext_of_unescape (h : unescape (c :: t) = c :: t) :
    escapesNext c t = false ∧ unescape t = t := by
  by_cases he : escapesNext c t = true
  · obtain ⟨d, rest, rfl, rfl, hd⟩ := exists_of_escapesNext he
    rw [unescape_escape hd] at h
    have hlength := length_unescape_le rest
    have hlonger := congrArg List.length h
    simp only [List.length_cons] at hlonger
    omega
  · have hcons := unescape_cons (Bool.eq_false_iff.2 he)
    rw [h] at hcons
    exact ⟨Bool.eq_false_iff.2 he, (List.cons.inj hcons).2.symm⟩

end Shrinking

section Addresses

/-- Whether every parenthesis in an address has its partner, and never too many are open. -/
def isNested (depth : Nat) : Text → Bool
  | [] => depth == 0
  | c :: rest =>
    if c == '(' then depth < maxParentheses && isNested (depth + 1) rest
    else if c == ')' then 0 < depth && isNested (depth - 1) rest
    else isNested depth rest

variable {u rest t : Text} {depth : Nat} {escaped : Bool} {d : Char}

theorem map_cons_eq_some_iff {c : Char} {x : Option (Text × Text)} :
    x.map (fun p => (c :: p.1, p.2)) = some (u, rest) ↔ ∃ v, x = some (v, rest) ∧ u = c :: v := by
  constructor
  · intro h
    obtain ⟨⟨v, rest'⟩, hx, heq⟩ := Option.map_eq_some_iff.1 h
    cases heq
    exact ⟨v, hx, rfl⟩
  · rintro ⟨v, rfl, rfl⟩
    rfl

theorem append_of_bareUrl? : ∀ {t : Text} {depth : Nat} {escaped : Bool} {u rest : Text},
    bareUrl? depth escaped t = some (u, rest) → t = u ++ rest ∧ rest ≠ []
  | [], _, _, _, _, h => by cases h
  | c :: t, depth, escaped, u, rest, h => by
    have hmore : ∀ depth', (bareUrl? depth' (!escaped && escapesNext c t) t).map
        (fun p => (c :: p.1, p.2)) = some (u, rest) → c :: t = u ++ rest ∧ rest ≠ [] := by
      intro depth' hmap
      obtain ⟨v, hv, rfl⟩ := map_cons_eq_some_iff.1 hmap
      obtain ⟨ht, hrest⟩ := append_of_bareUrl? hv
      exact ⟨congrArg (c :: ·) ht, hrest⟩
    rw [bareUrl?] at h
    dsimp only at h
    split_ifs at h
    · exact hmore _ h
    · exact hmore _ h
    · cases h
      exact ⟨rfl, List.cons_ne_nil _ _⟩
    · exact hmore _ h
    · cases h
      exact ⟨rfl, List.cons_ne_nil _ _⟩
    · exact hmore _ h

theorem append_of_bracketedUrl? {t u rest : Text} (h : bracketedUrl? t = some (u, rest)) :
    t = u ++ '>' :: rest := by
  fun_induction bracketedUrl? t generalizing u rest with
  | case1 | case2 => cases h
  | case3 t =>
    cases h
    rfl
  | case4 c t ih =>
    obtain ⟨⟨v, rest'⟩, hv, heq⟩ := Option.map_eq_some_iff.1 h
    cases heq
    rw [ih hv]
    rfl
  | case5 => cases h
  | case6 c t _ _ _ _ ih =>
    obtain ⟨v, hv, rfl⟩ := map_cons_eq_some_iff.1 h
    rw [ih hv]
    rfl

/-- An address is read as it is or, behind a less-than sign, without its brackets. -/
theorem append_of_url? (h : url? t = some (u, rest)) : rest ≠ [] ∧
    ((t.head? ≠ some '<' ∧ bareUrl? 0 false t = some (u, rest) ∧ t = u ++ rest) ∨
      t = '<' :: u ++ '>' :: rest) := by
  unfold url? at h
  split at h
  · split at h
    · next url c rest' hurl =>
      cases h
      exact ⟨nofun, .inr (congrArg ('<' :: ·) (append_of_bracketedUrl? hurl))⟩
    · cases h
  · next hangle =>
    obtain ⟨ht, hrest⟩ := append_of_bareUrl? h
    refine ⟨hrest, .inl ⟨fun hhead => ?_, h, ht⟩⟩
    obtain ⟨t', rfl⟩ := List.head?_eq_some_iff.1 hhead
    exact hangle t' rfl

/-- An address without escapes is read to its end, before a space or a closing parenthesis, if its
parentheses are nested, no other character ends it and no backslash escapes what is behind it. -/
theorem bareUrl?_append_iff (hu : unescape u = u) (hd : d = ')' ∨ d = ' ') (depth : Nat) :
    bareUrl? depth false (u ++ d :: rest) = some (u, d :: rest) ↔
      isNested depth u = true ∧ (∀ c ∈ u, endsUrl c = false) ∧
        (d = ')' → u.getLast? ≠ some '\\') := by
  induction u generalizing depth with
  | nil =>
    rw [List.nil_append, bareUrl?]
    rcases hd with rfl | rfl
    · by_cases hdepth : depth = 0 <;> simp [hdepth, isNested]
    · by_cases hdepth : depth = 0 <;> simp [hdepth, isNested, endsUrl, isSpace]
  | cons c u ih =>
    obtain ⟨hnext, hu⟩ := escapesNext_of_unescape hu
    -- The last character may be a backslash that escapes the parenthesis behind it.
    by_cases hlast : u = [] ∧ c = '\\' ∧ d = ')'
    · obtain ⟨rfl, rfl, rfl⟩ := hlast
      simp [bareUrl?, escapesNext, isAsciiPunctuation, endsUrl, isSpace]
    have hescapes : escapesNext c (u ++ d :: rest) = false := by
      rcases u with _ | ⟨e, u⟩
      · rcases hd with rfl | rfl
        · simpa [escapesNext] using fun hc : c = '\\' => absurd ⟨rfl, hc, rfl⟩ hlast
        · simp [escapesNext, isAsciiPunctuation]
      · exact hnext
    have hend : (d = ')' → (c :: u).getLast? ≠ some '\\') ↔ (d = ')' → u.getLast? ≠ some '\\') := by
      rcases u with _ | ⟨e, u⟩
      · simpa using fun hd hc => hlast ⟨rfl, hc, hd⟩
      · rw [List.getLast?_cons_cons]
    have hmore : ∀ depth', (bareUrl? depth' false (u ++ d :: rest)).map
        (fun p => (c :: p.1, p.2)) = some (c :: u, d :: rest) ↔
          isNested depth' u = true ∧ (∀ c ∈ u, endsUrl c = false) ∧
            (d = ')' → u.getLast? ≠ some '\\') := by
      intro depth'
      rw [← ih hu depth', map_cons_eq_some_iff]
      simp only [List.cons.injEq, true_and, exists_eq_right']
    rw [List.cons_append, bareUrl?, hescapes, hend, List.forall_mem_cons, isNested]
    simp only [Bool.not_false, Bool.and_false, Bool.false_eq_true, if_false, beq_iff_eq]
    split_ifs with hopen hdepth hclose hzero hends
    · subst hopen
      rw [hmore]
      simp [hdepth, endsUrl, isSpace]
    · simp [hdepth]
    · simp [hzero]
    · subst hclose
      rw [hmore]
      simp [Nat.pos_of_ne_zero hzero, endsUrl, isSpace]
    · simp [hends]
    · simp [hends]
    · rw [hmore]
      simp [Bool.eq_false_iff.2 hends]

end Addresses

section Titles

/-- A title as it is written between quotes. -/
def escapedQuotes (title : Text) : Text :=
  Text.replaceChar '"' "\\\"" title

variable {t u v rest title : Text} {c close barred : Char} {escaped : Bool}

theorem escapedQuotes_quote (t : Text) : escapedQuotes ('"' :: t) = '\\' :: '"' :: escapedQuotes t :=
  rfl

theorem escapedQuotes_cons (hc : c ≠ '"') (t : Text) :
    escapedQuotes (c :: t) = c :: escapedQuotes t :=
  Text.replaceChar_of_ne hc _ t

/-- What stands around a character of the written title stands around it in the title. -/
theorem exists_of_escapedQuotes (hquote : c ≠ '"') (hslash : c ≠ '\\') (hrest : c ∉ rest)
    (h : escapedQuotes t ++ rest = u ++ c :: v) :
    ∃ t₁ t₂, t = t₁ ++ c :: t₂ ∧ u = escapedQuotes t₁ ∧ v = escapedQuotes t₂ ++ rest := by
  induction t generalizing u with
  | nil =>
    have hmem : c ∈ u ++ c :: v := by simp
    rw [← h] at hmem
    exact absurd hmem hrest
  | cons d t ih =>
    by_cases hd : d = '"'
    · subst hd
      rw [escapedQuotes_quote] at h
      rcases u with _ | ⟨e, _ | ⟨e', u⟩⟩
      · exact absurd (List.cons.inj h).1.symm hslash
      · exact absurd (List.cons.inj (List.cons.inj h).2).1.symm hquote
      · simp only [List.cons_append, List.cons.injEq] at h
        obtain ⟨rfl, rfl, h⟩ := h
        obtain ⟨t₁, t₂, rfl, rfl, hv⟩ := ih h
        exact ⟨'"' :: t₁, t₂, rfl, rfl, hv⟩
    · rw [escapedQuotes_cons hd] at h
      rcases u with _ | ⟨e, u⟩
      · obtain ⟨rfl, rfl⟩ := List.cons.inj h
        exact ⟨[], t, rfl, rfl, rfl⟩
      · simp only [List.cons_append, List.cons.injEq] at h
        obtain ⟨rfl, h⟩ := h
        obtain ⟨t₁, t₂, rfl, rfl, hv⟩ := ih h
        exact ⟨d :: t₁, t₂, rfl, (escapedQuotes_cons hd t₁).symm, hv⟩

/-- The backslashes that are put in do not make up for anything that is left out. -/
theorem length_plainText_escapedQuotes_le (t : Text) :
    (plainText (escapedQuotes t)).length ≤ t.length := by
  induction hn : t.length using Nat.strongRecOn generalizing t with
  | _ n ih =>
    subst hn
    rcases t with _ | ⟨c, t⟩
    · exact Nat.le_refl 0
    have ht := ih t.length (by simp) t rfl
    by_cases hc : c = '"'
    · subst hc
      have hdecode : ∀ u, decodeEntities 0 ('\\' :: '"' :: u) = '\\' :: '"' :: decodeEntities 0 u :=
        fun u => rfl
      rw [escapedQuotes_quote, plainText, hdecode, unescape_escape (by decide)]
      exact Nat.succ_le_succ ht
    · rw [escapedQuotes_cons hc, plainText]
      rcases decodeEntities_cons c (escapedQuotes t) with he | ⟨s, u, v, -, ht', htwo, -, he⟩
      · have hlength := (length_unescape_cons c (decodeEntities 0 (escapedQuotes t))).2
        rw [he]
        exact hlength.trans (Nat.succ_le_succ ht)
      · -- A reference takes its ampersand and its semicolon off the title.
        obtain ⟨t₁, t₂, rfl, -, rfl⟩ := exists_of_escapedQuotes (by decide) (by decide)
          (List.not_mem_nil : ';' ∉ ([] : Text)) ((List.append_nil _).trans ht')
        have hlength := length_unescape_append_le s (decodeEntities 0 (escapedQuotes t₂ ++ []))
        have ht₂ := ih t₂.length (by simp; omega) t₂ rfl
        rw [List.append_nil, ← plainText] at hlength
        rw [he, List.append_nil]
        simp only [List.length_cons, List.length_append]
        omega

theorem append_of_titleRest? : ∀ {t : Text} {escaped : Bool} {u rest : Text},
    titleRest? close barred escaped t = some (u, rest) → t = u ++ close :: rest
  | [], _, _, _, h => by cases h
  | c :: t, escaped, u, rest, h => by
    have hmore : (titleRest? close barred (c == '\\') t).map (fun p => (c :: p.1, p.2)) =
        some (u, rest) → c :: t = u ++ close :: rest := by
      intro hmap
      obtain ⟨v, hv, rfl⟩ := map_cons_eq_some_iff.1 hmap
      rw [append_of_titleRest? hv]
      rfl
    rw [titleRest?] at h
    dsimp only at h
    split_ifs at h with hc
    · rcases Option.or_eq_some_iff.1 h with h | ⟨-, h⟩
      · exact hmore h
      · cases h
        rw [beq_iff_eq.1 hc]
        rfl
    · cases h
      rw [beq_iff_eq.1 hc]
      rfl
    · exact hmore h

theorem titleRest?_of_not_mem : ∀ {t : Text} (escaped : Bool), close ∉ t →
    titleRest? close barred escaped t = none
  | [], _, _ => rfl
  | c :: t, escaped, h => by
    simp only [List.mem_cons, not_or] at h
    rw [titleRest?]
    simp [Ne.symm h.1, titleRest?_of_not_mem _ h.2]

/-- The quotes in a title are all behind backslashes, so it ends at the last one. -/
theorem titleRest?_escapedQuotes (hrest : '"' ∉ rest) : ∀ (title : Text) (escaped : Bool),
    titleRest? '"' '"' escaped (escapedQuotes title ++ '"' :: rest) =
      some (escapedQuotes title, rest)
  | [], escaped => by
    have hend : escapedQuotes [] = [] := rfl
    rw [hend, List.nil_append, titleRest?]
    simp [titleRest?_of_not_mem _ hrest]
  | c :: title, escaped => by
    by_cases hc : c = '"'
    · subst hc
      rw [escapedQuotes_quote, List.cons_append, List.cons_append, titleRest?, titleRest?]
      simp [titleRest?_escapedQuotes hrest title]
    · rw [escapedQuotes_cons hc, List.cons_append, titleRest?]
      simp [hc, titleRest?_escapedQuotes hrest title]

/-- What stands behind white space that is taken off. -/
theorem exists_of_length_dropWhile {p : Char → Bool} (h : (t.dropWhile p).length < t.length) :
    ∃ s c, p c = true ∧ t = s ++ c :: t.dropWhile p := by
  rcases List.eq_nil_or_concat (t.takeWhile p) with hnil | ⟨s, c, hs⟩
  · have ht := List.takeWhile_append_dropWhile (p := p) (l := t)
    rw [hnil, List.nil_append] at ht
    rw [ht] at h
    exact absurd h (lt_irrefl _)
  · have hc : c ∈ t.takeWhile p := by simp [hs]
    refine ⟨s, c, List.mem_takeWhile_imp hc, ?_⟩
    calc t
      _ = t.takeWhile p ++ t.dropWhile p := List.takeWhile_append_dropWhile.symm
      _ = s ++ c :: t.dropWhile p := by simp [hs]

/-- A title in other marks than quotes ends before the last parenthesis. -/
theorem length_plainText_of_titleRest? (hquote : close ≠ '"') (hslash : close ≠ '\\')
    (h : titleRest? close barred false (escapedQuotes t ++ ['"', ')']) = some (u, rest))
    (hrest : rest ≠ []) : (plainText u).length < t.length := by
  have happend := append_of_titleRest? h
  obtain ⟨rest', e, rfl⟩ := (List.eq_nil_or_concat rest).resolve_left hrest
  have hlast : escapedQuotes t ++ ['"'] = u ++ close :: rest' := by
    have hconcat : (escapedQuotes t ++ ['"']) ++ [')'] = (u ++ close :: rest') ++ [e] := by
      simpa using happend
    exact List.append_inj_left' hconcat rfl
  obtain ⟨t₁, t₂, rfl, rfl, -⟩ := exists_of_escapedQuotes hquote hslash (by simpa using hquote)
    hlast
  have hlength := length_plainText_escapedQuotes_le t₁
  simp only [List.length_append, List.length_cons]
  omega

/-- A title that is read behind white space between the quotes of a written one means less than
the whole. -/
theorem length_plainText_of_title? {a : Text}
    (ha : '"' :: (escapedQuotes title ++ ['"', ')']) = a ++ t)
    (hspaced : (t.dropWhile isSpace).length < t.length)
    (h : title? (t.dropWhile isSpace) = some (u, rest)) (hrest : rest ≠ []) :
    (plainText u).length < title.length := by
  obtain ⟨s, c, hc, ht⟩ := exists_of_length_dropWhile hspaced
  generalize t.dropWhile isSpace = spaced at h ht
  subst ht
  have hsplit : ∃ a', escapedQuotes title ++ ['"', ')'] = a' ++ c :: spaced := by
    rw [← List.append_assoc] at ha
    rcases hs : a ++ s with _ | ⟨d, a'⟩
    · rw [hs] at ha
      rw [← (List.cons.inj ha).1] at hc
      cases hc
    · rw [hs] at ha
      exact ⟨a', (List.cons.inj ha).2⟩
  obtain ⟨a', ha'⟩ := hsplit
  have hne : ∀ d, isSpace d = false → c ≠ d := by
    rintro d hd rfl
    rw [hd] at hc
    cases hc
  obtain ⟨t₁, t₂, rfl, -, rfl⟩ := exists_of_escapedQuotes (hne _ (by decide)) (hne _ (by decide))
    (by simpa using ⟨hne '"' (by decide), hne ')' (by decide)⟩) ha'
  have hinside : ∀ {q close barred : Char} {t₃ : Text}, close ≠ '"' → close ≠ '\\' →
      titleRest? close barred false (escapedQuotes t₃ ++ ['"', ')']) = some (u, rest) →
        t₂ = q :: t₃ → (plainText u).length < (t₁ ++ c :: t₂).length := by
    rintro q close barred t₃ hquote hslash hread rfl
    have hlength := length_plainText_of_titleRest? hquote hslash hread hrest
    simp only [List.length_append, List.length_cons]
    omega
  rcases t₂ with _ | ⟨d, t₃⟩
  · cases h
  · by_cases hd : d = '"'
    · subst hd
      cases h
    · rw [escapedQuotes_cons hd, List.cons_append] at h
      unfold title? at h
      split at h
      · next he => exact absurd (List.cons.inj he).1 hd
      · next he =>
        obtain ⟨-, rfl⟩ := List.cons.inj he
        exact hinside (by decide) (by decide) h rfl
      · next he =>
        obtain ⟨-, rfl⟩ := List.cons.inj he
        exact hinside (by decide) (by decide) h rfl
      · cases h

end Titles

section Destinations

/-- What makes a link lead to an address under a title when both are written as they are: each of
them means itself, and the address is read to its end. -/
structure IsWritable (href title : Text) : Prop where
  means_href : plainText href = href
  means_title : plainText (escapedQuotes title) = title
  nested : isNested 0 href = true
  no_end : ∀ c ∈ href, endsUrl c = false
  no_angle : href.head? ≠ some '<'
  no_backslash : title = [] → href.getLast? ≠ some '\\'
  no_lone_title : href = [] → title = []

instance (href title : Text) : Decidable (IsWritable href title) :=
  decidable_of_iff
    (plainText href = href ∧ plainText (escapedQuotes title) = title ∧ isNested 0 href = true ∧
      href.any endsUrl = false ∧ href.head? ≠ some '<' ∧
      (title = [] → href.getLast? ≠ some '\\') ∧ (href = [] → title = []))
    ⟨fun ⟨h1, h2, h3, h4, h5, h6, h7⟩ =>
        ⟨h1, h2, h3, fun c hc => Bool.not_eq_true _ ▸ List.any_eq_false.1 h4 c hc, h5, h6, h7⟩,
      fun ⟨h1, h2, h3, h4, h5, h6, h7⟩ =>
        ⟨h1, h2, h3, List.any_eq_false.2 fun c hc => ne_true_of_eq_false (h4 c hc), h5, h6, h7⟩⟩

variable {href title tail : Text}

theorem strip?_singleton {c : Char} {t rest : Text} :
    Text.strip? [c] t = some rest ↔ t = c :: rest := by
  rcases t with _ | ⟨d, t⟩
  · simp [Text.strip?]
  · by_cases hd : c = d
    · simp [Text.strip?, hd]
    · simp [Text.strip?, hd, Ne.symm hd]

/-- What is written behind an address in parentheses. -/
def behindUrl (title : Text) : Text :=
  if title.isEmpty then [')'] else ' ' :: '"' :: (escapedQuotes title ++ ['"', ')'])

theorem destination_append (href title : Text) :
    destination href title ++ [')'] = href ++ behindUrl title := by
  unfold destination behindUrl
  split_ifs
  · rfl
  · simp [escapedQuotes]

theorem behindUrl_of_ne (ht : title ≠ []) :
    behindUrl title = ' ' :: '"' :: (escapedQuotes title ++ ['"', ')']) := by
  rw [behindUrl, if_neg (by simpa using ht)]

theorem exists_behindUrl (title : Text) :
    ∃ d rest, behindUrl title = d :: rest ∧ (d = ')' ∨ d = ' ') ∧ (d = ')' ↔ title = []) := by
  by_cases ht : title = []
  · exact ⟨')', [], by rw [ht]; rfl, .inl rfl, by simp [ht]⟩
  · exact ⟨' ', _, behindUrl_of_ne ht, .inr rfl, by simp [ht]⟩

theorem mem_escapedQuotes {c : Char} (h : c ∈ escapedQuotes title) :
    c ∈ "\\\"".toList ∨ c ∈ title := by
  obtain ⟨d, hd, hc⟩ := List.mem_flatMap.1 h
  split_ifs at hc
  · exact .inl hc
  · exact .inr (List.mem_singleton.1 hc ▸ hd)

theorem mem_destination {c : Char} (h : c ∈ destination href title) :
    c ∈ " \\\"".toList ∨ c ∈ href ++ title := by
  unfold destination at h
  split_ifs at h
  · exact .inr (List.mem_append_left _ h)
  · simp only [List.mem_append, String.reduceToList, List.mem_cons, List.not_mem_nil, or_false] at h ⊢
    rcases h with ((h | h) | h) | h
    · exact .inr (.inl h)
    · exact .inl (by tauto)
    · have hmem := mem_escapedQuotes h
      simp only [String.reduceToList, List.mem_cons, List.not_mem_nil, or_false] at hmem
      tauto
    · exact .inl (by tauto)

theorem head?_append_behindUrl_ne (h : href.head? ≠ some '<') :
    (href ++ behindUrl title).head? ≠ some '<' := by
  rcases href with _ | ⟨c, href⟩
  · obtain ⟨d, rest, hbehind, hd, -⟩ := exists_behindUrl title
    rw [List.nil_append, hbehind]
    rcases hd with rfl | rfl <;> simp
  · exact h

theorem isSpace_of_not_endsUrl {c : Char} (h : endsUrl c = false) : isSpace c = false := by
  simp only [endsUrl, Bool.or_eq_false_iff] at h
  exact h.1.1

/-- What a destination in parentheses has been read from. -/
theorem exists_of_inlineTarget? {w : Text}
    (h : inlineTarget? ('(' :: w) = some (href, title, tail)) :
    ∃ u rest written rest', url? (w.dropWhile isSpace) = some (u, rest) ∧ cleanUrl u = href ∧
      plainText written = title ∧ rest'.dropWhile isSpace = ')' :: tail ∧
      (written = [] ∧ rest' = rest.dropWhile isSpace ∨
        (rest.dropWhile isSpace).length < rest.length ∧
          title? (rest.dropWhile isSpace) = some (written, rest')) := by
  have hopen : Text.strip? "(" ('(' :: w) = some w := strip?_singleton.2 rfl
  rw [inlineTarget?, hopen, Option.bind_eq_bind, Option.bind_some, Option.bind_eq_bind,
    Option.bind_eq_some_iff] at h
  obtain ⟨⟨u, rest⟩, hurl, h⟩ := h
  dsimp only at h
  have hparts : ∀ {p : Text × Text}, (do
      let tail ← Text.strip? ")" (p.2.dropWhile isSpace)
      return (cleanUrl u, plainText p.1, tail)) = some (href, title, tail) →
        cleanUrl u = href ∧ plainText p.1 = title ∧ p.2.dropWhile isSpace = ')' :: tail := by
    intro p hp
    obtain ⟨tail', htail, heq⟩ := Option.bind_eq_some_iff.1 hp
    cases heq
    exact ⟨rfl, rfl, strip?_singleton.1 htail⟩
  split_ifs at h with hspaced
  · rcases ht : title? (rest.dropWhile isSpace) with _ | ⟨written, rest'⟩
    · rw [ht] at h
      obtain ⟨hhref, htitle, htail⟩ := hparts h
      exact ⟨u, rest, [], _, hurl, hhref, htitle, htail, .inl ⟨rfl, rfl⟩⟩
    · rw [ht] at h
      obtain ⟨hhref, htitle, htail⟩ := hparts h
      exact ⟨u, rest, written, rest', hurl, hhref, htitle, htail, .inr ⟨hspaced, ht⟩⟩
  · obtain ⟨hhref, htitle, htail⟩ := hparts h
    exact ⟨u, rest, [], _, hurl, hhref, htitle, htail, .inl ⟨rfl, rfl⟩⟩

/-- Behind its address a title is read to its end. -/
theorem inlineTarget?_of_bareUrl? (hspace : (href ++ behindUrl title).dropWhile isSpace =
      href ++ behindUrl title) (hangle : (href ++ behindUrl title).head? ≠ some '<')
    (h : bareUrl? 0 false (href ++ behindUrl title) = some (href, behindUrl title)) :
    inlineTarget? ('(' :: (href ++ behindUrl title)) =
      some (cleanUrl href, plainText (escapedQuotes title), []) := by
  have hurl : url? (href ++ behindUrl title) = some (href, behindUrl title) := by
    unfold url?
    split
    · next he => exact absurd (congrArg List.head? he) hangle
    · exact h
  have hopen : Text.strip? "(" ('(' :: (href ++ behindUrl title)) = some (href ++ behindUrl title) :=
    strip?_singleton.2 rfl
  rw [inlineTarget?, hopen]
  simp only [Option.bind_eq_bind, Option.bind_some, hspace, hurl]
  by_cases ht : title = []
  · subst ht
    rfl
  · have htitle : title? ('"' :: (escapedQuotes title ++ ['"', ')'])) =
        some (escapedQuotes title, [')']) := titleRest?_escapedQuotes (by decide) title false
    have hdrop : (behindUrl title).dropWhile isSpace =
        '"' :: (escapedQuotes title ++ ['"', ')']) := by
      rw [behindUrl_of_ne ht]
      rfl
    rw [hdrop, if_pos (by simp [behindUrl_of_ne ht]), htitle]
    rfl

theorem trimSpace_sublist (t : Text) : (Text.trimSpace t).Sublist t := by
  have hend : ∀ u, (Text.trimSpaceEnd u).Sublist u := fun u => by
    have h := (List.dropWhile_sublist isSpace (l := u.reverse)).reverse
    rwa [List.reverse_reverse] at h
  exact (hend _).trans (List.dropWhile_sublist _)

/-- What is read for the title is read right behind the address. -/
theorem eq_nil_of_read {a rest written rest' : Text} (h : behindUrl title = a ++ rest)
    (hrest : rest ≠ []) (hwritten : plainText written = title)
    (htail : rest'.dropWhile isSpace = ')' :: tail)
    (hread : written = [] ∧ rest' = rest.dropWhile isSpace ∨
      (rest.dropWhile isSpace).length < rest.length ∧
        title? (rest.dropWhile isSpace) = some (written, rest')) : a = [] := by
  by_contra ha
  obtain ⟨c, a, rfl⟩ := List.exists_cons_of_ne_nil ha
  by_cases ht : title = []
  · rw [ht] at h
    exact hrest (List.append_eq_nil_iff.1 (List.cons.inj h).2.symm).2
  · rw [behindUrl_of_ne ht] at h
    rcases hread with ⟨rfl, -⟩ | ⟨hspaced, hread⟩
    · exact ht hwritten.symm
    · have hne : rest' ≠ [] := by
        rintro rfl
        cases htail
      have hlt := length_plainText_of_title? (List.cons.inj h).2 hspaced hread hne
      rw [hwritten] at hlt
      exact absurd hlt (lt_irrefl _)

/-- Nothing but the address itself can be read for the address. -/
theorem bareUrl?_of_inlineTarget? (h : inlineTarget? ('(' :: (href ++ behindUrl title)) =
      some (href, title, tail)) :
    plainText href = href ∧ href.head? ≠ some '<' ∧
      (href ++ behindUrl title).dropWhile isSpace = href ++ behindUrl title ∧
      bareUrl? 0 false (href ++ behindUrl title) = some (href, behindUrl title) := by
  obtain ⟨u, rest, written, rest', hurl, hhref, hwritten, htail, hread⟩ := exists_of_inlineTarget? h
  obtain ⟨hrest, hraw⟩ := append_of_url? hurl
  have htrim := (trimSpace_sublist u).length_le
  have hlength : href.length ≤ u.length := by
    rw [← hhref]
    exact (length_plainText_le _).trans htrim
  have hsplit := List.takeWhile_append_dropWhile (p := isSpace) (l := href ++ behindUrl title)
  generalize hs : (href ++ behindUrl title).takeWhile isSpace = s at hsplit
  generalize hD : (href ++ behindUrl title).dropWhile isSpace = t at hurl hraw hsplit
  -- The address is read from a part of what is written for it, which is at least as long.
  have hpart : ∀ raw, t = raw ++ rest → ∃ b, href = s ++ raw ++ b ∧ rest = b ++ behindUrl title := by
    rintro raw rfl
    rw [← List.append_assoc] at hsplit
    rcases List.append_eq_append_iff.1 hsplit with ⟨b, hb, hbehind⟩ | ⟨a, ha, hbehind⟩
    · exact ⟨b, hb, hbehind⟩
    · obtain rfl := eq_nil_of_read hbehind hrest hwritten htail hread
      exact ⟨[], by simpa using ha.symm, by simpa using hbehind.symm⟩
  rcases hraw with ⟨hangle, hbare, ht⟩ | ht
  · obtain ⟨b, hb, hbehind⟩ := hpart u ht
    have hlengths := congrArg List.length hb
    simp only [List.length_append] at hlengths
    obtain rfl : s = [] := List.length_eq_zero_iff.1 (by omega)
    obtain rfl : b = [] := List.length_eq_zero_iff.1 (by omega)
    obtain rfl : href = u := by simpa using hb
    obtain rfl : rest = behindUrl title := hbehind
    have htrimmed : Text.trimSpace href = href := by
      refine (trimSpace_sublist href).eq_of_length_le ?_
      calc href.length
        _ = (cleanUrl href).length := by rw [hhref]
        _ ≤ (Text.trimSpace href).length := length_plainText_le _
    subst ht
    refine ⟨?_, fun hhead => hangle ?_, rfl, hbare⟩
    · rwa [cleanUrl, htrimmed] at hhref
    · obtain ⟨href', rfl⟩ := List.head?_eq_some_iff.1 hhead
      rfl
  · obtain ⟨b, hb, -⟩ := hpart ('<' :: u ++ ['>']) (by simpa using ht)
    have hlengths := congrArg List.length hb
    simp only [List.length_append, List.length_cons] at hlengths
    omega

/-- What is written for a destination is read back as it if and only if both parts of it are
writable. -/
theorem inlineTarget?_destination_iff :
    inlineTarget? ('(' :: (destination href title ++ [')'])) = some (href, title, tail) ↔
      IsWritable href title ∧ tail = [] := by
  obtain ⟨d, rest, hbehind, hd, hend⟩ := exists_behindUrl title
  rw [destination_append]
  constructor
  · intro h
    obtain ⟨hhref, hangle, hspace, hbare⟩ := bareUrl?_of_inlineTarget? h
    have hwritable := hbare
    rw [hbehind, bareUrl?_append_iff (unescape_of_plainText hhref) hd] at hwritable
    obtain ⟨hnested, hno, hlast⟩ := hwritable
    have hlone : href = [] → title = [] := by
      rintro rfl
      refine hend.1 (hd.resolve_right fun he => ?_)
      rw [hbehind, he, List.nil_append, List.dropWhile_cons, if_pos (by decide)] at hspace
      have hlength := (List.dropWhile_sublist isSpace (l := rest)).length_le
      rw [hspace] at hlength
      exact absurd hlength (Nat.not_succ_le_self _)
    have hread := inlineTarget?_of_bareUrl? hspace (head?_append_behindUrl_ne hangle) hbare
    rw [hread] at h
    simp only [Option.some.injEq, Prod.mk.injEq] at h
    obtain ⟨-, htitle, rfl⟩ := h
    exact ⟨⟨hhref, htitle, hnested, hno, hangle, fun he => hlast (hend.2 he), hlone⟩, rfl⟩
  · rintro ⟨⟨hhref, htitle, hnested, hno, hangle, hlast, hlone⟩, rfl⟩
    have hbare : bareUrl? 0 false (href ++ behindUrl title) = some (href, behindUrl title) := by
      rw [hbehind]
      exact (bareUrl?_append_iff (unescape_of_plainText hhref) hd 0).2
        ⟨hnested, hno, fun he => hlast (hend.1 he)⟩
    have hspace : (href ++ behindUrl title).dropWhile isSpace = href ++ behindUrl title := by
      rcases href with _ | ⟨c, href⟩
      · rw [hlone rfl]
        rfl
      · have hc := isSpace_of_not_endsUrl (hno c List.mem_cons_self)
        rw [List.cons_append, List.dropWhile_cons, if_neg (by simp [hc])]
    have htrim : Text.trimSpace href = href :=
      trimSpace_of_not_isSpace fun c hc => isSpace_of_not_endsUrl (hno c hc)
    rw [inlineTarget?_of_bareUrl? hspace (head?_append_behindUrl_ne hangle) hbare, cleanUrl, htrim,
      hhref, htitle]

end Destinations

end TidyMark.Markdown
