import TidyMark.Proofs.Reread

/-!
# Where a destination is read to its end

The destination of a link that the expander has written is to be left alone when the text is read
again, which takes that the reader of destinations finds the parenthesis that the writer has put at
its end. The reader goes through the characters with a count of the open parentheses; what it makes
of a text is said here by the grammar of the texts that may stand between the parentheses
(`Enclosable`). The address, the fragment and the title go into the destination as they are, so it
is read to its end exactly when they are such a text together
(`destinationLength?_destination_iff`), which depends on what the document says
(`not_forall_destinationLength?_destination`).
-/

namespace TidyMark.Reflink

open Text

/-- Text in which each parenthesis has its partner. A backslash goes with the next character. -/
inductive Paired : Text → Prop
  | nil : Paired []
  | char {c : Char} {t : Text} : c ≠ '\\' → c ≠ '(' → c ≠ ')' → Paired t → Paired (c :: t)
  | escape {c : Char} {t : Text} : Paired t → Paired ('\\' :: c :: t)
  | pair {t u : Text} : Paired t → Paired u → Paired ('(' :: (t ++ ')' :: u))

/-- Text that may stand between two quotes `q`. -/
inductive Quotable (q : Char) : Text → Prop
  | nil : Quotable q []
  | char {c : Char} {t : Text} : c ≠ '\\' → c ≠ q → Quotable q t → Quotable q (c :: t)
  | escape {c : Char} {t : Text} : Quotable q t → Quotable q ('\\' :: c :: t)

/-- Whether a character opens a quoted stretch directly inside the outer parentheses. -/
def opensQuote (last c : Char) : Bool :=
  (c == '"' || c == '\'') && opensTitleAfter last

/-- Text that may stand between the parentheses of a destination, behind the character `last`:
pairs of parentheses, quoted stretches, and between them characters that are neither. -/
inductive Enclosable : Char → Text → Prop
  | nil {last : Char} : Enclosable last []
  | char {last c : Char} {t : Text} : c ≠ '\\' → c ≠ '(' → c ≠ ')' → opensQuote last c = false →
    Enclosable c t → Enclosable last (c :: t)
  | escape {last c : Char} {t : Text} : Enclosable c t → Enclosable last ('\\' :: c :: t)
  | pair {last : Char} {t u : Text} : Paired t → Enclosable ')' u →
    Enclosable last ('(' :: (t ++ ')' :: u))
  | quoted {last q : Char} {t u : Text} : opensQuote last q = true → Quotable q t →
    Enclosable q u → Enclosable last (q :: (t ++ q :: u))

/-- The title as it stands behind the address. -/
def Target.titlePart (target : Target) : Text :=
  match target.title with
  | none => []
  | some title => if title.contains '"' then " (" ++ title ++ ")" else " \"" ++ title ++ "\""

theorem destination_eq (target : Target) (fragment : Text) :
    target.destination fragment = '(' :: (target.url ++ fragment ++ target.titlePart ++ [')']) := by
  unfold Target.destination Target.titlePart
  rcases target.title with _ | title
  · simp
  · dsimp only
    split_ifs <;> simp

theorem ne_of_opensQuote {last q : Char} (h : opensQuote last q = true) :
    q ≠ '\\' ∧ q ≠ '(' ∧ q ≠ ')' := by
  simp only [opensQuote, Bool.and_eq_true, Bool.or_eq_true, beq_iff_eq] at h
  rcases h.1 with rfl | rfl <;> decide

section Reading

variable {depth n : Nat} {quote last : Option Char} {q c l : Char} {t u rest : Text}

theorem destinationFrom_escape (depth : Nat) (quote last : Option Char) (c : Char) (rest : Text) :
    destinationFrom depth quote last ('\\' :: c :: rest) =
      (destinationFrom depth quote (some c) rest).map (· + 2) := by
  rw [destinationFrom]

theorem destinationFrom_of_step {depth' : Nat} {quote' : Option Char} (hc : c ≠ '\\')
    (h : destinationStep depth quote last c = some (depth', quote')) (rest : Text) :
    destinationFrom depth quote last (c :: rest) =
      (destinationFrom depth' quote' (some c) rest).map (· + 1) := by
  rw [destinationFrom_cons hc, h]

theorem destinationStep_deep (hopen : c ≠ '(') (hclose : c ≠ ')') :
    destinationStep (depth + 2) none last c = some (depth + 2, none) := by
  simp [destinationStep, hopen, hclose]

theorem destinationStep_quote (hne : c ≠ q) :
    destinationStep depth (some q) last c = some (depth, some q) := by
  simp [destinationStep, hne]

theorem destinationStep_unquote : destinationStep depth (some q) last q = some (depth, none) := by
  simp [destinationStep]

theorem destinationStep_one :
    destinationStep 1 none (some l) c =
      if opensQuote l c then some (1, some c)
      else if c == '(' then some (2, none) else if c == ')' then none else some (1, none) := by
  simp [destinationStep, opensQuote]

theorem destinationFrom_pos (h : destinationFrom depth quote last t = some n) : 0 < n := by
  rcases t with _ | ⟨c, t⟩
  · cases h
  by_cases hc : c = '\\'
  · subst hc
    rcases t with _ | ⟨c, t⟩
    · cases h
    rw [destinationFrom_escape, Option.map_eq_some_iff] at h
    obtain ⟨m, -, rfl⟩ := h
    omega
  · rw [destinationFrom_cons hc] at h
    split at h
    · obtain ⟨m, -, rfl⟩ := Option.map_eq_some_iff.1 h
      omega
    · cases h
      decide

theorem Paired.destinationFrom (h : Paired t) : ∀ (depth : Nat) (last : Option Char) (rest : Text),
    destinationFrom (depth + 2) none last (t ++ ')' :: rest) =
      (destinationFrom (depth + 1) none (some ')') rest).map (· + (t.length + 1)) := by
  induction h with
  | nil => exact fun depth last rest => destinationFrom_of_step (by decide) rfl rest
  | char hc hopen hclose _ ih =>
    intro depth last rest
    rw [List.cons_append, destinationFrom_of_step hc (destinationStep_deep hopen hclose), ih,
      Option.map_map]
    simp [Function.comp_def, Nat.add_assoc]
  | escape _ ih =>
    intro depth last rest
    rw [List.cons_append, List.cons_append, destinationFrom_escape, ih, Option.map_map]
    simp [Function.comp_def, Nat.add_assoc]
  | pair _ _ iht ihu =>
    intro depth last rest
    rw [List.cons_append, List.append_assoc, List.cons_append,
      destinationFrom_of_step (by decide) rfl, iht, ihu, Option.map_map, Option.map_map]
    simp [Function.comp_def, Nat.add_assoc, Nat.add_comm, Nat.add_left_comm]

theorem Quotable.destinationFrom (h : Quotable q t) (hq : q ≠ '\\') :
    ∀ (depth : Nat) (last : Option Char) (rest : Text),
      destinationFrom depth (some q) last (t ++ q :: rest) =
        (destinationFrom depth none (some q) rest).map (· + (t.length + 1)) := by
  induction h with
  | nil =>
    intro depth last rest
    exact destinationFrom_of_step hq destinationStep_unquote rest
  | char hc hne _ ih =>
    intro depth last rest
    rw [List.cons_append, destinationFrom_of_step hc (destinationStep_quote hne), ih,
      Option.map_map]
    simp [Function.comp_def, Nat.add_assoc]
  | escape _ ih =>
    intro depth last rest
    rw [List.cons_append, List.cons_append, destinationFrom_escape, ih, Option.map_map]
    simp [Function.comp_def, Nat.add_assoc]

/-- What may stand between the parentheses leaves the count as it was. -/
theorem Enclosable.destinationFrom (h : Enclosable l t) : ∃ l', ∀ rest,
    destinationFrom 1 none (some l) (t ++ rest) =
      (destinationFrom 1 none (some l') rest).map (· + t.length) := by
  induction h with
  | @nil l => exact ⟨l, fun rest => by simp⟩
  | @char l c t hc hopen hclose hquote _ ih =>
    obtain ⟨l', ih⟩ := ih
    refine ⟨l', fun rest => ?_⟩
    have hstep : destinationStep 1 none (some l) c = some (1, none) := by
      simp [destinationStep_one, hquote, hopen, hclose]
    rw [List.cons_append, destinationFrom_of_step hc hstep, ih, Option.map_map]
    simp [Function.comp_def, Nat.add_assoc]
  | escape _ ih =>
    obtain ⟨l', ih⟩ := ih
    refine ⟨l', fun rest => ?_⟩
    rw [List.cons_append, List.cons_append, destinationFrom_escape, ih, Option.map_map]
    simp [Function.comp_def, Nat.add_assoc]
  | @pair l t u ht _ ih =>
    obtain ⟨l', ih⟩ := ih
    refine ⟨l', fun rest => ?_⟩
    rw [List.cons_append, List.append_assoc, List.cons_append,
      destinationFrom_of_step (by decide) rfl, ht.destinationFrom, ih, Option.map_map,
      Option.map_map]
    simp [Function.comp_def, Nat.add_assoc, Nat.add_comm, Nat.add_left_comm]
  | @quoted l q t u hq ht _ ih =>
    obtain ⟨l', ih⟩ := ih
    refine ⟨l', fun rest => ?_⟩
    obtain ⟨hback, -, -⟩ := ne_of_opensQuote hq
    have hstep : destinationStep 1 none (some l) q = some (1, some q) := by
      rw [destinationStep_one, if_pos hq]
    rw [List.cons_append, List.append_assoc, List.cons_append, destinationFrom_of_step hback hstep,
      ht.destinationFrom hback, ih, Option.map_map, Option.map_map]
    simp [Function.comp_def, Nat.add_assoc, Nat.add_comm, Nat.add_left_comm]

/-- A count of more than one parenthesis comes down again behind paired text. -/
theorem exists_paired {depth n : Nat} {last : Option Char} {t : Text}
    (h : destinationFrom (depth + 2) none last t = some n) :
    ∃ u v m, t = u ++ ')' :: v ∧ Paired u ∧ destinationFrom (depth + 1) none (some ')') v = some m ∧
      n = m + (u.length + 1) := by
  induction hl : t.length using Nat.strongRecOn generalizing t depth n last with
  | _ k ih =>
    subst hl
    rcases t with _ | ⟨c, t⟩
    · cases h
    by_cases hc : c = '\\'
    · subst hc
      rcases t with _ | ⟨c, t⟩
      · cases h
      rw [destinationFrom_escape, Option.map_eq_some_iff] at h
      obtain ⟨m, hm, rfl⟩ := h
      obtain ⟨u, v, m, rfl, hu, hv, rfl⟩ := ih t.length (by simp only [List.length_cons]; omega) hm rfl
      exact ⟨'\\' :: c :: u, v, m, rfl, hu.escape, hv, rfl⟩
    by_cases hclose : c = ')'
    · subst hclose
      rw [destinationFrom_of_step (by decide) rfl, Option.map_eq_some_iff] at h
      obtain ⟨m, hm, rfl⟩ := h
      exact ⟨[], t, m, rfl, .nil, hm, rfl⟩
    by_cases hopen : c = '('
    · subst hopen
      -- the inner pair is closed first, and what is behind it closes this one
      rw [destinationFrom_of_step (by decide) rfl, Option.map_eq_some_iff] at h
      obtain ⟨m, hm, rfl⟩ := h
      obtain ⟨u, v, m, rfl, hu, hv, rfl⟩ := ih _ (by simp) hm rfl
      obtain ⟨u', v', m, rfl, hu', hv', rfl⟩ := ih _ (by simp; omega) hv rfl
      exact ⟨'(' :: (u ++ ')' :: u'), v', m, by simp, hu.pair hu', hv', by simp; omega⟩
    · rw [destinationFrom_of_step hc (destinationStep_deep hopen hclose),
        Option.map_eq_some_iff] at h
      obtain ⟨m, hm, rfl⟩ := h
      obtain ⟨u, v, m, rfl, hu, hv, rfl⟩ := ih _ (by simp) hm rfl
      exact ⟨c :: u, v, m, rfl, hu.char hc hopen hclose, hv, rfl⟩

theorem exists_quotable {depth n : Nat} {last : Option Char} {t : Text}
    (h : destinationFrom depth (some q) last t = some n) :
    ∃ u v m, t = u ++ q :: v ∧ Quotable q u ∧ destinationFrom depth none (some q) v = some m ∧
      n = m + (u.length + 1) := by
  induction t using escape_induction generalizing n last with
  | nil => cases h
  | backslash => cases h
  | escape c t ih =>
    rw [destinationFrom_escape, Option.map_eq_some_iff] at h
    obtain ⟨m, hm, rfl⟩ := h
    obtain ⟨u, v, m, rfl, hu, hv, rfl⟩ := ih hm
    exact ⟨'\\' :: c :: u, v, m, rfl, hu.escape, hv, rfl⟩
  | char c t hc ih =>
    by_cases hq : c = q
    · subst hq
      rw [destinationFrom_of_step hc destinationStep_unquote, Option.map_eq_some_iff] at h
      obtain ⟨m, hm, rfl⟩ := h
      exact ⟨[], t, m, rfl, .nil, hm, rfl⟩
    · rw [destinationFrom_of_step hc (destinationStep_quote hq), Option.map_eq_some_iff] at h
      obtain ⟨m, hm, rfl⟩ := h
      obtain ⟨u, v, m, rfl, hu, hv, rfl⟩ := ih hm
      exact ⟨c :: u, v, m, rfl, hu.char hc hq, hv, rfl⟩

/-- A stretch that ends inside a text ends before what follows the text. -/
theorem exists_rest {u v t : Text} (h : u ++ c :: v = t ++ rest) (hlt : u.length < t.length) :
    ∃ w, t = u ++ c :: w ∧ v = w ++ rest := by
  rcases List.append_eq_append_iff.1 h with ⟨a, rfl, ha⟩ | ⟨a, rfl, -⟩
  · rcases a with _ | ⟨d, w⟩
    · simp at hlt
    · obtain ⟨rfl, rfl⟩ := List.cons.inj ha
      exact ⟨w, rfl, rfl⟩
  · rw [List.length_append] at hlt
    omega

/-- What is read up to the last parenthesis is what may stand before it. -/
theorem enclosable_of_destinationFrom
    (h : destinationFrom 1 none (some l) (t ++ ')' :: rest) = some (t.length + 1)) :
    Enclosable l t := by
  induction hl : t.length using Nat.strongRecOn generalizing t l with
  | _ k ih =>
    subst hl
    rcases t with _ | ⟨c, t⟩
    · exact .nil
    rw [List.cons_append, List.length_cons] at h
    by_cases hc : c = '\\'
    · subst hc
      rcases t with _ | ⟨c, t⟩
      · rw [List.nil_append, destinationFrom_escape, Option.map_eq_some_iff] at h
        obtain ⟨m, hm, heq⟩ := h
        have := destinationFrom_pos hm
        simp at heq
        omega
      · rw [List.cons_append, destinationFrom_escape, Option.map_eq_some_iff] at h
        obtain ⟨m, hm, heq⟩ := h
        obtain rfl : m = t.length + 1 := by simpa using heq
        exact .escape (ih t.length (by simp only [List.length_cons]; omega) hm rfl)
    rw [destinationFrom_cons hc, destinationStep_one] at h
    split_ifs at h with hquote hopen hclose
    · obtain ⟨m, hm, heq⟩ := Option.map_eq_some_iff.1 h
      obtain ⟨u, v, m, hv, hu, hread, rfl⟩ := exists_quotable hm
      have := destinationFrom_pos hread
      obtain ⟨w, rfl, rfl⟩ := exists_rest hv.symm (by omega)
      obtain rfl : m = w.length + 1 := by simp at heq; omega
      exact .quoted hquote hu (ih _ (by simp; omega) hread rfl)
    · obtain rfl : c = '(' := by simpa using hopen
      obtain ⟨m, hm, heq⟩ := Option.map_eq_some_iff.1 h
      obtain ⟨u, v, m, hv, hu, hread, rfl⟩ := exists_paired hm
      have := destinationFrom_pos hread
      obtain ⟨w, rfl, rfl⟩ := exists_rest hv.symm (by omega)
      obtain rfl : m = w.length + 1 := by simp at heq; omega
      exact .pair hu (ih _ (by simp; omega) hread rfl)
    · simp at h
    · obtain ⟨m, hm, heq⟩ := Option.map_eq_some_iff.1 h
      obtain rfl : m = t.length + 1 := by simpa using heq
      exact .char hc (by simpa using hopen) (by simpa using hclose) (by simpa using hquote)
        (ih _ (by simp) hm rfl)

end Reading

section Written

/-- A destination is read to its own closing parenthesis, whatever follows it, if and only if its
address, fragment and title together may stand between parentheses. -/
theorem destinationLength?_destination_iff (target : Target) (fragment rest : Text) :
    destinationLength? (target.destination fragment ++ rest) =
        some (target.destination fragment).length ↔
      Enclosable '(' (target.url ++ fragment ++ target.titlePart) := by
  rw [destination_eq, destinationLength?]
  generalize target.url ++ fragment ++ target.titlePart = t
  have hread : destinationFrom 0 none none ('(' :: (t ++ [')']) ++ rest) =
      (destinationFrom 1 none (some '(') (t ++ ')' :: rest)).map (· + 1) := by
    rw [List.cons_append, List.append_assoc]
    exact destinationFrom_of_step (by decide) rfl _
  have hlength : ('(' :: (t ++ [')'])).length = t.length + 1 + 1 := by simp
  rw [hread, hlength]
  constructor
  · intro h
    obtain ⟨m, hm, heq⟩ := Option.map_eq_some_iff.1 h
    obtain rfl : m = t.length + 1 := by omega
    exact enclosable_of_destinationFrom hm
  · intro h
    obtain ⟨l, hl⟩ := h.destinationFrom
    have hend : destinationFrom 1 none (some l) (')' :: rest) = some 1 := by
      rw [destinationFrom_cons (by decide)]
      rfl
    rw [hl, hend, Option.map_some, Option.map_some, Nat.add_comm 1]

/-- The document chooses the address, so it can end the destination before its end. -/
theorem not_forall_destinationLength?_destination :
    ¬ ∀ (document : Text) (context : List (Text × Text)) (source rest : Text) (line : Line)
      (b : Bracket) (target : Target), line ∈ Line.ofSource source →
      .link b target ∈ (((Table.ofDocument document).withContext context).expandIn line).edits →
      destinationLength? (target.destination (b.fragment.getD []) ++ rest) =
        some (target.destination (b.fragment.getD [])).length := by
  intro h
  have hread := h "[foo]: u)[b]\n" [] "[foo]" [] ⟨"[foo]", [], false⟩ ⟨false, "foo", none, none⟩
    ⟨"u)[b]", none⟩ (by decide +kernel) (by decide +kernel)
  exact absurd hread (by decide)

end Written

end TidyMark.Reflink
