import TidyMark.Proofs.CodeKept

/-!
# What is read of an expanded line

A destination is contained when it is read to its end and holds no bracket, closing brace, backtick
or line feed. Lines that are the same but for brackets that have become links with contained
destinations (`Linked`) look the same to the readers of brackets, so the segments of an expanded
line are those of the line, each bracket that has become a link followed by the characters of its
destination (`isRead_reread`).
-/

namespace TidyMark.Reflink

open Text

section Destinations

/-- How many parentheses and which quote are open after a character that is not escaped; `none`
when the character closes the last parenthesis. -/
def destinationStep (depth : Nat) (quote last : Option Char) (c : Char) :
    Option (Nat × Option Char) :=
  match quote with
  | some q => some (depth, if c == q then none else some q)
  | none =>
    if (c == '"' || c == '\'') && depth == 1 && last.any opensTitleAfter then some (depth, some c)
    else if c == '(' then some (depth + 1, none)
    else if c == ')' then if depth ≤ 1 then none else some (depth - 1, none)
    else some (depth, none)

theorem destinationFrom_cons {c : Char} (hc : c ≠ '\\') (depth : Nat) (quote last : Option Char)
    (rest : Text) : destinationFrom depth quote last (c :: rest) =
      match destinationStep depth quote last c with
      | some (depth, quote) => (destinationFrom depth quote (some c) rest).map (· + 1)
      | none => some 1 := by
  rw [destinationFrom.eq_def]
  split
  · next h => cases h
  · next h => exact absurd (List.cons.inj h).1 hc
  · next h => exact absurd (List.cons.inj h).1 hc
  · next h =>
    obtain ⟨rfl, rfl⟩ := List.cons.inj h
    cases quote with
    | some q => rfl
    | none =>
      simp only [destinationStep]
      split_ifs <;> rfl

/-- A text is read by characters of which none is a backslash and by pairs of a backslash and what
it escapes; the last backslash may have nothing to escape. -/
theorem escape_induction {motive : Text → Prop} (nil : motive []) (backslash : motive ['\\'])
    (escape : ∀ c t, motive t → motive ('\\' :: c :: t))
    (char : ∀ c t, c ≠ '\\' → motive t → motive (c :: t)) : ∀ t, motive t
  | [] => nil
  | [c] => by
    by_cases hc : c = '\\'
    · exact hc ▸ backslash
    · exact char c [] hc nil
  | c :: d :: t => by
    by_cases hc : c = '\\'
    · exact hc ▸ escape d t (escape_induction nil backslash escape char t)
    · exact char c (d :: t) hc (escape_induction nil backslash escape char (d :: t))

/-- Where an inline destination ends does not depend on what follows. -/
theorem destinationFrom_take {t : Text} {depth n : Nat} {quote last : Option Char}
    (h : destinationFrom depth quote last t = some n) :
    n ≤ t.length ∧ ∀ u, destinationFrom depth quote last (t.take n ++ u) = some n := by
  induction t using escape_induction generalizing depth n quote last with
  | nil => cases h
  | backslash => cases h
  | escape c t ih =>
    simp only [destinationFrom, Option.map_eq_some_iff] at h
    obtain ⟨m, hm, rfl⟩ := h
    obtain ⟨hle, hu⟩ := ih hm
    exact ⟨by simpa using hle, fun u => by simp [destinationFrom, hu u]⟩
  | char c t hc ih =>
    rw [destinationFrom_cons hc] at h
    rcases hs : destinationStep depth quote last c with _ | ⟨depth', quote'⟩ <;> rw [hs] at h
    · obtain rfl : 1 = n := by simpa using h
      exact ⟨by simp, fun u => by simp [destinationFrom_cons hc, hs]⟩
    · simp only [Option.map_eq_some_iff] at h
      obtain ⟨m, hm, rfl⟩ := h
      obtain ⟨hle, hu⟩ := ih hm
      exact ⟨by simpa using hle, fun u => by simp [destinationFrom_cons hc, hs, hu u]⟩

theorem destinationLength?_take {t t' : Text} {n : Nat} (h : destinationLength? t = some n)
    (ht : t'.take n = t.take n) : destinationLength? t' = some n := by
  have := (destinationFrom_take h).2 (t'.drop n)
  rwa [← ht, List.take_append_drop] at this

end Destinations

section Reading

variable {b : Bracket} {t : Text}

/-- What a reference is written with behind its first brackets. -/
def Bracket.tail (b : Bracket) : Text :=
  (b.reference.elim [] fun r => between '[' r ']') ++
    (b.fragment.elim [] fun f => between '\x7b' f '\x7d')

theorem written_eq (b : Bracket) : b.written = b.head ++ b.tail :=
  List.append_assoc _ _ _

theorem label?_of_isPlain {inside : Text} (hi : ∀ c ∈ inside, IsPlain c) (t : Text) :
    label? true (inside ++ ']' :: t) =
      (label? false t).map fun (label, rest) => (inside ++ ']' :: label, rest) := by
  induction inside with
  | nil => simp [label?]
  | cons c inside ih =>
    obtain ⟨⟨h1, h2, h3⟩, hi⟩ := List.forall_mem_cons.1 hi
    simp [label?, h1, h2, h3, ih hi, Function.comp_def]

theorem label?_of_isLabel {label : Text} (h : IsLabel label) (rest : Text) :
    label? false (label ++ ']' :: rest) = some (label, rest) := by
  induction h with
  | nil => simp [label?]
  | char hc _ ih => simp [label?, hc.1, hc.2.1, hc.2.2, ih]
  | pair hi _ ih => simp [label?, between, label?_of_isPlain hi, ih]

theorem exists_cons_of_isLabel {label : Text} (h : IsLabel label) (hne : label ≠ []) :
    ∃ c rest, label = c :: rest ∧ c ≠ ']' := by
  rcases h with _ | ⟨hc, _⟩ | ⟨_, _⟩
  · exact absurd rfl hne
  · exact ⟨_, _, rfl, hc.2.1⟩
  · exact ⟨_, _, rfl, by decide⟩

theorem upTo?_of_forall {close : Char} {stop : Char → Bool} {found : Text}
    (h : ∀ c ∈ found, c ≠ close ∧ stop c = false) (rest : Text) :
    upTo? close stop (found ++ close :: rest) = some (found, rest) := by
  induction found with
  | nil => simp [upTo?]
  | cons c found ih =>
    obtain ⟨⟨h1, h2⟩, h⟩ := List.forall_mem_cons.1 h
    simp [upTo?, h1, h2, ih h]

theorem optional_eq_none_iff {read? : Text → Option (Text × Text)} {u : Text} :
    optional read? t = (none, u) ↔ read? t = none ∧ u = t := by
  unfold optional
  split
  · next h => simp [h]
  · next h => simp [h, eq_comm]

theorem optional_of_eq_some {read? : Text → Option (Text × Text)} {found rest : Text}
    (h : read? t = some (found, rest)) : optional read? t = (some found, rest) := by
  simp [optional, h]

theorem reference?_between {r : Text} (hr : ∀ c ∈ r, IsPlain c) (t : Text) :
    reference? (between '[' r ']' ++ t) = some (r, t) := by
  have h : ∀ c ∈ r, c ≠ ']' ∧ (c == '[' || c == '\n') = false := fun c hc => by
    simpa using ⟨(hr c hc).2.1, (hr c hc).1, (hr c hc).2.2⟩
  simpa [reference?, between] using upTo?_of_forall h t

theorem fragment?_between {f : Text} (h : f.head? = some '#' ∨ f.head? = some '/')
    (hf : ∀ c ∈ f, c ≠ '\x7d' ∧ c ≠ '\n') (t : Text) :
    fragment? (between '\x7b' f '\x7d' ++ t) = some (f, t) := by
  rcases f with _ | ⟨c, f⟩
  · simp at h
  · have hc : (c == '#' || c == '/') = true := by simpa using h
    have hf : ∀ d ∈ c :: f, d ≠ '\x7d' ∧ (d == '\n') = false := fun d hd => by
      simpa using hf d hd
    have h : upTo? '\x7d' (· == '\n') ((c :: f) ++ '\x7d' :: t) = some (c :: f, t) :=
      upTo?_of_forall hf t
    simpa [fragment?, between, hc] using h

theorem after?_eq_some_iff {image : Bool} {rest : Text} :
    Bracket.after? image t = some (b, rest) ↔ b.image = image ∧ b.label ≠ [] ∧
      ∃ u v, label? false t = some (b.label, u) ∧ optional reference? u = (b.reference, v) ∧
        optional fragment? v = (b.fragment, rest) := by
  obtain ⟨image', label, reference, fragment⟩ := b
  unfold Bracket.after?
  split
  · next h => simp [h]
  · next u h =>
    refine iff_of_false (by simp) ?_
    rintro ⟨-, hne, u', v, hl, -⟩
    simp only [h, Option.some.injEq, Prod.mk.injEq] at hl
    exact hne hl.1.symm
  · next c label' u h =>
    simp only [h, Option.some.injEq, Prod.mk.injEq, Bracket.mk.injEq]
    constructor
    · rintro ⟨⟨rfl, rfl, rfl, rfl⟩, rfl⟩
      exact ⟨rfl, by simp, u, _, ⟨rfl, rfl⟩, rfl, rfl⟩
    · rintro ⟨rfl, -, u', v, ⟨rfl, rfl⟩, hr, hf⟩
      rw [hr, hf]
      exact ⟨⟨rfl, rfl, rfl, rfl⟩, rfl⟩

theorem read?_head (b : Bracket) (t : Text) :
    Bracket.read? (b.head ++ t) = Bracket.after? b.image (b.label ++ ']' :: t) := by
  cases h : b.image <;> simp [Bracket.head, between, Bracket.read?, h]

/-- A bracket is read as it is written unless what follows it could belong to it. -/
theorem read?_written_iff (hb : b.WellFormed) :
    Bracket.read? (b.written ++ t) = some (b, t) ↔
      (b.reference = none → reference? (b.tail ++ t) = none) ∧
        (b.fragment = none → fragment? t = none) := by
  have hfragment {v : Text} (hv : v = (b.fragment.elim [] fun f => between '\x7b' f '\x7d') ++ t) :
      optional fragment? v = (b.fragment, t) ↔ (b.fragment = none → fragment? t = none) := by
    rcases hf : b.fragment with _ | f
    · obtain rfl : v = t := by simpa [hf] using hv
      simp [optional_eq_none_iff]
    · obtain ⟨hhead, hmem⟩ := hb.fragment f hf
      rw [hv, hf, Option.elim_some, optional_of_eq_some (fragment?_between hhead hmem t)]
      simp
  rw [written_eq, List.append_assoc, read?_head, after?_eq_some_iff, label?_of_isLabel hb.label]
  simp only [hb.label_ne_nil, ne_eq, not_false_eq_true, true_and, Option.some.injEq,
    Prod.mk.injEq, exists_and_left, exists_eq_left']
  rcases hr : b.reference with _ | r
  · simp only [optional_eq_none_iff, exists_and_left, and_assoc, true_imp_iff]
    refine and_congr_right fun _ => ?_
    rw [exists_eq_left]
    exact hfragment (by simp [Bracket.tail, hr])
  · have h := reference?_between (hb.reference r hr)
      ((b.fragment.elim [] fun f => between '\x7b' f '\x7d') ++ t)
    rw [Bracket.tail, hr, Option.elim_some, List.append_assoc, optional_of_eq_some h]
    simp only [Prod.mk.injEq, true_and, exists_eq_left', reduceCtorEq, false_imp_iff]
    exact hfragment rfl

end Reading

/-- A destination that is read to its end and holds nothing that brackets, fragments and code spans
are made of. -/
structure IsContained (d : Text) : Prop where
  closes : destinationLength? d = some d.length
  plain : ∀ c ∈ d, c ∉ "[]\x7d`\n".toList

/-- Texts that are the same but for brackets that have become links with contained destinations. -/
inductive Linked : Text → Text → Prop
  | nil : Linked [] []
  | char {t t' : Text} (c : Char) (h : Linked t t') : Linked (c :: t) (c :: t')
  | link {t t' : Text} {b : Bracket} {target : Target} (hb : b.WellFormed)
      (hd : IsContained (target.destination (b.fragment.getD []))) (h : Linked t t') :
      Linked (b.written ++ t) (b.linked target ++ t')

section Contained

variable {d : Text}

theorem IsContained.isPlain (hd : IsContained d) : ∀ c ∈ d, IsPlain c := by
  intro c hc
  have := hd.plain c hc
  simp only [String.reduceToList, List.mem_cons, List.not_mem_nil, or_false, not_or] at this
  exact ⟨this.1, this.2.1, this.2.2.2.2⟩

theorem IsContained.brace_not_mem (hd : IsContained d) : '\x7d' ∉ d :=
  fun h => hd.plain _ h (by decide)

theorem fragment_subset_destination (target : Target) (fragment : Text) :
    fragment ⊆ target.destination fragment := by
  obtain ⟨title, hd, -⟩ := exists_destination target fragment
  intro c hc
  simp [hd, hc]

theorem newline_not_mem_label {label : Text} (h : IsLabel label) : '\n' ∉ label := by
  induction h with
  | nil => exact List.not_mem_nil
  | char hc _ ih => simpa [ih] using Ne.symm hc.2.2
  | pair hi _ ih =>
    have hinside := fun h => (hi _ h).2.2 rfl
    simpa [between, ih] using hinside

theorem newline_not_mem_head {b : Bracket} (hb : b.WellFormed) : '\n' ∉ b.head := by
  have := newline_not_mem_label hb.label
  unfold Bracket.head
  split_ifs <;> simpa [between] using this

theorem newline_not_mem_tail {b : Bracket} (hb : b.WellFormed) : '\n' ∉ b.tail := by
  have hr : '\n' ∉ b.reference.elim [] fun r => between '[' r ']' := by
    rcases h : b.reference with _ | r
    · exact List.not_mem_nil
    · have := fun h' => (hb.reference r h _ h').2.2 rfl
      simpa [between] using this
  have hf : '\n' ∉ b.fragment.elim [] fun f => between '\x7b' f '\x7d' := by
    rcases h : b.fragment with _ | f
    · exact List.not_mem_nil
    · have := fun h' => ((hb.fragment f h).2 _ h').2 rfl
      simpa [between] using this
  simp [Bracket.tail, hr, hf]

end Contained

section Readers

variable {s t t' : Text}

theorem linked_append (h : Linked t t') : ∀ s : Text, Linked (s ++ t) (s ++ t')
  | [] => h
  | c :: s => .char c (linked_append h s)

theorem head?_head_append (b : Bracket) (t t' : Text) :
    (b.head ++ t).head? = (b.head ++ t').head? := by
  unfold Bracket.head
  split_ifs <;> rfl

theorem head?_of_linked (h : Linked t t') : t'.head? = t.head? := by
  rcases h with _ | ⟨c, h⟩ | @⟨_, _, b, _, hb, hd, h⟩
  · rfl
  · rfl
  · rw [Bracket.linked, written_eq, List.append_assoc, List.append_assoc]
    exact head?_head_append b _ _

/-- A link begins with an exclamation mark or a bracket. -/
theorem exists_cons_of_linked {c : Char} (h1 : c ≠ '!') (h2 : c ≠ '[') (h : Linked t (c :: t')) :
    ∃ u, t = c :: u ∧ Linked u t' := by
  generalize hx : c :: t' = x at h
  rcases h with _ | ⟨c, h⟩ | @⟨_, _, b, _, hb, hd, h⟩
  · cases hx
  · cases hx
    exact ⟨_, rfl, h⟩
  · have hhead := congrArg List.head? hx
    rw [Bracket.linked, Bracket.head] at hhead
    split_ifs at hhead
    · simp [h1] at hhead
    · simp [between, h2] at hhead

theorem label?_append_plain (hs : ∀ c ∈ s, IsPlain c) (inner : Bool) (t : Text) :
    (label? inner (s ++ t)).isSome = (label? inner t).isSome := by
  induction s with
  | nil => rfl
  | cons c s ih =>
    obtain ⟨⟨h1, h2, h3⟩, hs⟩ := List.forall_mem_cons.1 hs
    simp [label?, h1, h2, h3, ih hs]

theorem label?_between (hs : ∀ c ∈ s, IsPlain c) (t : Text) :
    (label? false (between '[' s ']' ++ t)).isSome = (label? false t).isSome := by
  simp [between, label?, label?_append_plain hs]

theorem label?_true_of_isLabel {label : Text} (hl : IsLabel label)
    (h : (label? true (label ++ ']' :: t)).isSome) :
    (∀ c ∈ label, IsPlain c) ∧ (label? false t).isSome := by
  induction hl with
  | nil => exact ⟨by simp, by simpa [label?] using h⟩
  | @char c label hc _ ih =>
    have hh := ih (by simpa [label?, hc.1, hc.2.1, hc.2.2] using h)
    exact ⟨List.forall_mem_cons.2 ⟨hc, hh.1⟩, hh.2⟩
  | pair => simp [between, label?] at h

theorem label?_head {b : Bracket} (hb : IsLabel b.label) {inner : Bool}
    (h : (label? inner (b.head ++ t)).isSome) :
    inner = false ∧ (∀ c ∈ b.label, IsPlain c) ∧ (label? false t).isSome := by
  have h' : (label? inner ('[' :: (b.label ++ ']' :: t))).isSome := by
    unfold Bracket.head at h
    split_ifs at h
    · simpa [label?, between] using h
    · simpa [between] using h
  cases inner with
  | true => simp [label?] at h'
  | false => exact ⟨rfl, label?_true_of_isLabel hb (by simpa [label?] using h')⟩

theorem label?_head_of_plain {b : Bracket} (hb : ∀ c ∈ b.label, IsPlain c) (t : Text) :
    (label? false (b.head ++ t)).isSome = (label? false t).isSome := by
  have himage : ∀ c ∈ if b.image then ['!'] else [], IsPlain c := by
    split_ifs <;> simp [IsPlain]
  rw [Bracket.head, List.append_assoc, label?_append_plain himage, label?_between hb]

theorem label?_tail {b : Bracket} (hb : b.WellFormed) {target : Target}
    (hd : IsContained (target.destination (b.fragment.getD []))) (t : Text) :
    (label? false (b.tail ++ t)).isSome = (label? false t).isSome := by
  have hf : (label? false ((b.fragment.elim [] fun f => between '\x7b' f '\x7d') ++ t)).isSome =
      (label? false t).isSome := by
    refine label?_append_plain ?_ false t
    rcases hf : b.fragment with _ | f
    · exact fun _ h => nomatch h
    · have : ∀ c ∈ f, IsPlain c := fun c hc =>
        hd.isPlain c (fragment_subset_destination _ _ (by simpa [hf] using hc))
      simpa [between, IsPlain, or_imp, forall_and] using this
  rw [Bracket.tail, List.append_assoc]
  rcases hr : b.reference with _ | r
  · exact hf
  · rw [Option.elim_some, label?_between (hb.reference r hr), hf]

/-- A label that is read in an expanded line is read in the line as well. -/
theorem label?_isSome_of_linked (h : Linked t t') :
    ∀ inner, (label? inner t').isSome → (label? inner t).isSome := by
  induction h with
  | nil => exact fun _ h => h
  | char c _ ih =>
    intro inner h
    simp only [label?] at h ⊢
    split_ifs at h ⊢ with hn ho hi hc hi
    · exact absurd h Bool.false_ne_true
    · exact absurd h Bool.false_ne_true
    · rw [Option.isSome_map] at h ⊢
      exact ih true h
    · rw [Option.isSome_map] at h ⊢
      exact ih false h
    · rfl
    · rw [Option.isSome_map] at h ⊢
      exact ih inner h
  | @link t t' b target hb hd _ ih =>
    intro inner h
    rw [Bracket.linked, List.append_assoc] at h
    obtain ⟨rfl, hlabel, h⟩ := label?_head hb.label h
    rw [label?_append_plain hd.isPlain] at h
    rw [written_eq, List.append_assoc, label?_head_of_plain hlabel, label?_tail hb hd]
    exact ih false h

/-- A closing brace on an expanded line was on the line before. -/
theorem brace_mem_of_linked (h : Linked t t') (hm : '\x7d' ∈ t') : '\x7d' ∈ t := by
  induction h with
  | nil => exact hm
  | char c _ ih => exact (List.mem_cons.1 hm).elim (fun h => h ▸ List.mem_cons_self) (.tail _ ∘ ih)
  | @link t t' b target hb hd _ ih =>
    simp only [Bracket.linked, written_eq, List.mem_append] at hm ⊢
    rcases hm with (hm | hm) | hm
    · exact .inl (.inl hm)
    · exact absurd hm hd.brace_not_mem
    · exact .inr (ih hm)

theorem newline_not_mem_of_linked (h : Linked t t') (hn : '\n' ∉ t) : '\n' ∉ t' := by
  induction h with
  | nil => exact hn
  | char c _ ih =>
    simp only [List.mem_cons, not_or] at hn ⊢
    exact ⟨hn.1, ih hn.2⟩
  | @link t t' b target _ hd _ ih =>
    simp only [Bracket.linked, written_eq, List.mem_append, not_or] at hn ⊢
    exact ⟨⟨hn.1.1, fun hm => (hd.isPlain _ hm).2.2 rfl⟩, ih hn.2⟩

theorem upTo?_append_isSome {close : Char} {stop : Char → Bool} (hs : ∀ c ∈ s, stop c = false)
    (t : Text) : (upTo? close stop (s ++ t)).isSome ↔ close ∈ s ∨ (upTo? close stop t).isSome := by
  induction s with
  | nil => simp
  | cons c s ih =>
    obtain ⟨hc, hs⟩ := List.forall_mem_cons.1 hs
    by_cases h : c = close
    · simp [upTo?, h]
    · simp [upTo?, h, hc, ih hs, Ne.symm h]

theorem upTo?_brace_of_linked (h : Linked t t') (hs : (upTo? '\x7d' (· == '\n') t').isSome) :
    (upTo? '\x7d' (· == '\n') t).isSome := by
  induction h with
  | nil => exact hs
  | char c _ ih =>
    simp only [upTo?] at hs ⊢
    split_ifs at hs ⊢
    · rfl
    · exact absurd hs Bool.false_ne_true
    · rw [Option.isSome_map] at hs ⊢
      exact ih hs
  | @link t t' b target hb hd _ ih =>
    have line {u : Text} (hu : '\n' ∉ u) : ∀ c ∈ u, (c == '\n') = false := by
      rintro c hc
      rw [beq_eq_false_iff_ne]
      rintro rfl
      exact hu hc
    rw [Bracket.linked, List.append_assoc, upTo?_append_isSome (line (newline_not_mem_head hb)),
      upTo?_append_isSome (fun c hc => by simpa using (hd.isPlain c hc).2.2)] at hs
    rw [written_eq, List.append_assoc, upTo?_append_isSome (line (newline_not_mem_head hb)),
      upTo?_append_isSome (line (newline_not_mem_tail hb))]
    exact hs.imp_right fun hs => .inr (ih (hs.resolve_left hd.brace_not_mem))

theorem fragment?_isSome_of_linked (h : Linked t t') (hs : (fragment? t').isSome) :
    (fragment? t).isSome := by
  unfold fragment? at hs
  split at hs
  · next c rest =>
    split_ifs at hs with hc
    · obtain ⟨u, rfl, hu⟩ := exists_cons_of_linked (by decide) (by decide) h
      have hne : c ≠ '!' ∧ c ≠ '[' := by
        refine ⟨?_, ?_⟩ <;> rintro rfl <;> exact absurd hc (by decide)
      obtain ⟨v, rfl, hv⟩ := exists_cons_of_linked hne.1 hne.2 hu
      simpa only [fragment?, if_pos hc] using upTo?_brace_of_linked (.char c hv) hs
    · exact absurd hs Bool.false_ne_true
  · exact absurd hs Bool.false_ne_true

/-- Reading a reference stops at the first bracket. -/
theorem upTo?_bracket_of_linked (h : Linked t t')
    (hs : (upTo? ']' (fun c => c == '[' || c == '\n') t').isSome) :
    (upTo? ']' (fun c => c == '[' || c == '\n') t).isSome := by
  induction h with
  | nil => exact hs
  | char c _ ih =>
    simp only [upTo?] at hs ⊢
    split_ifs at hs ⊢
    · rfl
    · exact absurd hs Bool.false_ne_true
    · rw [Option.isSome_map] at hs ⊢
      exact ih hs
  | link =>
    simp only [Bracket.linked, Bracket.head] at hs
    split_ifs at hs <;> simp [between, upTo?] at hs

theorem reference?_label {label : Text} (hl : IsLabel label) (t t' : Text) :
    (reference? ('[' :: (label ++ ']' :: t))).isSome =
      (reference? ('[' :: (label ++ ']' :: t'))).isSome := by
  simp only [reference?]
  induction hl with
  | nil => simp [upTo?]
  | char hc _ ih => simpa [upTo?, hc.1, hc.2.1, hc.2.2] using ih
  | pair => simp [between, upTo?]

theorem reference?_isSome_of_linked (h : Linked t t') (hs : (reference? t').isSome) :
    (reference? t).isSome := by
  rcases h with _ | ⟨c, h⟩ | @⟨t, t', b, target, hb, hd, h⟩
  · exact hs
  · by_cases hc : c = '['
    · subst hc
      exact upTo?_bracket_of_linked h hs
    · rw [reference?.eq_2 _ fun _ h => hc (List.cons.inj h).1] at hs
      exact absurd hs Bool.false_ne_true
  · rw [Bracket.linked, List.append_assoc] at hs
    rw [written_eq, List.append_assoc]
    unfold Bracket.head at hs ⊢
    split_ifs at hs ⊢
    · exact absurd hs Bool.false_ne_true
    · simp only [between, List.nil_append, List.cons_append, List.append_assoc] at hs ⊢
      rwa [reference?_label hb.label _ (target.destination (b.fragment.getD []) ++ t')]

theorem after?_isSome_iff {image : Bool} : (Bracket.after? image t).isSome ↔
    (label? false t).isSome ∧ t.head? ≠ some ']' := by
  unfold Bracket.after?
  split
  · next h => simp [h]
  · next u h =>
    refine iff_of_false Bool.false_ne_true fun hs => hs.2 ?_
    rw [← label?_eq h]
    rfl
  · next c label u h =>
    refine iff_of_true rfl ⟨by rw [h]; rfl, fun hc => ?_⟩
    obtain rfl := label?_eq h
    obtain rfl : c = ']' := by simpa using hc
    simp [label?] at h

theorem after?_isSome_of_linked {image : Bool} (h : Linked t t')
    (hs : (Bracket.after? image t').isSome) : (Bracket.after? image t).isSome := by
  rw [after?_isSome_iff] at hs ⊢
  rw [head?_of_linked h] at hs
  exact ⟨label?_isSome_of_linked h false hs.1, hs.2⟩

/-- A bracket that is read behind a character of an expanded line was read there before. -/
theorem read?_isSome_of_linked {c : Char} (h : Linked t t')
    (hs : (Bracket.read? (c :: t')).isSome) : (Bracket.read? (c :: t)).isSome := by
  unfold Bracket.read? at hs
  split at hs
  · next u' he =>
    obtain ⟨rfl, rfl⟩ := List.cons.inj he
    generalize hu : '[' :: u' = x at h
    rcases h with _ | ⟨c, h⟩ | @⟨t, t', b, target, hb, hd, h⟩
    · cases hu
    · cases hu
      exact after?_isSome_of_linked h hs
    · have himage : b.image = false := by
        rcases hi : b.image with _ | _
        · rfl
        · simp [Bracket.linked, Bracket.head, hi] at hu
      rw [written_eq, List.append_assoc, Bracket.head, himage]
      simp only [Bool.false_eq_true, if_false, between, List.nil_append, List.cons_append,
        List.append_assoc, Bracket.read?]
      rw [after?_isSome_iff, label?_of_isLabel hb.label]
      refine ⟨rfl, ?_⟩
      obtain ⟨d, label, hl, hne⟩ := exists_cons_of_isLabel hb.label hb.label_ne_nil
      simpa [hl] using hne
  · next u' he =>
    obtain ⟨rfl, rfl⟩ := List.cons.inj he
    exact after?_isSome_of_linked h hs
  · exact absurd hs Bool.false_ne_true

end Readers

section Rereading

/-- Whether segments are what is read of their text. -/
def IsRead (segs : List Segment) : Prop :=
  segments (segs.flatMap Segment.written) = segs

/-- The first brackets of a reference, as a reference of their own. -/
def Bracket.first (b : Bracket) : Bracket :=
  ⟨b.image, b.label, none, none⟩

/-- What a bracket is read as after a decision on it. -/
def Edit.segments (b : Bracket) : Edit → List Segment
  | .keep _ => [.bracket b]
  | .link _ target =>
    .bracket b.first :: (target.destination (b.fragment.getD [])).map Segment.char

/-- The segments of the line that `Table.edit` makes of segments. -/
def Table.reread (table : Table) (spans : List Span) (kept : Nat) (before : Text) :
    List Segment → List Segment
  | [] => []
  | .char c :: rest => .char c :: table.reread spans kept (c :: before) rest
  | .bracket b :: rest =>
    let here := table.decide spans kept before b (rest.flatMap Segment.written)
    here.edit.segments b ++ table.reread spans here.kept (b.written.reverse ++ before) rest

/-- The links that are made of segments. -/
def Table.Links (table : Table) (spans : List Span) (kept : Nat) (before : Text)
    (segs : List Segment) (P : Bracket → Target → Prop) : Prop :=
  ∀ b target, .link b target ∈ (table.edit spans kept before segs).edits → P b target

variable {table : Table} {spans : List Span}

theorem isRead_segments (line : Text) : IsRead (segments line) :=
  congrArg segments (written_segments line)

theorem isRead_char {c : Char} {segs : List Segment} : IsRead (.char c :: segs) ↔
    Bracket.read? (c :: segs.flatMap Segment.written) = none ∧ IsRead segs := by
  rw [IsRead, List.flatMap_cons, Segment.written, List.singleton_append, segments]
  split
  · next b rest h => simp [h]
  · next h => simp [h, IsRead]

theorem isRead_bracket {b : Bracket} {segs : List Segment} : IsRead (.bracket b :: segs) ↔
    Bracket.read? (b.written ++ segs.flatMap Segment.written) =
      some (b, segs.flatMap Segment.written) ∧ IsRead segs := by
  rw [IsRead, List.flatMap_cons, Segment.written]
  generalize ht : b.written ++ segs.flatMap Segment.written = t
  rcases t with _ | ⟨c, t⟩
  · exact absurd (List.append_eq_nil_iff.1 ht).1 b.written_ne_nil
  rw [segments]
  split
  · next b' rest h =>
    rw [h]
    simp only [List.cons.injEq, Segment.bracket.injEq, Option.some.injEq, Prod.mk.injEq]
    constructor
    · rintro ⟨rfl, rfl⟩
      rw [written_segments]
      exact ⟨⟨rfl, rfl⟩, isRead_segments rest⟩
    · rintro ⟨⟨rfl, rfl⟩, hs⟩
      exact ⟨rfl, hs⟩
  · next h => simp [h]

theorem written_first (b : Bracket) : b.first.written = b.head := by
  simp only [Bracket.written, Bracket.first, Option.elim_none, List.append_nil]
  rfl

theorem wellFormed_first {b : Bracket} (hb : b.WellFormed) : b.first.WellFormed where
  label_ne_nil := hb.label_ne_nil
  label := hb.label
  reference _ hr := nomatch hr
  fragment _ hf := nomatch hf

theorem written_map_char (t : Text) : (t.map Segment.char).flatMap Segment.written = t := by
  induction t with
  | nil => rfl
  | cons c t ih => simpa [Segment.written] using ih

theorem written_segments_edit (b : Bracket) (table : Table) (spans : List Span) (kept : Nat)
    (before after : Text) :
    ((table.decide spans kept before b after).edit.segments b).flatMap Segment.written =
      (table.decide spans kept before b after).edit.after := by
  have hb := before_decide table spans kept before b after
  rcases he : (table.decide spans kept before b after).edit with t | ⟨b', target⟩
  · rw [he, Edit.before] at hb
    simp [Edit.segments, Segment.written, Edit.after, hb]
  · obtain ⟨rfl, -⟩ := decide_eq_link.1 he
    simp [Edit.segments, Segment.written, Edit.after, Bracket.linked, written_first,
      written_map_char]

theorem written_reread : ∀ (segs : List Segment) (kept : Nat) (before : Text),
    (table.reread spans kept before segs).flatMap Segment.written =
      (table.edit spans kept before segs).edits.flatMap Edit.after
  | [], _, _ => rfl
  | .char c :: rest, kept, before => by
    simp [Table.reread, Table.edit, Segment.written, Edit.after, written_reread rest]
  | .bracket b :: rest, kept, before => by
    simp [Table.reread, Table.edit, written_segments_edit, written_reread rest]

/-- Characters that begin no bracket are read one by one, also where a bracket follows. -/
theorem isRead_chars {segs : List Segment} (hs : IsRead segs) :
    ∀ d : Text, '[' ∉ d → IsRead ((d ++ [')']).map Segment.char ++ segs)
  | [], _ => isRead_char.2 ⟨rfl, hs⟩
  | c :: d, hd => by
    simp only [List.mem_cons, not_or] at hd
    rw [List.cons_append, List.map_cons, List.cons_append, isRead_char, List.flatMap_append,
      written_map_char]
    refine ⟨?_, isRead_chars hs d hd.2⟩
    unfold Bracket.read?
    split
    · next t h =>
      have hne : '[' ∉ d ++ [')'] := by simpa using hd.2
      rcases hx : d ++ [')'] with _ | ⟨x, xs⟩
      · simp at hx
      · rw [hx] at h hne
        simp only [List.cons_append, List.cons.injEq] at h
        exact absurd h.2.1 fun h => hne (h ▸ List.mem_cons_self)
    · next t h => exact absurd (List.cons.inj h).1 (Ne.symm hd.1)
    · rfl

theorem isRead_destination {segs : List Segment} (hs : IsRead segs) {target : Target}
    {fragment : Text} (hd : IsContained (target.destination fragment)) :
    IsRead ((target.destination fragment).map Segment.char ++ segs) := by
  obtain ⟨title, h, -⟩ := exists_destination target fragment
  rw [← List.append_assoc, ← List.append_assoc, ← List.cons_append] at h
  rw [h]
  refine isRead_chars hs _ fun hm => (hd.isPlain '[' ?_).1 rfl
  rw [h]
  exact List.mem_append_left _ hm

section Tails

variable {kept : Nat} {before : Text} {rest : List Segment} {P : Bracket → Target → Prop}

theorem Table.Links.tail_char {c : Char}
    (h : table.Links spans kept before (.char c :: rest) P) :
    table.Links spans kept (c :: before) rest P :=
  fun b target hb => h b target (.tail _ hb)

theorem Table.Links.tail_bracket {b : Bracket}
    (h : table.Links spans kept before (.bracket b :: rest) P) :
    table.Links spans (table.decide spans kept before b (rest.flatMap Segment.written)).kept
      (b.written.reverse ++ before) rest P :=
  fun b target hb => h b target (.tail _ hb)

theorem Table.Links.head {b b' : Bracket} {target : Target}
    (h : table.Links spans kept before (.bracket b :: rest) P)
    (he : (table.decide spans kept before b (rest.flatMap Segment.written)).edit =
      .link b' target) : P b' target :=
  h b' target (by rw [← he]; exact List.mem_cons_self)

end Tails

/-- Whether the links that are made of segments have contained destinations. -/
def Table.Contains (table : Table) (spans : List Span) (kept : Nat) (before : Text)
    (segs : List Segment) : Prop :=
  table.Links spans kept before segs fun b target =>
    IsContained (target.destination (b.fragment.getD []))

theorem linked_edit : ∀ (segs : List Segment) (kept : Nat) (before : Text),
    (∀ b, .bracket b ∈ segs → b.WellFormed) → table.Contains spans kept before segs →
    Linked (segs.flatMap Segment.written)
      ((table.edit spans kept before segs).edits.flatMap Edit.after)
  | [], _, _, _, _ => .nil
  | .char c :: rest, kept, before, hwf, hd =>
    .char c (linked_edit rest kept (c :: before) (fun b hb => hwf b (.tail _ hb)) hd.tail_char)
  | .bracket b :: rest, kept, before, hwf, hd => by
    have ih := linked_edit rest _ (b.written.reverse ++ before) (fun b hb => hwf b (.tail _ hb))
      hd.tail_bracket
    simp only [Table.edit, List.flatMap_cons, Segment.written]
    have hb := before_decide table spans kept before b (rest.flatMap Segment.written)
    rcases he : (table.decide spans kept before b (rest.flatMap Segment.written)).edit with
      t | ⟨b', target⟩
    · rw [he, Edit.before] at hb
      rw [hb]
      exact linked_append ih b.written
    · obtain ⟨rfl, -⟩ := decide_eq_link.1 he
      exact .link (hwf b' List.mem_cons_self) (hd.head he) ih

/-- An expanded line is read as the line was, but for the brackets that have become links. -/
theorem isRead_reread : ∀ (segs : List Segment) (kept : Nat) (before : Text), IsRead segs →
    (∀ b, .bracket b ∈ segs → b.WellFormed) → table.Contains spans kept before segs →
    IsRead (table.reread spans kept before segs)
  | [], _, _, h, _, _ => h
  | .char c :: rest, kept, before, h, hwf, hd => by
    obtain ⟨hc, hrest⟩ := isRead_char.1 h
    have hwf b (hb : .bracket b ∈ rest) := hwf b (.tail _ hb)
    refine isRead_char.2 ⟨?_, isRead_reread rest kept (c :: before) hrest hwf hd.tail_char⟩
    rw [written_reread, ← Option.not_isSome_iff_eq_none]
    intro hs
    have := read?_isSome_of_linked (linked_edit rest kept (c :: before) hwf hd.tail_char) hs
    simp [hc] at this
  | .bracket b :: rest, kept, before, h, hwf, hd => by
    obtain ⟨hb, hrest⟩ := isRead_bracket.1 h
    have hwfb := hwf b List.mem_cons_self
    have hwf b (hb : .bracket b ∈ rest) := hwf b (.tail _ hb)
    have ih := isRead_reread rest _ (b.written.reverse ++ before) hrest hwf hd.tail_bracket
    have hlinked := linked_edit rest _ (b.written.reverse ++ before) hwf hd.tail_bracket
    rw [← written_reread] at hlinked
    simp only [Table.reread]
    rcases he : (table.decide spans kept before b (rest.flatMap Segment.written)).edit with
      t | ⟨b', target⟩
    · obtain ⟨hr, hf⟩ := (read?_written_iff hwfb).1 hb
      refine isRead_bracket.2 ⟨(read?_written_iff hwfb).2 ⟨fun h => ?_, fun h => ?_⟩, ih⟩
      · rw [← Option.not_isSome_iff_eq_none]
        intro hs
        have := reference?_isSome_of_linked (linked_append hlinked b.tail) hs
        simp [hr h] at this
      · rw [← Option.not_isSome_iff_eq_none]
        intro hs
        have := fragment?_isSome_of_linked hlinked hs
        simp [hf h] at this
    · obtain ⟨rfl, -⟩ := decide_eq_link.1 he
      obtain ⟨title, h, -⟩ := exists_destination target (b'.fragment.getD [])
      rw [Edit.segments, List.cons_append, isRead_bracket, List.flatMap_append, written_map_char,
        read?_written_iff (wellFormed_first hwfb)]
      exact ⟨⟨fun _ => by rw [h]; rfl, fun _ => by rw [h]; rfl⟩, isRead_destination ih (hd.head he)⟩

end Rereading

end TidyMark.Reflink
