import TidyMark.Proofs.Backtick
import TidyMark.Proofs.Scan
import TidyMark.Proofs.Splice

/-!
# Expansion keeps what is code

An expanded line differs from the line only in brackets that meet no code span (`Table.Relinks`).
From this it follows that the scanner sees no difference (`unseen_expandedText`), so that the lines
of the expanded source are the expanded lines. Where no target has a backtick, the code spans of a
line are also what is found when the expanded line is scanned again (`codeTextsFrom_of_relinks`).
-/

namespace TidyMark.Reflink

open Text

def Target.Avoids (target : Target) (c : Char) : Prop :=
  c ∉ target.url ∧ ∀ title ∈ target.title, c ∉ title

/-- Whether no address and no title in a table has a character. -/
def Table.Avoids (table : Table) (c : Char) : Prop :=
  ∀ e ∈ table.entries, e.2.Avoids c

/-- Texts, the first of which begins at `place`, that are the same but for brackets which meet none
of the spans and have become links. -/
inductive Table.Relinks (table : Table) (spans : List Span) : Nat → Text → Text → Prop
  | nil {place : Nat} : table.Relinks spans place [] []
  | char {place : Nat} {t t' : Text} (c : Char) (h : table.Relinks spans (place + 1) t t') :
      table.Relinks spans place (c :: t) (c :: t')
  | link {place : Nat} {t t' : Text} {b : Bracket} {target : Target}
      (hs : ∀ s ∈ spans, s.meets place (place + b.written.length) = false)
      (hr : table.resolve b.key = some target)
      (h : table.Relinks spans (place + b.written.length) t t') :
      table.Relinks spans place (b.written ++ t) (b.linked target ++ t')

section Linked

variable {table : Table} {b : Bracket} {target : Target}

theorem avoids_of_resolve {c : Char} (h : table.Avoids c) {label : Text}
    (hr : table.resolve label = some target) : target.Avoids c := by
  unfold Table.resolve at hr
  split at hr
  · next l t hf =>
    cases hr
    exact h _ (List.mem_of_find?_eq_some hf)
  · obtain ⟨e, hf, rfl⟩ := Option.map_eq_some_iff.1 hr
    exact h _ (List.mem_of_find?_eq_some hf)

theorem exists_destination (target : Target) (fragment : Text) : ∃ title : Text,
    target.destination fragment = '(' :: (target.url ++ (fragment ++ (title ++ [')']))) ∧
      ∀ c, target.Avoids c → c ≠ '(' → c ≠ ')' → c ≠ ' ' → c ≠ '"' → c ∉ title := by
  unfold Target.destination
  rcases ht : target.title with _ | title
  · exact ⟨[], by simp, by simp⟩
  · dsimp only
    split_ifs
    · refine ⟨" (".toList ++ title ++ [')'], by simp, fun c hc h1 h2 h3 _ => ?_⟩
      have := hc.2 title (by simp [ht])
      simp [*]
    · refine ⟨" \"".toList ++ title ++ ['"'], by simp, fun c hc _ _ h3 h4 => ?_⟩
      have := hc.2 title (by simp [ht])
      simp [*]

theorem exists_head (b : Bracket) : ∃ p r, b.head = p ++ '[' :: r :=
  ⟨if b.image then ['!'] else [], b.label ++ [']'], rfl⟩

theorem exists_written (b : Bracket) : ∃ r, b.written = b.head ++ r :=
  ⟨_, List.append_assoc _ _ _⟩

theorem getLast?_linked (b : Bracket) (target : Target) :
    (b.linked target).getLast? = some ')' := by
  obtain ⟨title, hd, -⟩ := exists_destination target (b.fragment.getD [])
  rw [Bracket.linked, hd]
  simp only [← List.append_assoc, ← List.cons_append, List.getLast?_concat]

theorem mem_written_of_mem_fragment {c : Char} (hc : c ∈ b.fragment.getD []) : c ∈ b.written := by
  rcases hf : b.fragment with _ | f
  · simp [hf] at hc
  · rw [hf, Option.getD_some] at hc
    simp [Bracket.written, between, hf, hc]

theorem not_mem_linked {c : Char} (ht : target.Avoids c) (hc : c ∉ "() \"".toList)
    (hb : c ∉ b.written) : c ∉ b.linked target := by
  simp only [String.reduceToList, List.mem_cons, List.not_mem_nil, or_false, not_or] at hc
  obtain ⟨title, hd, htitle⟩ := exists_destination target (b.fragment.getD [])
  have h1 : c ∉ b.head := fun h => hb (by simp [Bracket.written, h])
  have h2 : c ∉ b.fragment.getD [] := fun h => hb (mem_written_of_mem_fragment h)
  have h3 := htitle c ht hc.1 hc.2.1 hc.2.2.1 hc.2.2.2
  rw [Bracket.linked, hd]
  simp [h1, h2, h3, ht.1, hc.1, hc.2.1]

end Linked

section Relinking

variable {table : Table} {spans : List Span}

theorem relinks_append {place : Nat} {t t' : Text} : ∀ u : Text,
    table.Relinks spans (place + u.length) t t' → table.Relinks spans place (u ++ t) (u ++ t')
  | [], h => h
  | c :: u, h => by
    refine .char c (relinks_append u ?_)
    rwa [List.length_cons, Nat.add_comm u.length, ← Nat.add_assoc] at h

theorem relinks_self (place : Nat) (t : Text) : table.Relinks spans place t t := by
  have h : table.Relinks spans place (t ++ []) (t ++ []) := relinks_append t .nil
  rwa [List.append_nil] at h

theorem relinks_edit : ∀ (segs : List Segment) (kept : Nat) (before : Text),
    table.Relinks spans before.length (segs.flatMap Segment.written)
      ((table.edit spans kept before segs).edits.flatMap Edit.after)
  | [], _, _ => .nil
  | .char c :: rest, kept, before => by
    simp only [Table.edit, List.flatMap_cons, Segment.written, Edit.after, List.singleton_append]
    exact .char c (by simpa using relinks_edit rest kept (c :: before))
  | .bracket b :: rest, kept, before => by
    have hb := before_decide table spans kept before b (rest.flatMap Segment.written)
    have ih := relinks_edit rest
      (table.decide spans kept before b (rest.flatMap Segment.written)).kept
      (b.written.reverse ++ before)
    rw [List.length_append, List.length_reverse, Nat.add_comm] at ih
    simp only [Table.edit, List.flatMap_cons, Segment.written]
    rcases he : (table.decide spans kept before b (rest.flatMap Segment.written)).edit with t | ⟨b', target⟩
    · rw [he, Edit.before] at hb
      rw [hb]
      exact relinks_append b.written ih
    · obtain ⟨rfl, -, hs, -, hr⟩ := decide_eq_link.1 he
      exact .link hs hr ih

theorem relinks_expandLine (line : Text) : table.Relinks (codeSpans line) 0 line
    ((table.expandLine line).edits.flatMap Edit.after) := by
  have h : table.Relinks (codeSpans line) 0 ((segments line).flatMap Segment.written) _ :=
    relinks_edit (segments line) 0 []
  rwa [written_segments] at h

theorem sameStart_of_relinks {place : Nat} {t t' : Text} (h : table.Relinks spans place t t') :
    SameStart t t' := by
  induction h with
  | nil => exact .inl rfl
  | char c _ ih => exact sameStart_append [c] ih
  | @link place t t' b target _ _ _ _ =>
    obtain ⟨p, r, hp⟩ := exists_head b
    obtain ⟨w, hw⟩ := exists_written b
    refine .inr ⟨p, r ++ w ++ t, r ++ target.destination (b.fragment.getD []) ++ t', ?_, ?_⟩
    · simp [hw, hp]
    · simp [Bracket.linked, hp]

theorem not_mem_of_relinks {c : Char} (ht : table.Avoids c) (hc : c ∉ "() \"".toList) {place : Nat}
    {t t' : Text} (h : table.Relinks spans place t t') (hn : c ∉ t) : c ∉ t' := by
  induction h with
  | nil => exact hn
  | char c _ ih =>
    simp only [List.mem_cons, not_or] at hn ⊢
    exact ⟨hn.1, ih hn.2⟩
  | link _ hr _ ih =>
    simp only [List.mem_append, not_or] at hn ⊢
    exact ⟨not_mem_linked (avoids_of_resolve ht hr) hc hn.1, ih hn.2⟩

theorem getLast?_of_relinks {place : Nat} {t t' : Text} (h : table.Relinks spans place t t') :
    t'.getLast? = t.getLast? ∨ t'.getLast? = some ')' := by
  induction h with
  | nil => exact .inl rfl
  | @char place t t' c h ih =>
    rcases ih with ih | ih
    · rw [List.getLast?_cons, List.getLast?_cons, ih]
      exact .inl rfl
    · exact .inr (by rw [List.getLast?_cons, ih]; rfl)
  | @link place t t' b target _ _ h ih =>
    rw [List.getLast?_append, List.getLast?_append, getLast?_linked]
    rcases ih with ih | ih
    · rcases hl : t.getLast? with _ | c
      · exact .inr (by rw [ih, hl]; rfl)
      · exact .inl (by rw [ih, hl]; rfl)
    · exact .inr (by rw [ih]; rfl)

end Relinking

section Seen

variable {table : Table}

def Table.expandedText (table : Table) (line : Line) : Text :=
  (table.expandIn line).edits.flatMap Edit.after

theorem expandedText_of_fixed {line : Line}
    (h : line.inCode = true ∨ isDefinition line.text = true) :
    table.expandedText line = line.text := by
  have hf : line.isFixed = true := by simpa [Line.isFixed] using h
  simp [Table.expandedText, Table.expandIn, hf, Edit.after]

theorem relinks_expandedText (table : Table) (line : Line) :
    table.Relinks (codeSpans line.text) 0 line.text (table.expandedText line) := by
  by_cases h : line.inCode = true ∨ isDefinition line.text = true
  · rw [expandedText_of_fixed h]
    exact relinks_self 0 line.text
  · have hf : ¬ line.isFixed = true := by simpa [Line.isFixed] using h
    rw [Table.expandedText, Table.expandIn, if_neg hf]
    exact relinks_expandLine line.text

theorem unseen_expandedText (ht : table.Avoids '\n') : Unseen table.expandedText where
  code line h := expandedText_of_fixed (.inl h)
  sameStart line := sameStart_of_relinks (relinks_expandedText table line)
  isLine line hl := by
    have h := relinks_expandedText table line
    refine ⟨not_mem_of_relinks ht (by decide) h hl.no_newline, ?_, hl.ending⟩
    rcases getLast?_of_relinks h with he | he <;> rw [he]
    · exact hl.no_return
    · decide

theorem expandLenient_eq_flatten (table : Table) (source : Text) :
    table.expandLenient source = (changed table.expandedText (Line.ofSource source)).flatten := by
  rw [← flatMap_after_edits, Table.edits, List.flatMap_assoc, changed, ← List.flatMap_def]
  refine List.flatMap_congr fun line _ => ?_
  simp [Table.editsIn, Table.expandedText, Edit.after]

/-- The lines of the expanded source are the lines of the source, expanded. -/
theorem ofSource_expandLenient (ht : table.Avoids '\n') (source : Text) :
    Line.ofSource (table.expandLenient source) =
      (Line.ofSource source).map fun line => line.withText (table.expandedText line) := by
  rw [expandLenient_eq_flatten, ofSource_changed (unseen_expandedText ht)]

end Seen

section Covering

variable {table : Table} {spans : List Span}

/-- Inside a span, relinked texts are the same up to where it ends. -/
theorem exists_found {s : Span} (hs : s ∈ spans) {place : Nat} {t t' : Text}
    (h : table.Relinks spans place t t') :
    s.start ≤ place → place ≤ s.stop → s.stop ≤ place + t.length →
      ∃ found u u', t = found ++ u ∧ t' = found ++ u' ∧ s.stop = place + found.length ∧
        table.Relinks spans s.stop u u' := by
  induction h with
  | @nil place =>
    intro _ h1 h2
    obtain rfl : place = s.stop := Nat.le_antisymm h1 h2
    exact ⟨[], [], [], rfl, rfl, rfl, .nil⟩
  | @char place t t' c h ih =>
    intro h0 h1 h2
    by_cases he : place = s.stop
    · subst he
      exact ⟨[], _, _, rfl, rfl, rfl, .char c h⟩
    · rw [List.length_cons] at h2
      obtain ⟨found, u, u', rfl, rfl, hf, hr⟩ := ih (by omega) (by omega) (by omega)
      exact ⟨c :: found, u, u', rfl, rfl, by rw [List.length_cons]; omega, hr⟩
  | @link place t t' b target hb hk h ih =>
    intro h0 h1 h2
    by_cases he : place = s.stop
    · subst he
      exact ⟨[], _, _, rfl, rfl, rfl, .link hb hk h⟩
    · have hm := hb s hs
      have hpos := List.length_pos_iff.2 b.written_ne_nil
      simp only [Span.meets, Bool.and_eq_false_iff, decide_eq_false_iff_not] at hm
      omega

end Covering

section Ticks

theorem endsRun_between (opening closing : Char) (hc : closing ≠ '`') (t : Text) :
    EndsRun (between opening t closing) :=
  ⟨opening :: t, closing, rfl, hc⟩

theorem endsRun_append (u : Text) {t : Text} (ht : EndsRun t) : EndsRun (u ++ t) := by
  obtain ⟨v, c, rfl, hc⟩ := ht
  exact ⟨u ++ v, c, (List.append_assoc _ _ _).symm, hc⟩

theorem endsRun_head (b : Bracket) : EndsRun b.head :=
  endsRun_append _ (endsRun_between _ _ (by decide) b.label)

theorem endsRun_reference (b : Bracket) :
    EndsRun (b.head ++ (b.reference.elim [] fun r => between '[' r ']')) := by
  rcases b.reference with _ | r
  · simpa using endsRun_head b
  · exact endsRun_append _ (endsRun_between _ _ (by decide) r)

theorem endsRun_written (b : Bracket) : EndsRun b.written := by
  unfold Bracket.written
  rcases b.fragment with _ | f
  · simpa using endsRun_reference b
  · exact endsRun_append _ (endsRun_between _ _ (by decide) f)

theorem endsRun_linked (b : Bracket) (target : Target) : EndsRun (b.linked target) := by
  obtain ⟨title, hd, -⟩ := exists_destination target (b.fragment.getD [])
  rw [Bracket.linked, hd]
  refine ⟨b.head ++ '(' :: (target.url ++ (b.fragment.getD [] ++ title)), ')', ?_, by decide⟩
  simp

theorem noTick_head (b : Bracket) (t : Text) : NoTick (b.head ++ t) := by
  unfold Bracket.head NoTick
  split_ifs <;> simp [between]

theorem noTick_written (b : Bracket) (t : Text) : NoTick (b.written ++ t) := by
  obtain ⟨r, hr⟩ := exists_written b
  rw [hr, List.append_assoc]
  exact noTick_head b _

theorem noTick_linked (b : Bracket) (target : Target) (t : Text) :
    NoTick (b.linked target ++ t) := by
  rw [Bracket.linked, List.append_assoc]
  exact noTick_head b _

theorem widths_between {opening closing : Char} (ho : opening ≠ '`') (hc : closing ≠ '`')
    (t : Text) : widths (between opening t closing) = widths t := by
  rw [between, List.cons_append, widths_cons ho, widths_concat hc]

theorem widths_written (b : Bracket) : ∃ dropped,
    widths b.written = widths b.head ++ dropped ++ widths (b.fragment.getD []) := by
  refine ⟨widths (b.reference.elim [] fun r => between '[' r ']'), ?_⟩
  rw [Bracket.written, widths_append (endsRun_reference b), widths_append (endsRun_head b)]
  rcases b.fragment with _ | f
  · rfl
  · rw [Option.elim_some, widths_between (by decide) (by decide), Option.getD_some]

theorem widths_linked (b : Bracket) {target : Target} (ht : target.Avoids '`') :
    widths (b.linked target) = widths b.head ++ widths (b.fragment.getD []) := by
  obtain ⟨title, hd, htitle⟩ := exists_destination target (b.fragment.getD [])
  have hn := htitle '`' ht (by decide) (by decide) (by decide) (by decide)
  rw [Bracket.linked, widths_append (endsRun_head b), hd, widths_cons (by decide),
    widths_append_of_not_mem ht.1, ← List.append_assoc, widths_concat (by decide),
    widths_append_right hn]

theorem sublist_widths_linked (b : Bracket) {target : Target} (ht : target.Avoids '`') :
    (widths (b.linked target)).Sublist (widths b.written) := by
  obtain ⟨dropped, hw⟩ := widths_written b
  rw [widths_linked b ht, hw, List.append_assoc]
  exact List.Sublist.append_left (List.sublist_append_right _ _) _

end Ticks

section Rescan

variable {table : Table} {spans : List Span}

theorem noTick_of_relinks {place : Nat} {t t' : Text} (h : table.Relinks spans place t t')
    (ht : NoTick t) : NoTick t' := by
  rcases h with _ | ⟨c, h⟩ | ⟨hs, hr, h⟩
  · exact ht
  · exact ht
  · exact noTick_linked _ _ _

theorem mem_runs_of_relinks (ha : table.Avoids '`') {place : Nat} {t t' : Text}
    (h : table.Relinks spans place t t') {n : Nat} :
    ∀ {run : Nat}, n + 1 ∈ runs run t' → n + 1 ∈ runs run t := by
  induction h with
  | nil => exact fun h => h
  | char c _ ih =>
    intro run hm
    simp only [runs] at hm ⊢
    split_ifs at hm ⊢ with hc
    · exact ih hm
    · exact (List.mem_cons.1 hm).elim (fun h => h ▸ List.mem_cons_self) fun h => .tail _ (ih h)
  | @link place t t' b target _ hr _ ih =>
    intro run hm
    rw [succ_mem_runs (noTick_linked _ _ _), widths_append (endsRun_linked _ _),
      List.mem_append] at hm
    rw [succ_mem_runs (noTick_written _ _), widths_append (endsRun_written _), List.mem_append]
    rcases hm with hm | hm | hm
    · exact .inl hm
    · exact .inr (.inl ((sublist_widths_linked b (avoids_of_resolve ha hr)).subset hm))
    · exact .inr (.inr (succ_mem_widths.2 (ih (succ_mem_widths.1 hm))))

/-- Where a character that begins no bracket stands first, it is in none that has become a link. -/
theorem exists_cons_of_relinks {c : Char} (h1 : c ≠ '!') (h2 : c ≠ '[') {place : Nat} {t t' : Text}
    (h : table.Relinks spans place (c :: t) t') :
    ∃ u', t' = c :: u' ∧ table.Relinks spans (place + 1) t u' := by
  generalize ht : c :: t = x at h
  rcases h with _ | ⟨c, h⟩ | @⟨_, u, _, b, _, hs, hr, h⟩
  · cases ht
  · cases ht
    exact ⟨_, rfl, h⟩
  · obtain ⟨r, hw⟩ := exists_written b
    have hhead := congrArg List.head? ht
    rw [hw, Bracket.head] at hhead
    split_ifs at hhead
    · simp [h1] at hhead
    · simp [between, h2] at hhead

/-- A run of backticks is in no bracket that has become a link. -/
theorem exists_run_of_relinks : ∀ {n place : Nat} {t t' : Text},
    table.Relinks spans place (List.replicate n '`' ++ t) t' →
      ∃ u', t' = List.replicate n '`' ++ u' ∧ table.Relinks spans (place + n) t u'
  | 0, _, _, t', h => ⟨t', rfl, h⟩
  | n + 1, place, t, t', h => by
    obtain ⟨v', rfl, hv⟩ := exists_cons_of_relinks (by decide) (by decide) h
    obtain ⟨u', rfl, hu⟩ := exists_run_of_relinks hv
    rw [Nat.add_assoc, Nat.add_comm 1] at hu
    exact ⟨u', rfl, hu⟩

theorem codeSpansFrom_link (ha : table.Avoids '`') {place : Nat} {t t' : Text} {b : Bracket}
    {target : Target}
    (hs : ∀ s ∈ codeSpansFrom place (b.written ++ t),
      s.meets place (place + b.written.length) = false)
    (hr : table.resolve b.key = some target)
    (h : table.Relinks spans (place + b.written.length) t t') (place' : Nat) :
    codeSpansFrom place (b.written ++ t) = codeSpansFrom (place + b.written.length) t ∧
      codeSpansFrom place' (b.linked target ++ t') =
        codeSpansFrom (place' + (b.linked target).length) t' := by
  have hsub := sublist_widths_linked b (avoids_of_resolve ha hr)
  obtain ⟨v, c, hv, hc⟩ := endsRun_written b
  obtain ⟨v', c', hv', hc'⟩ := endsRun_linked b target
  have hidle : Idle v t := by
    refine idle_of_spans hc t v place fun s hm => ?_
    rw [List.append_cons, ← hv] at hm
    have hbound := (within_codeSpansFrom _ place).of_mem hm
    have := hs s hm
    rw [hv, List.length_append, List.length_singleton] at this
    simp only [Span.meets, Bool.and_eq_false_iff, decide_eq_false_iff_not] at this
    omega
  have hidle' : Idle v' t' := by
    rw [hv, hv', widths_concat hc, widths_concat hc'] at hsub
    refine ⟨hidle.1.sublist hsub, fun n hn hn' => ?_⟩
    rcases n with _ | n
    · simp [widths] at hn
    · have hm := mem_runs_of_relinks ha h (succ_mem_widths.1 hn')
      exact hidle.2 (hsub.subset hn) (succ_mem_widths.2 hm)
  constructor
  · have := codeSpansFrom_of_idle hc t v place hidle
    rwa [List.append_cons, ← hv, ← List.length_concat, List.concat_eq_append, ← hv] at this
  · have := codeSpansFrom_of_idle hc' t' v' place' hidle'
    rwa [List.append_cons, ← hv', ← List.length_concat, List.concat_eq_append, ← hv'] at this

/-- Scanning a relinked text again finds the code spans that were found before. -/
theorem codeTextsFrom_of_relinks (ha : table.Avoids '`') {place place' : Nat} {t t' : Text}
    (h : table.Relinks spans place t t') (hsub : ∀ s ∈ codeSpansFrom place t, s ∈ spans) :
    codeTextsFrom place' t' = codeTextsFrom place t := by
  induction hl : t.length using Nat.strongRecOn generalizing place place' t t' with
  | _ m ih =>
    obtain ⟨n, rest, rfl, hrest⟩ := exists_run t
    rcases n with _ | n
    · rw [List.replicate_zero, List.nil_append] at *
      rcases h with _ | ⟨c, h⟩ | @⟨_, u, u', b, target, hs, hr, h⟩
      · simp [codeTextsFrom]
      · have hc : c ≠ '`' := by simpa [NoTick] using hrest
        rw [codeSpansFrom_cons hc] at hsub
        rw [List.length_cons] at hl
        rw [codeTextsFrom_cons hc, codeTextsFrom_cons hc]
        exact ih _ (by omega) h hsub rfl
      · obtain ⟨h1, h2⟩ := codeSpansFrom_link ha (fun s hm => hs s (hsub s hm)) hr h place'
        rw [h1] at hsub
        have := List.length_pos_iff.2 b.written_ne_nil
        rw [List.length_append] at hl
        rw [codeTextsFrom_append h1, codeTextsFrom_append h2]
        exact ih u.length (by omega) h hsub rfl
    · obtain ⟨rest', rfl, hr⟩ := exists_run_of_relinks h
      have hrest' := noTick_of_relinks hr hrest
      rw [List.length_append, List.length_replicate] at hl
      rcases not_mem_or_closes n rest with hn | ⟨w, u, rfl, hu, hw⟩
      · have hn' : n + 1 ∉ widths rest' := fun hm =>
          hn (succ_mem_widths.2 (mem_runs_of_relinks ha hr (succ_mem_widths.1 hm)))
        rw [codeSpansFrom_of_not_mem hrest hn] at hsub
        rw [codeTextsFrom_of_not_mem hrest hn, codeTextsFrom_of_not_mem hrest' hn']
        exact ih rest.length (by omega) hr hsub rfl
      · rw [codeSpansFrom_of_closes hw hrest hu] at hsub
        obtain ⟨w', v, v', hwv, rfl, hstop, hv⟩ := exists_found (hsub _ List.mem_cons_self) hr
          (by simp only; omega) (by simp only; omega) (by simp only [List.length_append]; omega)
        obtain ⟨rfl, rfl⟩ := List.append_inj hwv (by simp only at hstop; omega)
        rw [List.length_append] at hl
        rw [codeTextsFrom_of_closes hw hrest hu,
          codeTextsFrom_of_closes hw hrest' (noTick_of_relinks hv hu)]
        congr 1
        exact ih u.length (by omega) hv (fun s hm => hsub s (.tail _ hm)) rfl

end Rescan

end TidyMark.Reflink
