import Mathlib.Algebra.Ring.Nat
import TidyMark.Proofs.CodeKept
import TidyMark.Proofs.Resolution

/-!
# Code spans and edits

As long as no target has a backtick, an expanded line has the code spans of the line
(`codeTexts_edits`), and an edit of the line meets one of them exactly when what it becomes meets
one of the expanded line (`marks_edits`). Edits are taken apart into characters and links first
(`Table.Steps`), since spans begin and end inside brackets as well.
-/

namespace TidyMark.Reflink

/-- Which edits have a character in a span, when the first begins at `place` and each takes as many
places as `size` says. -/
def marks (size : Edit → Nat) (spans : List Span) : Nat → List Edit → List Bool
  | _, [] => []
  | place, e :: es =>
    spans.any (·.meets place (place + size e)) :: marks size spans (place + size e) es

def Edit.width (e : Edit) : Nat :=
  e.before.length

def Edit.widthAfter (e : Edit) : Nat :=
  e.after.length

def chars (t : Text) : List Edit :=
  t.map fun c => .keep [c]

/-- Edits that keep single characters or make links. -/
def Edit.steps : Edit → List Edit
  | .keep t => chars t
  | .link b target => [.link b target]

/-- Single characters and links to targets of a table, whose brackets meet none of the spans. -/
inductive Table.Steps (table : Table) (spans : List Span) : Nat → List Edit → Prop
  | nil {place : Nat} : table.Steps spans place []
  | char {place : Nat} {es : List Edit} (c : Char) (h : table.Steps spans (place + 1) es) :
      table.Steps spans place (.keep [c] :: es)
  | link {place : Nat} {es : List Edit} {b : Bracket} {target : Target}
      (hs : ∀ s ∈ spans, s.meets place (place + b.written.length) = false)
      (hr : table.resolve b.key = some target)
      (h : table.Steps spans (place + b.written.length) es) :
      table.Steps spans place (.link b target :: es)

section Marking

variable {size : Edit → Nat} {spans : List Span} {s : Span} {es : List Edit} {w : Text}
  {place : Nat}

theorem any_meets_of_le {stop : Nat} (h : ∀ s ∈ spans, stop ≤ s.start) :
    spans.any (·.meets place stop) = false := by
  rw [List.any_eq_false]
  intro s hs
  have := h s hs
  simp only [Span.meets, Bool.and_eq_true, decide_eq_true_eq]
  omega

theorem marks_append (size : Edit → Nat) (spans : List Span) (es' : List Edit) :
    ∀ (place : Nat) (es : List Edit), marks size spans place (es ++ es') =
      marks size spans place es ++ marks size spans (place + (es.map size).sum) es'
  | _, [] => rfl
  | place, e :: es => by
    simp [marks, marks_append size spans es' _ es, Nat.add_assoc]

theorem length_marks (size : Edit → Nat) (spans : List Span) :
    ∀ (place : Nat) (es : List Edit), (marks size spans place es).length = es.length
  | _, [] => rfl
  | _, _ :: es => congrArg (· + 1) (length_marks size spans _ es)

theorem marks_cons_of_stop_le (h : s.stop ≤ place) :
    marks size (s :: spans) place es = marks size spans place es := by
  induction es generalizing place with
  | nil => rfl
  | cons e es ih =>
    have hs : s.meets place (place + size e) = false := by
      simp only [Span.meets, Bool.and_eq_false_iff, decide_eq_false_iff_not]
      omega
    rw [marks, marks, List.any_cons, hs, Bool.false_or, ih (Nat.le_add_right_of_le h)]

variable (hsize : ∀ c, size (.keep [c]) = 1)

include hsize

theorem marks_chars_of_le (h : ∀ s ∈ spans, place + w.length ≤ s.start) :
    marks size spans place (chars w) = List.replicate w.length false := by
  induction w generalizing place with
  | nil => rfl
  | cons c w ih =>
    rw [List.length_cons] at h
    rw [chars, List.map_cons, marks, hsize, any_meets_of_le fun s hs => by have := h s hs; omega,
      ← chars, ih fun s hs => by have := h s hs; omega]
    rfl

theorem marks_chars_of_covers (hs : s ∈ spans) (hstart : s.start ≤ place)
    (hstop : place + w.length ≤ s.stop) :
    marks size spans place (chars w) = List.replicate w.length true := by
  induction w generalizing place with
  | nil => rfl
  | cons c w ih =>
    rw [List.length_cons] at hstop
    have hmeets : spans.any (·.meets place (place + 1)) = true := by
      refine List.any_eq_true.2 ⟨s, hs, ?_⟩
      simp only [Span.meets, Bool.and_eq_true, decide_eq_true_eq]
      omega
    rw [chars, List.map_cons, marks, hsize, hmeets, ← chars, ih (by omega) (by omega)]
    rfl

theorem sum_size_chars (w : Text) : ((chars w).map size).sum = w.length := by
  induction w with
  | nil => rfl
  | cons c w ih =>
    simp only [chars, List.map_cons, List.sum_cons, hsize, List.length_cons] at ih ⊢
    omega

theorem any_marks_chars (hspans : ∀ s ∈ spans, s.start < s.stop) (hw : w ≠ []) :
    (marks size spans place (chars w)).any id = spans.any (·.meets place (place + w.length)) := by
  induction w generalizing place with
  | nil => exact absurd rfl hw
  | cons c w ih =>
    rw [chars, List.map_cons, marks, hsize, ← chars, List.any_cons, id]
    rcases w with _ | ⟨d, w⟩
    · exact Bool.or_false _
    rw [ih (by simp), Bool.eq_iff_iff, Bool.or_eq_true, List.any_eq_true, List.any_eq_true,
      List.any_eq_true]
    simp only [Span.meets, Bool.and_eq_true, decide_eq_true_eq, List.length_cons]
    constructor
    · rintro (⟨s, hs, h⟩ | ⟨s, hs, h⟩)
      · exact ⟨s, hs, by omega⟩
      · exact ⟨s, hs, by omega⟩
    · rintro ⟨s, hs, h⟩
      have := hspans s hs
      by_cases hstart : s.start < place + 1
      · exact .inl ⟨s, hs, by omega⟩
      · exact .inr ⟨s, hs, by omega⟩

end Marking

section Steps

variable {table : Table} {spans : List Span} {place : Nat} {es : List Edit}

theorem before_chars (w : Text) : (chars w).flatMap Edit.before = w := by
  induction w with
  | nil => rfl
  | cons c w ih => simpa [chars, Edit.before] using ih

theorem after_chars (w : Text) : (chars w).flatMap Edit.after = w := by
  induction w with
  | nil => rfl
  | cons c w ih => simpa [chars, Edit.after] using ih

theorem relinks_of_steps (h : table.Steps spans place es) :
    table.Relinks spans place (es.flatMap Edit.before) (es.flatMap Edit.after) := by
  induction h with
  | nil => exact .nil
  | char c _ ih => exact .char c ih
  | link hs hr _ ih => exact .link hs hr ih

/-- What a span covers is in no bracket that becomes a link. -/
theorem exists_chars_of_covers {s : Span} (hs : s ∈ spans) {w u : Text}
    (h : table.Steps spans place es) (hes : es.flatMap Edit.before = w ++ u)
    (hstart : s.start ≤ place) (hstop : place + w.length ≤ s.stop) :
    ∃ es', es = chars w ++ es' ∧ es'.flatMap Edit.before = u ∧
      table.Steps spans (place + w.length) es' := by
  induction w generalizing place es with
  | nil => exact ⟨es, rfl, hes, h⟩
  | cons c w ih =>
    rw [List.length_cons] at hstop
    rcases h with _ | @⟨_, es, d, h⟩ | @⟨_, es, b, target, hb, hr, h⟩
    · cases hes
    · obtain ⟨rfl, hes'⟩ : d = c ∧ es.flatMap Edit.before = w ++ u := List.cons.inj hes
      obtain ⟨es', rfl, hu, h⟩ := ih h hes' (by omega) (by omega)
      rw [Nat.add_assoc, Nat.add_comm 1] at h
      exact ⟨es', rfl, hu, h⟩
    · have hm := hb s hs
      have hpos := List.length_pos_iff.2 b.written_ne_nil
      simp only [Span.meets, Bool.and_eq_false_iff, decide_eq_false_iff_not] at hm
      omega

/-- A run of backticks is in no bracket that becomes a link. -/
theorem exists_chars_of_run {u : Text} : ∀ {n place : Nat} {es : List Edit},
    table.Steps spans place es → es.flatMap Edit.before = List.replicate n '`' ++ u →
    ∃ es', es = chars (List.replicate n '`') ++ es' ∧ es'.flatMap Edit.before = u ∧
      table.Steps spans (place + n) es'
  | 0, _, es, h, hes => ⟨es, rfl, hes, h⟩
  | n + 1, place, es, h, hes => by
    rcases h with _ | @⟨_, es, d, h⟩ | @⟨_, es, b, target, hb, hr, h⟩
    · cases hes
    · obtain ⟨rfl, hes'⟩ : d = '`' ∧ es.flatMap Edit.before = List.replicate n '`' ++ u :=
        List.cons.inj hes
      obtain ⟨es', rfl, hu, h⟩ := exists_chars_of_run h hes'
      rw [Nat.add_assoc, Nat.add_comm 1] at h
      exact ⟨es', rfl, hu, h⟩
    · have hn := noTick_written b (es.flatMap Edit.before)
      rw [List.flatMap_cons, Edit.before] at hes
      rw [hes] at hn
      exact absurd rfl hn

end Steps

section Spans

variable {table : Table} {spans : List Span}

theorem start_of_mem_codeSpansFrom {place : Nat} {t : Text} {s : Span}
    (hs : s ∈ codeSpansFrom place t) : place ≤ s.start ∧ s.start < s.stop :=
  (within_codeSpansFrom t place).of_mem hs

theorem marks_cons (size : Edit → Nat) (place : Nat) (t : Text) (e : Edit) (es : List Edit) :
    marks size (codeSpansFrom (place + size e) t) place (e :: es) =
      false :: marks size (codeSpansFrom (place + size e) t) (place + size e) es := by
  rw [marks, any_meets_of_le fun s hs => (start_of_mem_codeSpansFrom hs).1]

section Stretches

variable {size : Edit → Nat} (hsize : ∀ c, size (.keep [c]) = 1) (place : Nat) {w : Text} {n : Nat}
  (hw : w.length = n) (es : List Edit)

include hsize hw

theorem marks_idle (t : Text) : marks size (codeSpansFrom (place + n) t) place (chars w ++ es) =
    List.replicate n false ++ marks size (codeSpansFrom (place + n) t) (place + n) es := by
  subst hw
  rw [marks_append, marks_chars_of_le hsize fun s hs => (start_of_mem_codeSpansFrom hs).1,
    sum_size_chars hsize]

theorem marks_span (spans : List Span) :
    marks size (⟨place, place + n⟩ :: spans) place (chars w ++ es) =
      List.replicate n true ++ marks size spans (place + n) es := by
  subst hw
  rw [marks_append, marks_chars_of_covers hsize List.mem_cons_self (Nat.le_refl _) (Nat.le_refl _),
    sum_size_chars hsize, marks_cons_of_stop_le (Nat.le_refl _)]

end Stretches

/-- Edits meet the code spans of the text they leave, read from `place'`, where they meet those of
the text they are made in, read from `place`. -/
def SameMarks (place place' : Nat) (es : List Edit) : Prop :=
  marks Edit.widthAfter (codeSpansFrom place' (es.flatMap Edit.after)) place' es =
    marks Edit.width (codeSpansFrom place (es.flatMap Edit.before)) place es

section SameMarks

variable {place place' n : Nat} {es : List Edit}

/-- An edit that no span begins in, neither before nor after. -/
theorem SameMarks.cons {e : Edit}
    (hbefore : codeSpansFrom place (e.before ++ es.flatMap Edit.before) =
      codeSpansFrom (place + e.width) (es.flatMap Edit.before))
    (hafter : codeSpansFrom place' (e.after ++ es.flatMap Edit.after) =
      codeSpansFrom (place' + e.widthAfter) (es.flatMap Edit.after))
    (h : SameMarks (place + e.width) (place' + e.widthAfter) es) :
    SameMarks place place' (e :: es) := by
  rw [SameMarks, List.flatMap_cons, List.flatMap_cons, hbefore, hafter, marks_cons, marks_cons]
  exact congrArg (false :: ·) h

/-- A run of backticks that none of its length follows. -/
theorem SameMarks.ticks (hrest : NoTick (es.flatMap Edit.before))
    (hrest' : NoTick (es.flatMap Edit.after)) (hn : n + 1 ∉ widths (es.flatMap Edit.before))
    (hn' : n + 1 ∉ widths (es.flatMap Edit.after))
    (h : SameMarks (place + (n + 1)) (place' + (n + 1)) es) :
    SameMarks place place' (chars (List.replicate (n + 1) '`') ++ es) := by
  have hlen : (List.replicate (n + 1) '`').length = n + 1 := List.length_replicate
  rw [SameMarks, List.flatMap_append, List.flatMap_append, before_chars, after_chars,
    codeSpansFrom_of_not_mem hrest hn, codeSpansFrom_of_not_mem hrest' hn',
    marks_idle (fun _ => rfl) _ hlen, marks_idle (fun _ => rfl) _ hlen, h]

/-- A run of backticks, what it covers and the run that closes it. -/
theorem SameMarks.span {w : Text} (hw : Closes n w) (hrest : NoTick (w ++ es.flatMap Edit.before))
    (hrest' : NoTick (w ++ es.flatMap Edit.after)) (hu : NoTick (es.flatMap Edit.before))
    (hu' : NoTick (es.flatMap Edit.after))
    (h : SameMarks (place + (n + 1 + w.length)) (place' + (n + 1 + w.length)) es) :
    SameMarks place place' (chars (List.replicate (n + 1) '`') ++ (chars w ++ es)) := by
  have hlen : (List.replicate (n + 1) '`' ++ w).length = n + 1 + w.length := by
    rw [List.length_append, List.length_replicate]
  have hchars : chars (List.replicate (n + 1) '`') ++ (chars w ++ es) =
      chars (List.replicate (n + 1) '`' ++ w) ++ es := by simp [chars]
  rw [hchars, SameMarks, List.flatMap_append, List.flatMap_append, before_chars, after_chars,
    List.append_assoc, List.append_assoc, codeSpansFrom_of_closes hw hrest hu,
    codeSpansFrom_of_closes hw hrest' hu', Nat.add_assoc place, Nat.add_assoc place',
    marks_span (fun _ => rfl) _ hlen, marks_span (fun _ => rfl) _ hlen, h]

end SameMarks

/-- Edits meet the spans of the expanded text where they meet those of the text. -/
theorem marks_steps (ha : table.Avoids '`') {place place' : Nat} {es : List Edit}
    (h : table.Steps spans place es)
    (hsub : ∀ s ∈ codeSpansFrom place (es.flatMap Edit.before), s ∈ spans) :
    SameMarks place place' es := by
  induction hl : es.length using Nat.strongRecOn generalizing es place place' with
  | _ l ih =>
    obtain ⟨n, rest, hes, hrest⟩ := exists_run (es.flatMap Edit.before)
    rcases n with _ | n
    · rw [List.replicate_zero, List.nil_append] at hes
      rcases h with _ | @⟨_, es, c, h⟩ | @⟨_, es, b, target, hs, hr, h⟩
      · rfl
      · have hc : c ≠ '`' := by simpa [NoTick, ← hes, Edit.before] using hrest
        rw [List.length_cons] at hl
        have hskip : ∀ place t, codeSpansFrom place ([c] ++ t) = codeSpansFrom (place + 1) t :=
          fun place t => codeSpansFrom_cons hc place t
        rw [List.flatMap_cons, Edit.before, hskip] at hsub
        exact .cons (hskip _ _) (hskip _ _) (ih es.length (by omega) h hsub rfl)
      · rw [List.length_cons] at hl
        rw [List.flatMap_cons, Edit.before] at hsub
        obtain ⟨hbefore, hafter⟩ :=
          codeSpansFrom_link ha (fun s hm => hs s (hsub s hm)) hr (relinks_of_steps h) place'
        rw [hbefore] at hsub
        exact .cons hbefore hafter (ih es.length (by omega) h hsub rfl)
    · obtain ⟨es, rfl, rfl, h⟩ := exists_chars_of_run h hes
      have hrelinks := relinks_of_steps h
      have hrest' := noTick_of_relinks hrelinks hrest
      rw [List.length_append, chars, List.length_map, List.length_replicate] at hl
      rw [hes] at hsub
      rcases not_mem_or_closes n (es.flatMap Edit.before) with hn | ⟨w, u, hw, hu, hcloses⟩
      · have hn' : n + 1 ∉ widths (es.flatMap Edit.after) := fun hm =>
          hn (succ_mem_widths.2 (mem_runs_of_relinks ha hrelinks (succ_mem_widths.1 hm)))
        rw [codeSpansFrom_of_not_mem hrest hn] at hsub
        exact .ticks hrest hrest' hn hn' (ih es.length (by omega) h hsub rfl)
      · rw [hw] at hrest hsub
        rw [codeSpansFrom_of_closes hcloses hrest hu] at hsub
        obtain ⟨es, rfl, rfl, h⟩ := exists_chars_of_covers (hsub _ List.mem_cons_self) h hw
          (by simp only; omega) (by simp only; omega)
        rw [List.flatMap_append, after_chars] at hrest'
        rw [List.length_append] at hl
        rw [Nat.add_assoc] at hsub h
        exact .span hcloses hrest hrest' hu (noTick_of_relinks (relinks_of_steps h) hu)
          (ih es.length (by omega) h (fun s hs => hsub s (.tail _ hs)) rfl)

end Spans

section Tables

theorem firstTarget?_filter {table : Table} {p : Text → Bool} {q : Text × Target → Bool}
    {target : Target} (h : table.firstTarget? p = some target)
    (hq : ∀ l, q (l, target) = true) :
    Table.firstTarget? ⟨table.entries.filter q⟩ p = some target := by
  obtain ⟨⟨l, t⟩, he, rfl⟩ := Option.map_eq_some_iff.1 h
  rw [Table.firstTarget?, List.find?_filter, Option.map_eq_some_iff]
  refine ⟨(l, t), ?_, rfl⟩
  rw [List.find?_eq_some_iff_append] at he ⊢
  obtain ⟨hp, as, bs, hes, has⟩ := he
  exact ⟨by simp [hp, hq], as, bs, hes, fun a ha => by simp [by simpa using has a ha]⟩

/-- Leaving out the targets that have a character changes nothing where a label resolves to one
that does not. -/
theorem exists_avoiding (table : Table) (c : Char) : ∃ table' : Table, table'.Avoids c ∧
    ∀ label target, table.resolve label = some target → target.Avoids c →
      table'.resolve label = some target := by
  classical
  refine ⟨⟨table.entries.filter fun e => e.2.Avoids c⟩, fun e he => ?_, fun label target h hc => ?_⟩
  · simpa using (List.mem_filter.1 he).2
  · rw [Table.resolve_eq_or] at h ⊢
    have hq : ∀ l : Text, decide ((l, target).2.Avoids c) = true := fun _ => decide_eq_true hc
    rcases hexact : table.exactTarget? label with _ | t <;> rw [hexact] at h
    · have hnone :
          Table.exactTarget? ⟨table.entries.filter fun e => e.2.Avoids c⟩ label = none := by
        rw [← Option.not_isSome_iff_eq_none, Table.exactTarget?,
          Table.firstTarget?_isSome] at hexact ⊢
        rintro ⟨e, he, h⟩
        exact hexact ⟨e, (List.mem_filter.1 he).1, h⟩
      rw [Option.none_or] at h
      rw [hnone, Option.none_or]
      exact firstTarget?_filter h hq
    · obtain rfl : t = target := by simpa using h
      rw [Table.exactTarget?, firstTarget?_filter hexact hq]
      rfl

end Tables

section Edits

variable {table : Table} {spans : List Span}

theorem before_steps (es : List Edit) :
    (es.flatMap Edit.steps).flatMap Edit.before = es.flatMap Edit.before := by
  rw [List.flatMap_assoc]
  refine List.flatMap_congr fun e _ => ?_
  cases e with
  | keep t => exact before_chars t
  | link b target => exact List.append_nil _

theorem after_steps (es : List Edit) :
    (es.flatMap Edit.steps).flatMap Edit.after = es.flatMap Edit.after := by
  rw [List.flatMap_assoc]
  refine List.flatMap_congr fun e _ => ?_
  cases e with
  | keep t => exact after_chars t
  | link b target => exact List.append_nil _

theorem steps_chars (w : Text) {place : Nat} {es : List Edit}
    (h : table.Steps spans (place + w.length) es) : table.Steps spans place (chars w ++ es) := by
  induction w generalizing place with
  | nil => exact h
  | cons c w ih =>
    refine .char c (ih ?_)
    rwa [List.length_cons, Nat.add_comm w.length, ← Nat.add_assoc] at h

/-- The edits of a line, taken apart, for any table that has the targets of its links. -/
theorem steps_edit {table' : Table} : ∀ (segs : List Segment) (kept : Nat) (before : Text),
    (∀ b target, .link b target ∈ (table.edit spans kept before segs).edits →
      table'.resolve b.key = some target) →
    table'.Steps spans before.length ((table.edit spans kept before segs).edits.flatMap Edit.steps)
  | [], _, _, _ => .nil
  | .char c :: rest, kept, before, h => by
    have ih := steps_edit rest kept (c :: before) fun b target hb => h b target (.tail _ hb)
    rw [List.length_cons] at ih
    exact .char c ih
  | .bracket b :: rest, kept, before, h => by
    have ih := steps_edit rest _ (b.written.reverse ++ before) fun b target hb =>
      h b target (.tail _ hb)
    have hb := before_decide table spans kept before b (rest.flatMap Segment.written)
    rw [List.length_append, List.length_reverse, Nat.add_comm] at ih
    simp only [Table.edit, List.flatMap_cons] at h ⊢
    rcases he : (table.decide spans kept before b (rest.flatMap Segment.written)).edit with
      t | ⟨b', target⟩
    · rw [he, Edit.before] at hb
      rw [hb]
      exact steps_chars b.written ih
    · obtain ⟨rfl, -, hs, -⟩ := decide_eq_link.1 he
      exact .link hs (h b' target (by rw [← he]; exact List.mem_cons_self)) ih

/-- Edits are marked alike when all their characters are. -/
theorem marks_eq_of_steps {spans' : List Span} (hspans : ∀ s ∈ spans, s.start < s.stop)
    (hspans' : ∀ s ∈ spans', s.start < s.stop) : ∀ {es : List Edit} {place place' : Nat},
      (∀ t, .keep t ∈ es → t ≠ []) →
      marks Edit.widthAfter spans' place' (es.flatMap Edit.steps) =
        marks Edit.width spans place (es.flatMap Edit.steps) →
      marks Edit.widthAfter spans' place' es = marks Edit.width spans place es
  | [], _, _, _, _ => rfl
  | .keep t :: es, place, place', hne, h => by
    have hwidth : ∀ c, Edit.width (.keep [c]) = 1 := fun _ => rfl
    have hwidth' : ∀ c, Edit.widthAfter (.keep [c]) = 1 := fun _ => rfl
    rw [List.flatMap_cons, Edit.steps, marks_append, marks_append, sum_size_chars hwidth,
      sum_size_chars hwidth'] at h
    obtain ⟨h1, h2⟩ := List.append_inj h (by rw [length_marks, length_marks])
    have ht := hne t List.mem_cons_self
    have hany := congrArg (List.any · id) h1
    rw [any_marks_chars hwidth hspans ht, any_marks_chars hwidth' hspans' ht] at hany
    rw [marks, marks]
    exact congrArg₂ List.cons hany
      (marks_eq_of_steps hspans hspans' (fun t ht => hne t (.tail _ ht)) h2)
  | .link b target :: es, place, place', hne, h => by
    obtain ⟨h1, h2⟩ := List.cons.inj h
    rw [marks, marks]
    exact congrArg₂ List.cons h1
      (marks_eq_of_steps hspans hspans' (fun t ht => hne t (.tail _ ht)) h2)

theorem ne_nil_of_mem_edit : ∀ {segs : List Segment} {kept : Nat} {before t : Text},
    .keep t ∈ (table.edit spans kept before segs).edits → t ≠ []
  | .char c :: rest, kept, before, t, h => by
    rcases List.mem_cons.1 h with h | h
    · cases h
      exact List.cons_ne_nil _ _
    · exact ne_nil_of_mem_edit h
  | .bracket b :: rest, kept, before, t, h => by
    have hb := before_decide table spans kept before b (rest.flatMap Segment.written)
    rcases List.mem_cons.1 h with h | h
    · rw [← h, Edit.before] at hb
      exact hb ▸ b.written_ne_nil
    · exact ne_nil_of_mem_edit h

/-- The edits of a line, taken apart, where none of its links has a backtick in its target. -/
theorem exists_steps {line : Text} (h : ∀ b target,
    .link b target ∈ (table.expandLine line).edits → target.Avoids '`') :
    ∃ table' : Table, table'.Avoids '`' ∧
      table'.Steps (codeSpans line) 0 ((table.expandLine line).edits.flatMap Edit.steps) := by
  obtain ⟨table', ha, hresolve⟩ := exists_avoiding table '`'
  refine ⟨table', ha, steps_edit (segments line) 0 [] fun b target hb => ?_⟩
  obtain ⟨above, below, he⟩ := List.append_of_mem hb
  obtain ⟨_, _, _, -, -, hd⟩ := exists_of_edit_eq he
  exact hresolve _ _ (decide_eq_link.1 hd).2.2.2.2 (h b target hb)

theorem before_steps_expandLine (table : Table) (line : Text) :
    ((table.expandLine line).edits.flatMap Edit.steps).flatMap Edit.before = line := by
  rw [before_steps, Table.expandLine, before_edit, written_segments]

/-- The edits of a line meet its code spans exactly where they meet those of the expanded line. -/
theorem marks_edits {line : Text} (h : ∀ b target,
    .link b target ∈ (table.expandLine line).edits → target.Avoids '`') :
    marks Edit.widthAfter (codeSpans ((table.expandLine line).edits.flatMap Edit.after)) 0
        (table.expandLine line).edits =
      marks Edit.width (codeSpans line) 0 (table.expandLine line).edits := by
  obtain ⟨table', ha, hsteps⟩ := exists_steps h
  have hbefore := before_steps_expandLine table line
  have hsub : ∀ s ∈ codeSpansFrom 0 (((table.expandLine line).edits.flatMap
      Edit.steps).flatMap Edit.before), s ∈ codeSpans line := fun s hs => by rwa [hbefore] at hs
  have hmarks : SameMarks 0 0 _ := marks_steps ha hsteps hsub
  rw [SameMarks, hbefore, after_steps] at hmarks
  exact marks_eq_of_steps (fun s hs => (start_of_mem_codeSpansFrom hs).2)
    (fun s hs => (start_of_mem_codeSpansFrom hs).2) (fun t ht => ne_nil_of_mem_edit ht) hmarks

/-- Where none of the targets that are linked has a backtick, an expanded line has the code spans
of the line. -/
theorem codeTexts_edits {line : Text} (h : ∀ b target,
    .link b target ∈ (table.expandLine line).edits → target.Avoids '`') :
    codeTexts ((table.expandLine line).edits.flatMap Edit.after) = codeTexts line := by
  obtain ⟨table', ha, hsteps⟩ := exists_steps h
  have hrelinks := relinks_of_steps hsteps
  rw [before_steps_expandLine, after_steps] at hrelinks
  rw [codeTexts_eq, codeTexts_eq]
  exact codeTextsFrom_of_relinks ha hrelinks fun _ hs => hs

end Edits

end TidyMark.Reflink
