import TidyMark.Proofs.Paragraph
import TidyMark.Proofs.Targets

/-!
# Lines outside code

A source of lines that begin no code is expanded line by line (`expandLenient_linesText`). A line
without code spans changes exactly where it has a reference (`Table.HasReference`), and then it
cannot be the same text by chance: where the first link begins its destination, the line had no
parenthesis (`Diverges`).
-/

namespace TidyMark.Reflink

open Text

/-- Whether a table expands a reference on a line where nothing on the line is code. -/
def Table.HasReference (table : Table) (line : Text) : Prop :=
  ∃ b target, Edit.link b target ∈ (table.edit [] 0 [] (segments line)).edits

/-- Whether the first difference between two texts is an opening parenthesis of the second. -/
def Diverges (t t' : Text) : Prop :=
  ∃ p s s', t = p ++ s ∧ t' = p ++ '(' :: s' ∧ s.head? ≠ some '('

section Diverging

variable {table : Table}

theorem Diverges.append_left {t t' : Text} (h : Diverges t t') (u : Text) :
    Diverges (u ++ t) (u ++ t') := by
  obtain ⟨p, s, s', rfl, rfl, hs⟩ := h
  exact ⟨u ++ p, s, s', by simp, by simp, hs⟩

theorem Diverges.append_right {t t' u : Text} (h : Diverges t t') (hu : u.head? ≠ some '(')
    (u' : Text) : Diverges (t ++ u) (t' ++ u') := by
  obtain ⟨p, s, s', rfl, rfl, hs⟩ := h
  refine ⟨p, s ++ u, s' ++ u', by simp, by simp, ?_⟩
  rcases s with _ | ⟨c, s⟩
  · exact hu
  · exact hs

/-- Where a bracket becomes a link, its destination stands in the place of what is none. -/
theorem diverges_link {spans : List Span} {kept : Nat} {before after : Text} {b : Bracket}
    {target : Target} (h : (table.decide spans kept before b after).edit = .link b target)
    (t : Text) : Diverges (b.written ++ after) (b.linked target ++ t) := by
  obtain ⟨-, -, -, hpassed, -⟩ := decide_eq_link.1 h
  obtain ⟨title, hd, -⟩ := exists_destination target (b.fragment.getD [])
  refine ⟨b.head, (b.reference.elim [] fun r => between '[' r ']') ++
    ((b.fragment.elim [] fun f => between '\x7b' f '\x7d') ++ after),
    target.url ++ (b.fragment.getD [] ++ (title ++ [')'])) ++ t, ?_, ?_, ?_⟩
  · simp [Bracket.written]
  · simp [Bracket.linked, hd]
  · rcases hr : b.reference with _ | r
    · rcases hf : b.fragment with _ | f
      · exact fun ha => hpassed (.inline ⟨hr, hf⟩ ha)
      · simp [between]
    · simp [between]

theorem edit_diverges {spans : List Span} {b : Bracket} {target : Target} :
    ∀ {segs : List Segment} {kept : Nat} {before : Text},
      .link b target ∈ (table.edit spans kept before segs).edits →
        Diverges (segs.flatMap Segment.written)
          ((table.edit spans kept before segs).edits.flatMap Edit.after)
  | [], _, _, h => by simp [Table.edit] at h
  | .char c :: rest, kept, before, h => by
    simp only [Table.edit, List.mem_cons, reduceCtorEq, false_or] at h
    exact (edit_diverges h).append_left [c]
  | .bracket b' :: rest, kept, before, h => by
    have hb := before_decide table spans kept before b' (rest.flatMap Segment.written)
    simp only [Table.edit, List.flatMap_cons, Segment.written] at h ⊢
    rcases he : (table.decide spans kept before b' (rest.flatMap Segment.written)).edit with
      t | ⟨b'', target'⟩
    · rw [he, Edit.before] at hb
      rw [he, List.mem_cons] at h
      rw [Edit.after, hb]
      exact (edit_diverges (h.resolve_left (by simp))).append_left b'.written
    · obtain ⟨rfl, -⟩ := decide_eq_link.1 he
      exact diverges_link he _

theorem after_edit_of_not_mem {spans : List Span} : ∀ {segs : List Segment} {kept : Nat}
    {before : Text},
      (∀ b target, Edit.link b target ∉ (table.edit spans kept before segs).edits) →
        (table.edit spans kept before segs).edits.flatMap Edit.after =
          segs.flatMap Segment.written := by
  intro segs kept before h
  rw [← before_edit table spans kept before segs]
  refine List.flatMap_congr fun e he => ?_
  cases e with
  | keep t => rfl
  | link b target => exact absurd he (h b target)

end Diverging

section Flush

/-- A line that is no code wherever no code goes on. -/
structure IsFlush (line : Text) : Prop where
  clean : Markdown.IsClean line
  indent : indentWidth line = 0
  no_fence : FenceMark.ofLine? line = none

/-- A line outside code. -/
def plainLine (line : Text) : Line :=
  ⟨line, ['\n'], false⟩

def Table.expanded (table : Table) (line : Text) : Text :=
  table.expandedText (plainLine line)

theorem isLine_of_isClean {line : Text} (h : Markdown.IsClean line) : IsLine line ['\n'] where
  no_newline hn := (h _ hn).1 rfl
  no_return hr := (h _ (List.mem_of_getLast? hr)).2.1 rfl
  ending := ⟨[], by simp, .inr rfl⟩

theorem isFlush_cons {c : Char} {rest : Text} (hclean : Markdown.IsClean (c :: rest))
    (hc : isIndent c = false) (hfence : (c ≠ '`' ∧ c ≠ '~') ∨ rest.head? ≠ some c) :
    IsFlush (c :: rest) where
  clean := hclean
  indent := by
    simp only [isIndent, Bool.or_eq_false_iff, beq_eq_false_iff_ne] at hc
    simp [indentWidth, indentWidth.go, hc.1, hc.2]
  no_fence := by
    simp only [isIndent, Bool.or_eq_false_iff, beq_eq_false_iff_ne] at hc
    have hrun : (c == '`' || c == '~') = false ∨ rest.takeWhile (· == c) = [] := by
      refine hfence.imp (fun h => by simp [h.1, h.2]) fun h => ?_
      rcases rest with _ | ⟨d, rest⟩
      · rfl
      · simpa using h
    rcases hrun with h | h <;> simp [FenceMark.ofLine?, hc.1, h]

theorem isFlush_nil : IsFlush [] :=
  ⟨fun _ hc => (nomatch hc), rfl, rfl⟩

theorem mark_of_isFlush : ∀ {lines : List Text} {region : Region}, region.fence = none →
    region.indented = false → (∀ line ∈ lines, IsFlush line) →
      Line.mark region (lines.map (· ++ ['\n'])) = lines.map plainLine
  | [], _, _, _, _ => rfl
  | line :: lines, region, hfence, hindented, h => by
    obtain ⟨hline, hlines⟩ := List.forall_mem_cons.1 h
    have hclass : region.classify line = (false, none, false) := by
      rw [classify_eq_not_code]
      simp [hfence, hindented, hline.indent, hline.no_fence]
    have hcode : (region.step line).1 = false := by rw [Region.step, hclass]
    have hnext : (region.step line).2.fence = none ∧ (region.step line).2.indented = false := by
      rw [Region.step, hclass]
      exact ⟨rfl, rfl⟩
    rw [List.map_cons, mark_cons (isLine_of_isClean hline.clean), hcode,
      mark_of_isFlush hnext.1 hnext.2 hlines]
    rfl

variable {lines : List Text}

theorem pieces_linesText : ∀ {lines : List Text}, (∀ line ∈ lines, '\n' ∉ line) →
    pieces (Markdown.linesText lines) = lines.map (· ++ ['\n'])
  | [], _ => rfl
  | line :: lines, h => by
    obtain ⟨hline, hlines⟩ := List.forall_mem_cons.1 h
    rw [Markdown.linesText_cons, pieces_append_newline hline, pieces_linesText hlines,
      List.map_cons]

theorem ofSource_linesText (h : ∀ line ∈ lines, IsFlush line) :
    Line.ofSource (Markdown.linesText lines) = lines.map plainLine := by
  have hn : ∀ line ∈ lines, '\n' ∉ line := fun line hl =>
    (isLine_of_isClean (h line hl).clean).no_newline
  rw [Line.ofSource, pieces_linesText hn]
  exact mark_of_isFlush rfl rfl h

theorem expandLenient_linesText (table : Table) (h : ∀ line ∈ lines, IsFlush line) :
    table.expandLenient (Markdown.linesText lines) =
      Markdown.linesText (lines.map table.expanded) := by
  rw [expandLenient_eq_flatten, ofSource_linesText h, changed, Markdown.linesText,
    ← List.flatMap_def, List.flatMap_map, List.flatMap_map]
  rfl

end Flush

section Defining

variable {label url : Text}

theorem ofLine?_definitionLine (h : Markdown.Defines label url) :
    Definition.ofLine? (Markdown.definitionLine label url) = some ⟨label, ⟨url, none⟩⟩ := by
  have hstart : strip? "[" (dropSpaces 3 (Markdown.definitionLine label url)) =
      some (label ++ ']' :: ':' :: ' ' :: url) := by
    simp [Markdown.definitionLine, dropSpaces, strip?]
  have hlabel : ']' ∉ label := fun hc =>
    ne_of_isLetter (List.all_eq_true.1 h.letters _ hc) (by decide) rfl
  have htake := takeWhile_ne_append hlabel (':' :: ' ' :: url)
  have hdrop := dropWhile_ne_append hlabel (':' :: ' ' :: url)
  have hempty : label.isEmpty = false := by simpa using h.label_ne_nil
  have hcolon : strip? "]:" (']' :: ':' :: ' ' :: url) = some (' ' :: url) := by
    simp [strip?]
  have haddress : bracketedAddress? ((' ' :: url).dropWhile isIndent) = some (url, []) := by
    have hurl : ∀ c ∈ url, isAddressChar c = true := fun c hc => by
      have ha := List.all_eq_true.1 h.address c hc
      have hangle : c ≠ '>' := Markdown.ne_of_isAddress ha (by decide)
      simp [isAddressChar, Markdown.isBlank_of_isAddress ha, hangle]
    have htaken : url.takeWhile isAddressChar = url := List.takeWhile_eq_self_iff.2 hurl
    have hdropped : url.dropWhile isAddressChar = [] := List.dropWhile_eq_nil_iff.2 hurl
    obtain ⟨c, t, rfl⟩ := List.exists_cons_of_ne_nil h.url_ne_nil
    have hc := List.all_eq_true.1 h.address c List.mem_cons_self
    have hangle : c ≠ '<' := Markdown.ne_of_isAddress hc (by decide)
    have hindent := isIndent_of_not_isBlank (Markdown.isBlank_of_isAddress hc)
    have hstart : (' ' :: c :: t).dropWhile isIndent = c :: t := by
      rw [List.dropWhile_cons, if_pos (by decide), List.dropWhile_cons, if_neg (by simp [hindent])]
    have hread : address? (c :: t) = some (c :: t, []) := by
      simp only [address?, htaken, hdropped]
      rfl
    rw [hstart, bracketedAddress?, hread]
    simpa using hangle
  simp only [Definition.ofLine?, Option.bind_eq_bind, hstart, Option.bind_some, htake, hdrop,
    hempty, Bool.false_eq_true, if_false, Option.pure_def, hcolon, haddress]
  rfl

theorem ofLine?_cons {c : Char} (hspace : c ≠ ' ') (hbracket : c ≠ '[') (rest : Text) :
    Definition.ofLine? (c :: rest) = none := by
  have hdrop : dropSpaces 3 (c :: rest) = c :: rest := by
    rw [dropSpaces]
    simp [hspace]
  have hstrip : strip? "[" (c :: rest) = none := by
    simp [strip?, Ne.symm hbracket]
  simp only [Definition.ofLine?, hdrop, hstrip]
  rfl

end Defining

section Relinking

variable {table : Table}

theorem relinks_expanded (table : Table) (line : Text) :
    table.Relinks (codeSpans line) 0 line (table.expanded line) :=
  relinks_expandedText table (plainLine line)

theorem relinks_anywhere {spans : List Span} {place : Nat} {t t' : Text}
    (h : table.Relinks spans place t t') : ∀ place', table.Relinks [] place' t t' := by
  induction h with
  | nil => exact fun _ => .nil
  | char c _ ih => exact fun place' => .char c (ih (place' + 1))
  | @link place t t' b target _ hr _ ih =>
    exact fun place' => .link (by simp) hr (ih (place' + b.written.length))

theorem eq_nil_of_relinks {spans : List Span} {place : Nat} {t : Text}
    (h : table.Relinks spans place [] t) : t = [] := by
  generalize hs : ([] : Text) = s at h
  rcases h with _ | ⟨c, h⟩ | @⟨_, u, _, b, _, _, _, h⟩
  · rfl
  · cases hs
  · exact absurd (List.append_eq_nil_iff.1 hs.symm).1 b.written_ne_nil

/-- A backtick at the end is in no bracket that has become a link. -/
theorem exists_concat_of_relinks {place : Nat} {s t' : Text} (h : table.Relinks [] place s t') :
    ∀ {t : Text}, s = t ++ ['`'] → ∃ u', t' = u' ++ ['`'] ∧ table.Relinks [] place t u' := by
  induction h with
  | nil => simp
  | @char place s s' c h ih =>
    intro t ht
    rcases t with _ | ⟨d, t⟩
    · obtain ⟨rfl, rfl⟩ := List.cons.inj ht
      obtain rfl := eq_nil_of_relinks h
      exact ⟨[], rfl, .nil⟩
    · obtain ⟨rfl, hs⟩ := List.cons.inj ht
      obtain ⟨u', rfl, hu⟩ := ih hs
      exact ⟨c :: u', rfl, .char c hu⟩
  | @link place s s' b target _ hr h ih =>
    intro t ht
    rcases List.eq_nil_or_concat s with rfl | ⟨s, d, rfl⟩
    · obtain ⟨v, d, hv, hd⟩ := endsRun_written b
      rw [List.append_nil, hv] at ht
      exact absurd (List.singleton_inj.1 (List.append_inj_right' ht rfl)) hd
    · rw [List.concat_eq_append, ← List.append_assoc] at ht
      obtain rfl := List.singleton_inj.1 (List.append_inj_right' ht rfl)
      obtain rfl := List.append_inj_left' ht rfl
      obtain ⟨u', rfl, hu⟩ := ih List.concat_eq_append
      exact ⟨b.linked target ++ u', by simp, .link (by simp) hr hu⟩

/-- Whether no target has a character that would end a line or a code span. -/
structure Table.IsPlain (table : Table) : Prop where
  newline : table.Avoids '\n'
  carriage : table.Avoids '\r'
  null : table.Avoids '\x00'
  tick : table.Avoids '`'

end Relinking

section Keeping

variable {table : Table}

theorem expanded_eq {l : Text} (h : Definition.ofLine? l = none) (hspans : codeSpans l = []) :
    table.expanded l = (table.edit [] 0 [] (segments l)).edits.flatMap Edit.after := by
  have hfixed : (plainLine l).isFixed = false := by
    simp [Line.isFixed, plainLine, isDefinition, h]
  rw [Table.expanded, Table.expandedText, Table.expandIn, if_neg (by simp [hfixed]), plainLine,
    Table.expandLine, hspans]

theorem expanded_of_not_hasReference {l : Text} (h : Definition.ofLine? l = none)
    (hspans : codeSpans l = []) (hr : ¬ table.HasReference l) : table.expanded l = l := by
  rw [expanded_eq h hspans, after_edit_of_not_mem fun b target hm => hr ⟨b, target, hm⟩,
    written_segments]

theorem diverges_of_hasReference {l : Text} (h : Definition.ofLine? l = none)
    (hspans : codeSpans l = []) (hr : table.HasReference l) : Diverges l (table.expanded l) := by
  obtain ⟨b, target, hm⟩ := hr
  have hd := edit_diverges hm
  rwa [written_segments, ← expanded_eq h hspans] at hd

theorem diverges_linesText {f : Text → Text} : ∀ {ls : List Text},
    (∀ l ∈ ls, f l = l ∨ Diverges l (f l)) → (∃ l ∈ ls, Diverges l (f l)) →
      Diverges (Markdown.linesText ls) (Markdown.linesText (ls.map f))
  | [], _, h => by simp at h
  | l :: ls, hall, h => by
    obtain ⟨hl, hls⟩ := List.forall_mem_cons.1 hall
    rw [List.map_cons, Markdown.linesText_cons, Markdown.linesText_cons]
    rcases hl with hl | hl
    · obtain ⟨m, hm, hd⟩ := h
      rcases List.mem_cons.1 hm with rfl | hm
      · exact hd.append_right (by simp) _
      · rw [hl]
        simpa using (diverges_linesText hls ⟨m, hm, hd⟩).append_left (l ++ ['\n'])
    · exact hl.append_right (by simp) _

variable {ls : List Text} (hdefinition : ∀ l ∈ ls, Definition.ofLine? l = none)
  (hspans : ∀ l ∈ ls, codeSpans l = [])

include hdefinition hspans

/-- Lines without references stay as they are. -/
theorem map_expanded_of_no_reference (h : ∀ l ∈ ls, ¬ table.HasReference l) :
    ls.map table.expanded = ls :=
  (List.map_congr_left fun l hl =>
    expanded_of_not_hasReference (hdefinition l hl) (hspans l hl) (h l hl)).trans (List.map_id _)

/-- Lines of which one has a reference become another text. -/
theorem diverges_of_exists_reference (h : ∃ l ∈ ls, table.HasReference l) :
    Diverges (Markdown.linesText ls) (Markdown.linesText (ls.map table.expanded)) := by
  obtain ⟨l, hl, hr⟩ := h
  refine diverges_linesText (fun m hm => ?_)
    ⟨l, hl, diverges_of_hasReference (hdefinition l hl) (hspans l hl) hr⟩
  by_cases hmr : table.HasReference m
  · exact .inr (diverges_of_hasReference (hdefinition m hm) (hspans m hm) hmr)
  · exact .inl (expanded_of_not_hasReference (hdefinition m hm) (hspans m hm) hmr)

end Keeping

end TidyMark.Reflink
