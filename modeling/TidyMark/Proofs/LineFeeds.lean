import TidyMark.Proofs.Exposed
import TidyMark.Proofs.StrongRuns
import TidyMark.Proofs.Targets
import TidyMark.Proofs.Word

/-!
# Line feeds in inline content

A line break is written as line feeds, and a line feed in a text that is copied out of a token
is one in what is written (`Visit.copied`). No escape, target or bracket adds one. Two rules do: a
strong run behind a line break begins a line, and the end of a mark ends the line where the content
ends or breaks (`LineStep`). So inline content that is not broken is written on one line, with a line
feed at its end if the last token is the end of a mark (`isOneLine_walk`).
-/

namespace TidyMark

open Token

namespace Text

theorem mem_replaceChar_iff {c d : Char} {u : Text} (hne : c ≠ d) (hu : c ∉ u) (t : Text) :
    c ∈ replaceChar d u t ↔ c ∈ t := by
  induction t with
  | nil => simp [replaceChar]
  | cons e t ih =>
    by_cases he : e = d
    · rw [he, replaceChar_self, List.mem_append, ih, List.mem_cons, or_iff_right hu,
        or_iff_right hne]
    · rw [replaceChar_of_ne he, List.mem_cons, List.mem_cons, ih]

end Text

namespace Escape

variable {start : Start} {place : Nat} {before : Option Char} {c : Char} {t : Text}

theorem mem_escapeFrom_iff (hc : c ≠ '\\') : c ∈ escapeFrom start place before t ↔ c ∈ t := by
  refine ⟨fun h => (mem_escapeFrom h).resolve_right hc, fun h => ?_⟩
  induction t generalizing place before with
  | nil => exact absurd h List.not_mem_nil
  | cons d t ih =>
    rw [escapeFrom]
    rcases List.mem_cons.1 h with rfl | h
    · split_ifs <;> simp
    · split_ifs <;> simp [ih h]

end Escape

namespace Reflink

/-- A table whose targets have no line feed leaves the lines of a source as they end. -/
theorem newline_mem_expandLenient_iff {table : Table} (ht : table.Avoids '\n') (source : Text) :
    '\n' ∈ table.expandLenient source ↔ '\n' ∈ source := by
  have hsource : (Line.ofSource source).flatMap (fun line => line.text ++ line.ending) = source :=
    source_ofSource source
  have hline : ∀ line ∈ Line.ofSource source,
      ('\n' ∈ table.expandedText line ++ line.ending ↔ '\n' ∈ line.text ++ line.ending) := by
    intro line hl
    have hn : '\n' ∉ line.text :=
      newline_not_mem_of_mem_mark (Text.arePieces_pieces source) {} line hl
    have hexpanded : '\n' ∉ table.expandedText line :=
      not_mem_of_relinks ht (by decide) (relinks_expandedText table line) hn
    rw [List.mem_append, List.mem_append, or_iff_right hn, or_iff_right hexpanded]
  rw [expandLenient_eq_flatten, changed, ← List.flatMap_def]
  conv_rhs => rw [← hsource]
  simp only [List.mem_flatMap]
  exact exists_congr fun line => and_congr_right (hline line)

end Reflink

namespace Render

section Texts

variable {c : Char} {t : Text}

theorem newline_mem_destination (url title : Text) :
    '\n' ∈ destination url title ↔ '\n' ∈ url ∨ '\n' ∈ title := by
  have hquoted : '\n' ∈ Text.replaceChar '"' ['\\', '"'] title ↔ '\n' ∈ title :=
    Text.mem_replaceChar_iff (by decide) (by decide) title
  unfold destination
  split_ifs with h
  · simp [List.isEmpty_iff.1 h]
  · simp [hquoted]

theorem LinkFrame.newline_mem_written (frame : LinkFrame) :
    '\n' ∈ frame.written ↔ '\n' ∈ frame.exposed.flatten := by
  cases frame with
  | link href title => simp [LinkFrame.written, LinkFrame.exposed, newline_mem_destination]
  | badge => rfl

theorem newline_mem_imageText (t : Token) :
    '\n' ∈ imageText t ↔ '\n' ∈ t.alt ∨ '\n' ∈ t.src ∨ '\n' ∈ t.title := by
  simp [imageText, newline_mem_destination]

theorem newline_mem_escapeBars (inside : Inside) (t : Text) :
    '\n' ∈ escapeBars inside t ↔ '\n' ∈ t := by
  unfold escapeBars
  split_ifs
  · exact Text.mem_replaceChar_iff (by decide) (by decide) t
  · rfl

theorem newline_mem_codeSpan (t : Text) : '\n' ∈ codeSpan t ↔ '\n' ∈ t := by
  have hticks (n : Nat) : '\n' ∉ ticks n := by simp [ticks]
  have hpad (b : Bool) : '\n' ∉ (if b then [' '] else [] : Text) := by cases b <;> decide
  unfold codeSpan
  dsimp only
  simp only [List.mem_append, or_iff_right (hticks _), or_iff_left (hticks _),
    or_iff_right (hpad _), or_iff_left (hpad _)]

theorem newline_mem_text {setting : Setting} (havoids : setting.reflinks.Avoids '\n')
    (inside : Inside) (s : Sight) : '\n' ∈ text setting inside s ↔ '\n' ∈ s.token.content := by
  have hescaped : '\n' ∈ Escape.escape (atLineStart s.before) s.token.content ↔
      '\n' ∈ s.token.content := Escape.mem_escapeFrom_iff (by decide)
  unfold text
  rw [newline_mem_escapeBars]
  split_ifs
  · rw [Reflink.newline_mem_expandLenient_iff havoids, hescaped]
  · exact hescaped

/-- The end of a mark ends the line only where it ends anyway. -/
theorem closeMark_cases (inside : Inside) (after : List Token) (marker : Text) :
    closeMark inside after marker = marker ∨
      (closeMark inside after marker = marker ++ ['\n'] ∧ lineEnds after = true) := by
  unfold closeMark lineEnds
  split_ifs
  · exact .inl rfl
  · split
    · next h => exact .inr ⟨rfl, by simp [h]⟩
    · next h => exact .inr ⟨rfl, by simp [h]⟩
    · exact .inl rfl

end Texts

/-- The texts that a token copies into what it writes or into the end of its link, where a line
break counts as a line feed. -/
def Visit.copied (v : Visit) : List Text :=
  match v.token.kind with
  | .leaf .text | .leaf .code => [v.token.content]
  | .leaf .softBreak | .leaf .hardBreak => ["\n"]
  | _ => v.exposed

/-- Whether a token is the end of a mark, which may end the line. -/
def endsMark (k : Kind) : Bool :=
  [Kind.closing .emphasis, .closing .strong, .closing .deleted].contains k

/-- Whether the last token is the end of a mark. -/
def endsInMark (ts : List Token) : Bool :=
  ts.getLast?.any (endsMark ·.kind)

/-- Whether tokens are written without a line feed, except at the very end behind a mark. -/
def IsOneLine (ts : List Token) (written : Text) : Prop :=
  '\n' ∉ written.dropLast ∧ ('\n' ∈ written → endsInMark ts = true)

section Lines

variable {t : Token} {ts : List Token} {u v : Text}

theorem endsInMark_singleton : endsInMark [t] = endsMark t.kind := rfl

theorem endsInMark_cons_of_ne_nil (h : ts ≠ []) : endsInMark (t :: ts) = endsInMark ts := by
  obtain ⟨u, ts, rfl⟩ := List.exists_cons_of_ne_nil h
  rw [endsInMark, List.getLast?_cons_cons, endsInMark]

theorem isOneLine_nil (ts : List Token) : IsOneLine ts [] :=
  ⟨List.not_mem_nil, fun h => absurd h List.not_mem_nil⟩

theorem isOneLine_append_iff (hu : '\n' ∉ u) (hts : ts = [] → v = []) :
    IsOneLine (t :: ts) (u ++ v) ↔ IsOneLine ts v := by
  by_cases hv : v = []
  · subst hv
    have hinit : '\n' ∉ u.dropLast := fun h => hu (List.dropLast_subset _ h)
    simp [IsOneLine, hu, hinit]
  · have hne : ts ≠ [] := fun h => hv (hts h)
    simp [IsOneLine, List.dropLast_append_of_ne_nil hv, hu, endsInMark_cons_of_ne_nil hne]

theorem not_isOneLine_of_ne_nil (hu : '\n' ∈ u) (hv : v ≠ []) : ¬ IsOneLine ts (u ++ v) := by
  rintro ⟨hinit, -⟩
  rw [List.dropLast_append_of_ne_nil hv] at hinit
  exact hinit (List.mem_append_left _ hu)

/-- A line feed that no mark has written is not the last character behind a mark. -/
theorem not_isOneLine_of_mem (hu : '\n' ∈ u) (ht : endsMark t.kind = false)
    (hts : endsInMark ts = true → v ≠ []) : ¬ IsOneLine (t :: ts) (u ++ v) := by
  by_cases hv : v = []
  · rintro ⟨-, hend⟩
    have hmark := hend (List.mem_append_left _ hu)
    by_cases hne : ts = []
    · rw [hne, endsInMark_singleton, ht] at hmark
      cases hmark
    · exact hts (endsInMark_cons_of_ne_nil hne ▸ hmark) hv
  · exact not_isOneLine_of_ne_nil hu hv

/-- A mark that ends its line is the last token, or stands before what is on more than one line. -/
theorem isOneLine_end_iff (ht : endsMark t.kind = true) (hu : '\n' ∉ u) (hts : ts = [] → v = [])
    (hbreak : ts ≠ [] → ¬ IsOneLine ts v) :
    IsOneLine (t :: ts) (u ++ ['\n'] ++ v) ↔ IsOneLine ts v := by
  by_cases hne : ts = []
  · obtain rfl := hts hne
    subst hne
    refine iff_of_true ⟨?_, fun _ => ht⟩ (isOneLine_nil [])
    rwa [List.append_nil, List.dropLast_concat]
  · have hv : v ≠ [] := fun h => hbreak hne (h ▸ isOneLine_nil ts)
    exact iff_of_false (not_isOneLine_of_ne_nil (by simp) hv) (hbreak hne)

end Lines

/-- What a token writes has a line feed if one of these texts has, which it copies. Only the end of a
mark writes one of its own, behind the mark, where the line ends or breaks anyway. -/
inductive LineStep (s : Sight) (written : Text) (ts : List Text) : Prop
  | copies (h : '\n' ∈ written ↔ '\n' ∈ ts.flatten)
    (hmark : '\n' ∈ written → endsMark s.token.kind = false)
  | ends {mark : Text} (hmark : endsMark s.token.kind = true) (hm : '\n' ∉ mark)
    (hwritten : written = mark ++ ['\n']) (hline : lineEnds s.after = true) (hts : ts = [])

section Steps

variable {setting : Setting} {state : State} {s : Sight} {opened : List Construct}
  {own : List LinkFrame} {after : List Token}

theorem LineStep.plain {written : Text} (h : '\n' ∉ written) : LineStep s written [] :=
  .copies (iff_of_false h List.not_mem_nil) fun hn => absurd hn h

theorem LineStep.closeMark {mark : Text} (hmark : endsMark s.token.kind = true) (hm : '\n' ∉ mark)
    (inside : Inside) : LineStep s (closeMark inside s.after mark) [] := by
  rcases closeMark_cases inside s.after mark with h | ⟨h, hends⟩
  · exact .plain (by rwa [h])
  · exact .ends hmark hm h hends rfl

/-- Content is written on one line exactly if its first token copies no line feed and what comes
behind that token is. Behind a line break `p` does not hold of it. -/
theorem LineStep.isOneLine_iff {written behind : Text} {texts : List Text} {rest : List Token}
    {p : Prop} (h : LineStep s written texts)
    (hsoft : s.token.kind = .leaf .softBreak → '\n' ∈ written)
    (hends : endsInMark rest = true → behind ≠ []) (hempty : rest = [] → behind = [])
    (hnext : following? rest = following? s.after)
    (hrest : s.token.kind ≠ .leaf .softBreak → (IsOneLine rest behind ↔ p))
    (hbreaks : following? rest = some (.leaf .softBreak) → ¬ p) :
    IsOneLine (s.token :: rest) (written ++ behind) ↔ '\n' ∉ texts.flatten ∧ p := by
  cases h with
  | copies hwritten hmark =>
    by_cases hn : '\n' ∈ written
    · exact iff_of_false (not_isOneLine_of_mem hn (hmark hn) hends) fun h => h.1 (hwritten.1 hn)
    · rw [isOneLine_append_iff hn hempty, hrest (mt hsoft hn)]
      exact (and_iff_right (mt hwritten.2 hn)).symm
  | ends hmark hm hwritten hline hts =>
    have hrest := hrest fun hk => by
      rw [hk] at hmark
      cases hmark
    -- What stands behind the mark begins with a line break if anything does.
    have hbreak : rest ≠ [] → ¬ IsOneLine rest behind := fun hne hone => by
      obtain ⟨u, us, rfl⟩ := List.exists_cons_of_ne_nil hne
      refine hbreaks ?_ (hrest.1 hone)
      rw [lineEnds, ← hnext] at hline
      simpa [following?] using hline
    rw [hwritten, hts, isOneLine_end_iff hmark hm hempty hbreak, hrest]
    exact (and_iff_right List.not_mem_nil).symm

/-- Only a strong run behind a line break begins with a line feed. -/
theorem newline_not_mem_opening {c : Construct} (hs : s.token.kind = .opening c)
    (hk : s.token.kind.isInline = true) (hbefore : preceding? s.before ≠ some (.leaf .softBreak)) :
    '\n' ∉ (rule setting state s).2 := by
  rw [rule_opening hs]
  cases c with
  | emphasis | deleted => simp [openRule]
  | strong =>
    simp only [openRule, strongOpen, beq_iff_eq, if_neg hbefore]
    decide
  | link => exact not_mem_linkOpen (.inr rfl)
  | _ => simp [hs, Kind.isInline] at hk

theorem PutAside.lineStep_closing {c : Construct} (h : PutAside (c :: opened) own state)
    (hs : s.token.kind = .closing c) (hk : s.token.kind.isInline = true) :
    ∃ ts own', LineStep s (rule setting state s).2 ts ∧
      PutAside opened own' (rule setting state s).1 ∧
      own.flatMap LinkFrame.exposed = ts ++ own'.flatMap LinkFrame.exposed := by
  rcases @PutAside.closing setting state s opened own c h hs hk with
    ⟨rfl, frame, own', rfl, hwritten, hown⟩ | ⟨hc, hown⟩
  · refine ⟨frame.exposed, own', .copies ?_ fun _ => by rw [hs]; rfl, hown, rfl⟩
    rw [hwritten, LinkFrame.newline_mem_written]
  · refine ⟨[], own, ?_, hown, rfl⟩
    rw [rule_closing hs]
    cases c with
    | emphasis | deleted => exact .closeMark (by rw [hs]; rfl) (by decide) state.inside
    | strong =>
      simp only [closeRule, strongClose]
      split_ifs
      · exact .plain (by decide)
      · exact .closeMark (by rw [hs]; rfl) (by decide) state.inside
    | link => exact absurd rfl hc
    | _ => simp [hs, Kind.isInline] at hk

theorem newline_mem_leafRule {l : Leaf} (havoids : setting.reflinks.Avoids '\n')
    (hs : s.token.kind = .leaf l) (ht : s.token.IsRead) : '\n' ∈ (leafRule setting state s l).2 ↔
      '\n' ∈ (Visit.copied ⟨s.before, s.token, after⟩).flatten := by
  have hk := ht.isInline
  unfold Visit.copied Visit.exposed
  rw [hs]
  cases l with
  | image =>
    rw [leafRule, @written_image state s after hs]
    cases Visit.badge? ⟨s.before, s.token, after⟩ <;>
      simp [newline_mem_imageText, or_assoc]
  | text => simpa [leafRule] using newline_mem_text havoids state.inside s
  | code =>
    rw [leafRule_code (ht.span hs)]
    simp [newline_mem_codeSpan, newline_mem_escapeBars]
  | sup | htmlTag | softBreak | hardBreak => simp [leafRule]
  | footnoteRef => simpa [leafRule] using not_mem_footnoteRef (.inr rfl) s.token
  | footnoteAnchor => simpa [leafRule] using not_mem_footnoteAnchor (.inr rfl) s.token
  | _ => simp [hs, Kind.isInline] at hk

/-- What one token writes, and what it copies now or puts aside for the end of its link. -/
theorem PutAside.lineStep {t : Token} {rest : List Token} (h : PutAside opened own state)
    (havoids : setting.reflinks.Avoids '\n') (ht : s.token.IsRead) (hk : s.token.kind = t.kind)
    (hbracketed : isBracketed (fun _ => none) opened (t :: rest) = true)
    (hafter : following? after = following? s.after)
    (hbefore : preceding? s.before ≠ some (.leaf .softBreak)) :
    ∃ opened' own' ts, PutAside opened' own' (rule setting state s).1 ∧
      isBracketed (fun _ => none) opened' rest = true ∧ LineStep s (rule setting state s).2 ts ∧
      (ts ++ own'.flatMap LinkFrame.exposed).Perm
        (own.flatMap LinkFrame.exposed ++ Visit.copied ⟨s.before, s.token, after⟩) := by
  rcases isBracketed_cases (hk ▸ ht.isInline) hbracketed with
    ⟨c, hs, hrest⟩ | ⟨c, outer, hs, rfl, hrest⟩ | ⟨l, hs, hrest⟩
  · rw [← hk] at hs
    obtain ⟨own', hown', hown⟩ := @PutAside.opening setting state s opened own after c h hs
      ht.isInline hafter
    refine ⟨c :: opened, own', [], hown', hrest,
      .plain (newline_not_mem_opening hs ht.isInline hbefore), ?_⟩
    have hcopied : Visit.copied ⟨s.before, s.token, after⟩ =
        Visit.exposed ⟨s.before, s.token, after⟩ := by simp only [Visit.copied, hs]
    rw [List.nil_append, hown, hcopied]
    exact List.perm_append_comm
  · rw [← hk] at hs
    obtain ⟨ts, own', hwritten, hown', hown⟩ :=
      @PutAside.lineStep_closing setting state s outer own c h hs ht.isInline
    refine ⟨outer, own', ts, hown', hrest, hwritten, ?_⟩
    simp [Visit.copied, Visit.exposed, hs, hown]
  · rw [← hk] at hs
    refine ⟨opened, own, _, h.leaf hs, hrest, .copies ?_ fun _ => by rw [hs]; rfl,
      List.perm_append_comm⟩
    rw [rule_leaf hs]
    exact newline_mem_leafRule havoids hs ht

end Steps

section Walks

variable {setting : Setting} {tokens : List Token}

/-- The end of a mark writes something. -/
theorem written_ne_nil_of_endsMark {state : State} {s : Sight} (h : endsMark s.token.kind = true) :
    (rule setting state s).2 ≠ [] := by
  have hclose (mark : Text) (hne : mark ≠ []) : closeMark state.inside s.after mark ≠ [] := by
    rcases closeMark_cases state.inside s.after mark with hc | ⟨hc, -⟩ <;> simp [hc, hne]
  simp only [endsMark, List.contains_iff_mem, List.mem_cons, List.not_mem_nil, or_false] at h
  rcases h with hk | hk | hk
  · rw [rule_closing hk]
    exact hclose "_" (by decide)
  · rw [rule_closing hk, closeRule, strongClose]
    dsimp only
    split_ifs
    · decide
    · exact hclose "**" (by decide)
  · rw [rule_closing hk]
    exact hclose "~~" (by decide)

theorem written_ne_nil_of_endsInMark (hinline : ∀ t ∈ tokens, t.kind.isInline = true) :
    ∀ (state : State) (before : List Token) (openLinks : Nat) (takes : Bool),
      endsInMark (walk setting state before openLinks takes tokens).tokens = true →
        (walk setting state before openLinks takes tokens).written ≠ [] := by
  induction tokens with
  | nil =>
    intro state before openLinks takes h
    rw [walk_nil] at h
    cases h
  | cons t after ih =>
    intro state before openLinks takes h
    obtain ⟨ht, hafter⟩ := List.forall_mem_cons.1 hinline
    rw [walk_cons (step_of_isInline ht state before after openLinks takes) rfl] at h ⊢
    generalize hw : walk setting _ _ _ _ after = w at h ⊢
    rw [Walk.written, List.flatMap_cons, ← Walk.written]
    dsimp only at h
    by_cases hrest : w.tokens = []
    · rw [hrest, endsInMark_singleton] at h
      exact List.append_ne_nil_of_left_ne_nil (written_ne_nil_of_endsMark h) _
    · rw [endsInMark_cons_of_ne_nil hrest, ← hw] at h
      exact List.append_ne_nil_of_right_ne_nil _ (hw ▸ ih hafter _ _ _ _ h)

theorem newline_mem_copied {before ts : List Token} (h : following? ts = some (.leaf .softBreak)) :
    '\n' ∈ ((visits before ts).flatMap Visit.copied).flatten := by
  rcases ts with _ | ⟨t, ts⟩
  · cases h
  · have ht : t.kind = .leaf .softBreak := Option.some.inj h
    rw [visits_cons_leaf (by rw [ht]; nofun), List.flatMap_cons, List.flatten_append, Visit.copied]
    simp [ht]

/-- Bracketed inline content that does not stand behind a line break is written on one line exactly
if no line feed is copied out of it or has been put aside for the links around it. -/
theorem isOneLine_walk (havoids : setting.reflinks.Avoids '\n') (hread : ∀ t ∈ tokens, t.IsRead) :
    ∀ {opened : List Construct} {own : List LinkFrame} {state : State}, PutAside opened own state →
      isBracketed (fun _ => none) opened tokens = true →
      ∀ (before : List Token) (openLinks : Nat) (takes : Bool) {w : Walk},
        preceding? before ≠ some (.leaf .softBreak) →
        walk setting state before openLinks takes tokens = w →
        (IsOneLine w.tokens w.written ↔ '\n' ∉ (own.flatMap LinkFrame.exposed ++
          (visits before w.tokens).flatMap Visit.copied).flatten) := by
  induction tokens with
  | nil =>
    rintro opened own state h hbracketed before openLinks takes w - rfl
    obtain rfl : opened = [] := by simpa [isBracketed] using hbracketed
    obtain rfl : own = [] := List.length_eq_zero_iff.1 h.length
    rw [walk_nil, visits_nil]
    simp [IsOneLine, Walk.written]
  | cons t after ih =>
    rintro opened own state h hbracketed before openLinks takes w hbefore rfl
    obtain ⟨ht, hafter⟩ := List.forall_mem_cons.1 hread
    have hsettled := isRead_settle ht takes after
    have hinline : ∀ c ∈ after, c.kind.isInline = true := fun c hc => (hafter c hc).isInline
    rw [walk_cons (step_of_isInline ht.isInline state before after openLinks takes) rfl]
    generalize hw : walk setting _ _ _ _ after = w
    have hnext : following? w.tokens = following? after :=
      hw ▸ following?_walk setting _ _ _ _ after
    have hends : endsInMark w.tokens = true → w.written ≠ [] :=
      hw ▸ written_ne_nil_of_endsInMark hinline _ _ _ _
    obtain ⟨opened', own', ts, hown, hbracketed', hstep, hperm⟩ := @PutAside.lineStep setting state
      ⟨before, settle takes t after, after, openLinks⟩ _ _ w.tokens _ _ h havoids hsettled
      (kind_settle takes t after) hbracketed hnext hbefore
    rw [visits_cons_leaf (Kind.ne_of_isInline hsettled.isInline), List.flatMap_cons, Walk.written,
      List.flatMap_cons, ← Walk.written]
    have hcopied : '\n' ∈ (own.flatMap LinkFrame.exposed ++
        (Visit.copied ⟨before, settle takes t after, w.tokens⟩ ++
          (visits (settle takes t after :: before) w.tokens).flatMap Visit.copied)).flatten ↔
        '\n' ∈ ts.flatten ∨ '\n' ∈ (own'.flatMap LinkFrame.exposed ++
          (visits (settle takes t after :: before) w.tokens).flatMap Visit.copied).flatten := by
      rw [← List.append_assoc, ← List.mem_append, ← List.flatten_append, ← List.append_assoc]
      simp only [List.mem_flatten, (hperm.append_right _).mem_iff]
    rw [hcopied, not_or]
    have hrest (hk : (settle takes t after).kind ≠ .leaf .softBreak) :=
      ih hafter hown hbracketed' (settle takes t after :: before) _ _
        (fun h => hk (Option.some.inj h)) hw
    have hempty : w.tokens = [] → w.written = [] := fun h => by
      rcases after with _ | ⟨u, after⟩
      · rw [← hw, walk_nil]
        rfl
      · rw [h] at hnext
        cases hnext
    refine hstep.isOneLine_iff (fun hk => by rw [rule_leaf hk]; simp [leafRule]) hends hempty hnext
      (fun hk => ih hafter hown hbracketed' (settle takes t after :: before) _ _
        (fun h => hk (Option.some.inj h)) hw) fun hsoft hn => hn ?_
    rw [List.flatten_append]
    exact List.mem_append_right _ (newline_mem_copied hsoft)

end Walks

end Render

end TidyMark
