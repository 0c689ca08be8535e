import TidyMark.Proofs.Plan
import TidyMark.Proofs.Prose

/-!
# Where lines begin

A sheet keeps the text of each open frame apart from that of the frames around it. It comes to the
same text as the canvas with balanced pieces (`draw?_of_isBalanced`), and what has been written in
one frame is not touched before that frame closes.

So what begins a line of the innermost frame begins a line of the final text, behind what the
frames around it put before their lines: an item spaces, or its marker on its first line, and a
quote its mark (`exists_line_run`). Condensing and trimming leave it there (`exists_line_polish`).
-/

namespace TidyMark

open Text

namespace Text

/-- Whether the next character begins a line. -/
def EndsLine (t : Text) : Prop :=
  t = [] ∨ ∃ u, t = u ++ ['\n']

/-- Whether a text begins with a character that shows, if it is not empty. -/
def BeginsVisible (t : Text) : Prop :=
  ∀ c ∈ t.head?, isBlank c = false

/-- What can be the marker of an item. -/
structure IsMarker (t : Text) : Prop where
  ne_nil : t ≠ []
  visible : BeginsVisible t
  newline_not_mem : '\n' ∉ t

/-- Whether a text is white space inside a line. -/
def IsGap (t : Text) : Prop :=
  ∀ c ∈ t, isBlank c = true ∧ c ≠ '\n'

section Lines

theorem endsLine_newline (u : Text) : EndsLine (u ++ ['\n']) :=
  .inr ⟨u, rfl⟩

theorem EndsLine.append {s t : Text} (hs : EndsLine s) (ht : EndsLine t) : EndsLine (s ++ t) := by
  rcases ht with rfl | ⟨u, rfl⟩
  · rwa [List.append_nil]
  · exact .inr ⟨s ++ u, (List.append_assoc _ _ _).symm⟩

theorem EndsLine.dropWhile {t : Text} (h : EndsLine t) (p : Char → Bool) :
    EndsLine (t.dropWhile p) := by
  rcases h with rfl | ⟨u, rfl⟩
  · exact .inl rfl
  · rw [List.dropWhile_append]
    split_ifs
    · rw [List.dropWhile_cons]
      split_ifs
      · exact .inl rfl
      · exact endsLine_newline []
    · exact endsLine_newline _

theorem IsGap.newline_not_mem {t : Text} (h : IsGap t) : '\n' ∉ t :=
  fun hm => (h _ hm).2 rfl

theorem beginsVisible_nil : BeginsVisible [] :=
  fun _ h => nomatch h

theorem BeginsVisible.append {s t : Text} (h : IsMarker s) : BeginsVisible (s ++ t) := by
  rcases s with _ | ⟨c, s⟩
  · exact absurd rfl h.ne_nil
  · exact h.visible

theorem lines_append_newline (s t : Text) :
    lines (s ++ '\n' :: t) = (splitLines s).map dropReturn ++ lines t := by
  have hne := splitLines_ne_nil t
  simp only [lines, splitLines_append_newline, List.dropLast_append_of_ne_nil hne,
    List.getLast?_append_of_ne_nil _ hne, List.map_append]
  split <;> simp

theorem dropReturn_append {c : Char} (hc : c ≠ '\r') (s t : Text) :
    ∃ t', dropReturn (s ++ c :: t) = s ++ c :: t' := by
  unfold dropReturn
  split_ifs with h
  · rcases t.eq_nil_or_concat with rfl | ⟨t', d, rfl⟩
    · simp [hc] at h
    · exact ⟨t', by rw [List.concat_eq_append, ← List.cons_append, ← List.append_assoc,
        List.dropLast_concat]⟩
  · exact ⟨t, rfl⟩

/-- The first line of a text that shows something on it. -/
theorem exists_lines_eq {m : Text} (hm : '\n' ∉ m) {c : Char} (hc : isBlank c = false) (s : Text) :
    ∃ s' rest, lines (m ++ c :: s) = (m ++ c :: s') :: rest := by
  have hmc : '\n' ∉ m ++ [c] := by simpa [hm] using (ne_of_not_isBlank hc rfl).symm
  obtain ⟨first, rest, -, h⟩ := splitLines_append hmc s
  simp only [List.append_assoc, List.singleton_append] at h
  rw [lines, h]
  rcases rest with _ | ⟨r, rest⟩
  · refine ⟨first, [], ?_⟩
    rcases hl : m ++ c :: first with _ | ⟨d, l⟩
    · simp at hl
    · rfl
  · obtain ⟨s', hs'⟩ := dropReturn_append (ne_of_not_isBlank hc rfl) m first
    refine ⟨s', ?_⟩
    simp only [List.dropLast_cons_cons, List.map_cons, hs']
    split
    · exact ⟨_, rfl⟩
    · exact ⟨_, rfl⟩
    · exact ⟨_, List.cons_append⟩

theorem exists_join_append (lines : List Text) : ∃ a, EndsLine a ∧ ∀ (line : Text) (rest : List Text),
    ∃ r, join "\n" (lines ++ line :: rest) = a ++ line ++ r := by
  induction lines with
  | nil =>
    refine ⟨[], .inl rfl, fun line rest => ?_⟩
    rcases rest with _ | ⟨r, rest⟩
    · exact ⟨[], by simp [join]⟩
    · exact ⟨"\n" ++ join "\n" (r :: rest), by simp [join]⟩
  | cons l lines ih =>
    obtain ⟨a, ha, h⟩ := ih
    refine ⟨l ++ "\n" ++ a, .append (endsLine_newline l) ha, fun line rest => ?_⟩
    obtain ⟨r, hr⟩ := h line rest
    refine ⟨r, ?_⟩
    rw [List.append_assoc, List.append_assoc, ← List.append_assoc a, ← hr, List.cons_append]
    rcases hl : lines ++ line :: rest with _ | ⟨l', ls⟩
    · simp at hl
    · simp [join]

end Lines

end Text

namespace Render

section Closing

theorem quoteLines_append {line : Text} (hline : line.allBlank = false) (rest : List Text) :
    ∀ (lines : List Text) (afterBlank : Bool), quoteLines afterBlank (lines ++ line :: rest) =
      quoteLines afterBlank lines ++ ("> " ++ line) :: quoteLines false rest
  | [], afterBlank => by simp [quoteLines, hline]
  | l :: lines, afterBlank => by
    rw [List.cons_append, quoteLines, quoteLines, quoteLines_append hline rest lines,
      quoteLines_append hline rest lines]
    split_ifs <;> rfl

theorem allBlank_append_cons (m : Text) {c : Char} (hc : isBlank c = false) (s : Text) :
    allBlank (m ++ c :: s) = false := by
  simp [allBlank, hc]

/-- What begins a line in a quote stands directly behind the mark of the quote. -/
theorem exists_line_quote {a m : Text} (ha : EndsLine a) (hm : '\n' ∉ m) : ∃ a', EndsLine a' ∧
    ∀ c s, isBlank c = false → ∃ s', quote (a ++ m ++ c :: s) = a' ++ ("> " ++ m) ++ c :: s' := by
  have hquoted : ∀ lines : List Text, ∃ a', EndsLine a' ∧ ∀ c s rest, isBlank c = false →
      ∃ s', join "\n" (quoteLines false (lines ++ (m ++ c :: s) :: rest)) =
        a' ++ ("> " ++ m) ++ c :: s' := by
    intro lines
    obtain ⟨a', ha', h⟩ := exists_join_append (quoteLines false lines)
    refine ⟨a', ha', fun c s rest hc => ?_⟩
    rw [quoteLines_append (allBlank_append_cons m hc s)]
    obtain ⟨r, hr⟩ := h ("> " ++ (m ++ c :: s)) (quoteLines false rest)
    exact ⟨s ++ r, by rw [hr]; simp⟩
  have hstart : ∀ c s, isBlank c = false → (trimEnd (a ++ m ++ c :: s)).dropWhile (· == '\n') =
      a.dropWhile (· == '\n') ++ (m ++ c :: Text.trimEnd s) := by
    intro c s hc
    have hshow : (m ++ c :: Text.trimEnd s).dropWhile (· == '\n') = m ++ c :: Text.trimEnd s := by
      rcases m with _ | ⟨d, m⟩
      · simpa using ne_of_not_isBlank hc rfl
      · simp only [List.mem_cons, not_or] at hm
        simpa using Ne.symm hm.1
    rw [trimEnd, Reflink.dropEndWhile_append_cons hc, List.append_assoc, List.dropWhile_append, ← trimEnd,
      hshow]
    split_ifs with h
    · rw [List.isEmpty_iff.1 h, List.nil_append]
    · rfl
  rcases ha.dropWhile (· == '\n') with hnil | ⟨v, hv⟩
  · obtain ⟨a', ha', h⟩ := hquoted []
    refine ⟨a', ha', fun c s hc => ?_⟩
    obtain ⟨s₁, rest, hs₁⟩ := exists_lines_eq hm hc (Text.trimEnd s)
    rw [quote, hstart c s hc, hnil, List.nil_append, hs₁]
    exact h c s₁ rest hc
  · obtain ⟨a', ha', h⟩ := hquoted ((splitLines v).map dropReturn)
    refine ⟨a', ha', fun c s hc => ?_⟩
    obtain ⟨s₁, rest, hs₁⟩ := exists_lines_eq hm hc (Text.trimEnd s)
    rw [quote, hstart c s hc, hv, List.append_assoc, List.singleton_append, lines_append_newline,
      hs₁]
    exact h c s₁ rest hc

theorem indentContinuations_append_newline (width : Nat) (u t : Text) :
    indentContinuations width (u ++ '\n' :: t) =
      indentContinuations width u ++ continuations width t := by
  obtain ⟨first, rest, h⟩ := List.exists_cons_of_ne_nil (splitLines_ne_nil u)
  simp [indentContinuations, continuations, splitLines_append_newline, h]

theorem indentContinuations_newline (width : Nat) (u : Text) :
    indentContinuations width (u ++ ['\n']) = indentContinuations width u ++ ['\n'] := by
  rw [indentContinuations_append_newline]
  rfl

/-- What stands on the first line of an item stays there. -/
theorem exists_first_line_item {m : Text} (hm : '\n' ∉ m) (width : Nat) {c : Char}
    (hc : isBlank c = false) (s : Text) :
    ∃ s', indentContinuations width (m ++ c :: s) = m ++ c :: s' := by
  have hmc : '\n' ∉ m ++ [c] := by simpa [hm] using (ne_of_not_isBlank hc rfl).symm
  obtain ⟨first, rest, -, h⟩ := splitLines_append hmc s
  simp only [List.append_assoc, List.singleton_append] at h
  exact ⟨first ++ rest.flatMap (indentContinuations.indentLine width), by
    simp [indentContinuations, h]⟩

/-- What begins another line of an item stands directly behind its indentation. -/
theorem exists_line_item {m : Text} (hm : '\n' ∉ m) (width : Nat) (u : Text) {c : Char}
    (hc : isBlank c = false) (s : Text) :
    ∃ s', indentContinuations width (u ++ '\n' :: (m ++ c :: s)) =
      indentContinuations width u ++ ['\n'] ++ (List.replicate width ' ' ++ m) ++ c :: s' := by
  have hmc : '\n' ∉ m ++ [c] := by simpa [hm] using (ne_of_not_isBlank hc rfl).symm
  obtain ⟨rest, hrest⟩ := continuations_append hmc (allBlank_append_cons m hc []) width s
  simp only [List.append_assoc, List.singleton_append] at hrest
  exact ⟨rest, by rw [indentContinuations_append_newline, hrest]; simp⟩

end Closing

/-- A frame that is open, with what stands before it in the frame around it. -/
structure Layer where
  kind : FrameKind
  above : Text
  opening : Text

namespace Layer

/-- The text of the frame around it when the frame closes. -/
def closed (l : Layer) (body : Text) : Text :=
  l.above ++ l.opening ++ l.kind.change l.opening.byteLength body

/-- What a frame puts before its lines. -/
def edge (l : Layer) : Text :=
  match l.kind with
  | .quote => "> "
  | .item => List.replicate l.opening.byteLength ' '

/-- What stands in front of a line of a frame with this text above it: on the first line of an item
that is its marker. -/
def edgeBelow (l : Layer) (above : Text) : Text :=
  match l.kind with
  | .quote => l.edge
  | .item => if above.isEmpty then l.opening else l.edge

/-- Whether a frame opens at the beginning of a line, an item behind another line. -/
structure IsSet (l : Layer) : Prop where
  quote : l.kind = .quote → l.opening = ['\n']
  item : l.kind = .item → (∃ u, l.above = u ++ ['\n']) ∧ IsMarker l.opening

end Layer

/-- What stands in front of the lines of frames, the innermost of which is the first. -/
def edges : List Layer → Text
  | [] => []
  | l :: layers => edges layers ++ l.edge

/-- What stands in front of a line of the innermost frame with this text above it. -/
def edgesBelow (above : Text) : List Layer → Text
  | [] => []
  | l :: layers => edges layers ++ l.edgeBelow above

/-- What has been written: the text of the innermost frame and, apart from it, the frames that are
open, the innermost first. -/
structure Sheet where
  layers : List Layer := []
  text : Text := []

namespace Sheet

def write (s : Sheet) (t : Text) : Sheet :=
  { s with text := s.text ++ t }

def add (s : Sheet) (p : Piece) : Sheet :=
  match p.role.turn? with
  | none => s.write p.text
  | some (.opens k) => ⟨⟨k, s.text, p.text⟩ :: s.layers, []⟩
  | some (.closes _) =>
    match s.layers with
    | [] => s.write p.text
    | l :: layers => ⟨layers, l.closed s.text ++ p.text⟩

def run (s : Sheet) (pieces : List Piece) : Sheet :=
  pieces.foldl add s

end Sheet

section Running

theorem Sheet.run_append (s : Sheet) (pieces pieces' : List Piece) :
    s.run (pieces ++ pieces') = (s.run pieces).run pieces' :=
  List.foldl_append

theorem Sheet.run_cons (s : Sheet) (p : Piece) (pieces : List Piece) :
    s.run (p :: pieces) = (s.add p).run pieces :=
  rfl

theorem Sheet.write_write (s : Sheet) (t t' : Text) : (s.write t).write t' = s.write (t ++ t') := by
  simp only [write, List.append_assoc]

mutual

theorem sheet_run_plan (s : Sheet) : ∀ p : Plan, s.run p.pieces = s.write p.drawn
  | .text t => rfl
  | .frame k opening body closing => by
    rw [Plan.pieces, Plan.drawn, Sheet.run_cons, Sheet.run_append, Sheet.add, turn?_role,
      sheet_run_plans _ body, Sheet.run_cons, Sheet.add, turn?_role]
    simp [Sheet.run, Sheet.write, Layer.closed]

theorem sheet_run_plans (s : Sheet) : ∀ ps : List Plan,
    s.run (Plan.allPieces ps) = s.write (Plan.allDrawn ps)
  | [] => by simp [Plan.allPieces, Plan.allDrawn, Sheet.run, Sheet.write]
  | p :: ps => by
    rw [Plan.allPieces, Sheet.run_append, sheet_run_plan s p, sheet_run_plans _ ps,
      Sheet.write_write, Plan.allDrawn]

end

theorem draw?_of_isBalanced {pieces : List Piece} (h : isBalanced [] (turns pieces) = true) :
    draw? pieces = some { out := (Sheet.run {} pieces).text } ∧
      (Sheet.run {} pieces).layers = [] := by
  obtain ⟨plans, rfl⟩ := exists_plans h
  rw [sheet_run_plans]
  exact ⟨run_plans {} plans, rfl⟩

/-- What begins a line in a frame begins one in the frame around it when the frame closes. -/
theorem Layer.IsSet.exists_line_closed {l : Layer} (hl : l.IsSet) {a m : Text} (ha : EndsLine a)
    (hm : '\n' ∉ m) : ∃ u, (allBlank (u ++ ['\n']) = true → IsMarker (l.edgeBelow a)) ∧
      ∀ c s, isBlank c = false → ∃ s',
        l.closed (a ++ m ++ c :: s) = u ++ ['\n'] ++ (l.edgeBelow a ++ m) ++ c :: s' := by
  obtain ⟨kind, above, opening⟩ := l
  cases kind with
  | quote =>
    obtain ⟨a', ha', h⟩ := exists_line_quote ha hm
    obtain rfl : opening = ['\n'] := hl.quote rfl
    obtain ⟨u, hu⟩ : ∃ u, above ++ ['\n'] ++ a' = u ++ ['\n'] := by
      rcases ha' with rfl | ⟨u, rfl⟩
      · exact ⟨above, List.append_nil _⟩
      · exact ⟨above ++ ['\n'] ++ u, (List.append_assoc _ _ _).symm⟩
    refine ⟨u, fun _ => ⟨by simp [edgeBelow, edge], fun c hc => ?_,
      by simp [edgeBelow, edge]⟩, fun c s hc => ?_⟩
    · obtain rfl : '>' = c := by simpa [edgeBelow, edge] using hc
      decide
    · obtain ⟨s', hs'⟩ := h c s hc
      refine ⟨s', ?_⟩
      rw [closed, FrameKind.change, hs', ← hu]
      simp [edgeBelow, edge]
  | item =>
    obtain ⟨⟨u, rfl⟩, hmarker⟩ := hl.item rfl
    rcases ha with rfl | ⟨v, rfl⟩
    · refine ⟨u, fun _ => hmarker, fun c s hc => ?_⟩
      · obtain ⟨s', hs'⟩ := exists_first_line_item hm opening.byteLength hc s
        refine ⟨s', ?_⟩
        rw [closed, FrameKind.change, List.nil_append, hs']
        simp [edgeBelow]
    · refine ⟨u ++ ['\n'] ++ opening ++ indentContinuations opening.byteLength v,
        fun hb => ?_, fun c s hc => ?_⟩
      · -- The marker above the line shows.
        rcases opening with _ | ⟨d, opening⟩
        · exact absurd rfl hmarker.ne_nil
        · have hd := hmarker.visible d rfl
          simp [allBlank, hd] at hb
      · obtain ⟨s', hs'⟩ := exists_line_item hm opening.byteLength v hc s
        refine ⟨s', ?_⟩
        have hv : v ++ ['\n'] ++ m ++ c :: s = v ++ '\n' :: (m ++ c :: s) := by simp
        simp only [closed, FrameKind.change, hv, hs']
        simp [edgeBelow, edge]

theorem edgesBelow_of_newline (u : Text) (layers : List Layer) :
    edgesBelow (u ++ ['\n']) layers = edges layers := by
  rcases layers with _ | ⟨⟨_ | _, above, opening⟩, layers⟩ <;>
    simp [edgesBelow, edges, Layer.edgeBelow]

theorem newline_not_mem_edgeBelow {l : Layer} (hl : l.IsSet) (a : Text) : '\n' ∉ l.edgeBelow a := by
  obtain ⟨kind, above, opening⟩ := l
  cases kind with
  | quote => simp [Layer.edgeBelow, Layer.edge]
  | item =>
    unfold Layer.edgeBelow
    dsimp only
    split_ifs
    · exact (hl.item rfl).2.newline_not_mem
    · simp [Layer.edge]

/-- What begins a line of the innermost frame begins a line when all frames have closed, behind
what they put before it, whatever it is and whatever comes behind it. -/
theorem exists_line_run {indent : Text} (hindent : '\n' ∉ indent) {layers : List Layer}
    (hset : ∀ l ∈ layers, l.IsSet) :
    ∀ {a m : Text}, EndsLine a → '\n' ∉ m → (allBlank a = true → BeginsVisible m) →
      ∃ a', EndsLine a' ∧ '\n' ∉ edgesBelow a layers ++ m ∧
        (allBlank a' = true → BeginsVisible (edgesBelow a layers ++ m)) ∧
        ∀ c s pieces, isBlank c = false →
          isBalanced (layers.map (·.kind)) (turns pieces) = true →
            ∃ s', Sheet.run ⟨layers, a ++ (m ++ indent) ++ c :: s⟩ pieces =
              ⟨[], a' ++ (edgesBelow a layers ++ m ++ indent) ++ c :: s'⟩ := by
  induction layers with
  | nil =>
    intro a m ha hm hv
    refine ⟨a, ha, by simpa [edgesBelow] using hm, by simpa [edgesBelow] using hv, ?_⟩
    intro c s pieces _ hb
    obtain ⟨plans, rfl⟩ := exists_plans hb
    refine ⟨s ++ Plan.allDrawn plans, ?_⟩
    rw [sheet_run_plans]
    simp [Sheet.write, edgesBelow]
  | cons l layers ih =>
    intro a m ha hm hv
    obtain ⟨hl, hset⟩ := List.forall_mem_cons.1 hset
    obtain ⟨u, hu, hclosed⟩ := @Layer.IsSet.exists_line_closed _ hl _ (m ++ indent) ha
      (by simp [hm, hindent])
    have hm' : '\n' ∉ l.edgeBelow a ++ m := by simp [hm, newline_not_mem_edgeBelow hl a]
    obtain ⟨a', ha', hedge, hvisible, hrun⟩ := ih hset (endsLine_newline u) hm'
      fun hb => .append (hu hb)
    rw [edgesBelow_of_newline, ← List.append_assoc] at hedge hvisible hrun
    refine ⟨a', ha', hedge, hvisible, fun c s pieces hc hb => ?_⟩
    obtain ⟨plans, closing, rest, rfl, hrest⟩ := begins_of_isBalanced pieces (_ :: _) hb
    obtain ⟨s₁, hs₁⟩ := hclosed c (s ++ Plan.allDrawn plans) hc
    obtain ⟨s', hs'⟩ := hrun c (s₁ ++ closing) rest hc hrest
    refine ⟨s', ?_⟩
    rw [edgesBelow, List.append_assoc (edges layers), ← hs', Sheet.run_append, sheet_run_plans,
      Sheet.run_cons, Sheet.add, turn?_role]
    simp only [Sheet.write, List.append_assoc, List.cons_append, List.nil_append] at hs₁ ⊢
    rw [hs₁]
    simp only [List.append_assoc, List.cons_append]

end Running

section Polishing

/-- What comes before a line feed is condensed alone, and the line feed is one of the breaks that
what comes behind it goes on from. -/
theorem exists_condenseAfter (u : Text) (run : List Break) : ∃ k breaks, breaks ≠ [] ∧
    (∀ c ∈ k.getLast?, c ≠ '\n') ∧
    ∀ t, condenseAfter run (u ++ '\n' :: t) = k ++ condenseAfter breaks t := by
  fun_induction condenseAfter run u with
  | case1 run =>
    refine ⟨[], .lineFeed :: run, by simp, by simp, fun t => ?_⟩
    rw [List.nil_append, condenseAfter, List.nil_append]
  | case2 run rest ih =>
    obtain ⟨k, breaks, hne, hk, h⟩ := ih
    exact ⟨k, breaks, hne, hk, fun t => by rw [List.cons_append, condenseAfter, h]⟩
  | case3 run rest ih =>
    obtain ⟨k, breaks, hne, hk, h⟩ := ih
    exact ⟨k, breaks, hne, hk, fun t => by
      rw [List.cons_append, List.cons_append, condenseAfter, h]⟩
  | case4 run c rest hn hr ih =>
    -- A carriage return at the end becomes one break with the line feed.
    by_cases hlast : c = '\r' ∧ rest = []
    · obtain ⟨rfl, rfl⟩ := hlast
      refine ⟨[], .returnLineFeed :: run, by simp, by simp, fun t => ?_⟩
      rw [List.singleton_append, condenseAfter, List.nil_append]
    · obtain ⟨k, breaks, hne, hk, h⟩ := ih
      refine ⟨condenseRun run ++ c :: k, breaks, hne, ?_, fun t => ?_⟩
      · rw [List.append_cons]
        by_cases hnil : k = []
        · simpa [hnil] using hn
        · rwa [List.getLast?_append_of_ne_nil _ hnil]
      · rw [List.cons_append, condenseAfter, h]
        · simp
        · exact hn
        · rintro t' rfl ht
          rcases rest with _ | ⟨d, rest⟩
          · exact hlast ⟨rfl, rfl⟩
          · cases ht
            exact hr _ rfl rfl

theorem condenseAfter_of_ne {c : Char} (hn : c ≠ '\n') (run : List Break) {t : Text}
    (hr : c = '\r' → t.head? ≠ some '\n') :
    condenseAfter run (c :: t) = condenseRun run ++ c :: condenseAfter [] t := by
  rw [condenseAfter]
  · simpa using hn
  · rintro t' hc rfl
    exact hr hc rfl

/-- What stands on one line with something that shows behind it is left as it is. -/
theorem condenseAfter_line {m : Text} (hm : '\n' ∉ m) {c : Char} (hc : isBlank c = false)
    (run : List Break) (t : Text) :
    condenseAfter run (m ++ c :: t) = condenseRun run ++ (m ++ c :: condense t) := by
  induction m generalizing run with
  | nil =>
    exact condenseAfter_of_ne (ne_of_not_isBlank hc rfl) run fun h =>
      absurd h (ne_of_not_isBlank hc rfl)
  | cons d m ih =>
    simp only [List.mem_cons, not_or] at hm
    rw [List.cons_append, condenseAfter_of_ne (Ne.symm hm.1), ih hm.2]
    · rfl
    · rcases m with _ | ⟨e, m⟩
      · simpa using fun _ => ne_of_not_isBlank hc rfl
      · simp only [List.mem_cons, not_or] at hm
        simpa using fun _ => Ne.symm hm.2.1

theorem allBlank_condenseAfter (run : List Break) (t : Text) :
    allBlank (condenseAfter run t) = allBlank t := by
  have hrun : ∀ run : List Break, allBlank (condenseRun run) = true
    | [] => rfl
    | [.lineFeed] => rfl
    | [.returnLineFeed] => rfl
    | _ :: _ :: _ => rfl
  fun_induction condenseAfter run t with
  | case1 run => exact hrun run
  | case2 run rest ih => simpa [allBlank, isBlank] using ih
  | case3 run rest ih => simpa [allBlank, isBlank] using ih
  | case4 run c rest hn hr ih =>
    have h := hrun run
    simp only [allBlank, List.all_append, List.all_cons] at h ih ⊢
    rw [h, ih, Bool.true_and]

/-- What begins a line begins one when the text has been condensed. -/
theorem exists_line_condense {a : Text} (ha : EndsLine a) : ∃ a', EndsLine a' ∧
    allBlank a' = allBlank a ∧ ∀ m c t, '\n' ∉ m → isBlank c = false →
      condense (a ++ (m ++ c :: t)) = a' ++ (m ++ c :: condense t) := by
  rcases ha with rfl | ⟨u, rfl⟩
  · exact ⟨[], .inl rfl, rfl, fun m c t hm hc => condenseAfter_line hm hc [] t⟩
  · obtain ⟨k, breaks, hne, -, h⟩ := exists_condenseAfter u []
    have hall := allBlank_condenseAfter [] (u ++ ['\n'])
    rw [h, condenseAfter] at hall
    refine ⟨k ++ condenseRun breaks, ?_, hall, fun m c t hm hc => ?_⟩
    · rcases breaks with _ | ⟨b, _ | ⟨b', breaks⟩⟩
      · exact absurd rfl hne
      · cases b
        · exact endsLine_newline k
        · exact .inr ⟨k ++ ['\r'], by simp [condenseRun, Break.text]⟩
      · exact .inr ⟨k ++ ['\n'], by simp [condenseRun]⟩
    · rw [condense, List.append_assoc, List.singleton_append, h, condenseAfter_line hm hc,
        List.append_assoc]

/-- What begins a line begins one in the rendered text. Only at the very beginning white space in
front of it goes. -/
theorem exists_line_polish {a m indent : Text} (ha : EndsLine a) (hm : '\n' ∉ m)
    (hindent : IsGap indent) (hv : allBlank a = true → BeginsVisible m) :
    ∃ a' indent', EndsLine a' ∧ IsGap indent' ∧ ∀ c s, isBlank c = false → ∃ s',
      polish {} (a ++ (m ++ indent) ++ c :: s) = a' ++ (m ++ indent') ++ c :: s' := by
  obtain ⟨a₁, ha₁, hb, h⟩ := exists_line_condense ha
  have hpolish : ∀ c s, isBlank c = false → polish {} (a ++ (m ++ indent) ++ c :: s) =
      trimEnd ((a₁ ++ (m ++ indent ++ c :: condense s)).dropWhile isBlank) ++ ['\n'] := by
    intro c s hc
    rw [List.append_assoc, ← h _ c s (by simp [hm, hindent.newline_not_mem]) hc]
    rfl
  -- The end of a text is trimmed behind whatever shows.
  have hend : ∀ (x s : Text) {c : Char}, isBlank c = false →
      trimEnd (x ++ c :: s) ++ ['\n'] = x ++ c :: (trimEnd s ++ ['\n']) := by
    intro x s c hc
    rw [trimEnd, Reflink.dropEndWhile_append_cons hc, ← trimEnd, List.append_assoc,
      List.cons_append]
  by_cases hall : allBlank a = true ∧ m = []
  · obtain ⟨hall, rfl⟩ := hall
    refine ⟨[], [], .inl rfl, (by simp [IsGap]), fun c s hc =>
      ⟨trimEnd (condense s) ++ ['\n'], ?_⟩⟩
    have hblank : ∀ d ∈ a₁ ++ indent, isBlank d = true := by
      intro d hd
      rcases List.mem_append.1 hd with hd | hd
      · exact List.all_eq_true.1 (hb.trans hall) d hd
      · exact (hindent d hd).1
    rw [hpolish c s hc, List.nil_append, ← List.append_assoc, List.dropWhile_append_of_pos hblank,
      List.dropWhile_cons, if_neg (by simp [hc])]
    exact hend [] (condense s) hc
  · refine ⟨a₁.dropWhile isBlank, indent, ha₁.dropWhile isBlank, hindent, fun c s hc =>
      ⟨trimEnd (condense s) ++ ['\n'], ?_⟩⟩
    have hstart : (a₁ ++ (m ++ indent ++ c :: condense s)).dropWhile isBlank =
        a₁.dropWhile isBlank ++ (m ++ indent ++ c :: condense s) := by
      rw [List.dropWhile_append]
      split_ifs with hnil
      · have ha₁ : allBlank a₁ = true := by simpa [allBlank] using hnil
        rw [List.isEmpty_iff.1 hnil, List.nil_append]
        rcases m with _ | ⟨d, m⟩
        · exact absurd ⟨hb ▸ ha₁, rfl⟩ hall
        · have hd := hv (hb ▸ ha₁) d rfl
          simp [hd]
      · rfl
    rw [hpolish c s hc, hstart, ← List.append_assoc]
    exact hend _ (condense s) hc

end Polishing

end Render

end TidyMark
