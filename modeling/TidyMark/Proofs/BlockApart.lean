import TidyMark.Proofs.BlockStart

/-!
# Blocks stand apart

In the rendered text of a document in which nothing runs on (`endsLines`), headings, rules, code, raw
HTML, rows of tables and markers of items begin lines, so do the lines of quotes, and exactly one
blank line stands between one block at the top and the next (`standsApart`).

For quotes that is `beginsLine_of_quote`: a quote may stand among the pieces as one plain piece, and
every line of it begins with its mark. For blocks at the top it is `apart_of_blocks`: every block
leaves two line feeds behind it unless an item ends there (`exists_gap`), and condensing makes one
blank line of these and whatever line feeds come next (`exists_polish_gap`).

With an empty item it fails (`not_forall_standsApart`).
-/

namespace TidyMark

open Text

namespace Text

section Visible

theorem exists_of_not_allBlank {t : Text} (h : allBlank t = false) :
    ∃ b c s, (∀ d ∈ b, isBlank d = true) ∧ isBlank c = false ∧ t = b ++ c :: s := by
  have hne : t.dropWhile isBlank ≠ [] := by
    intro hnil
    rw [List.dropWhile_eq_nil_iff] at hnil
    rw [allBlank, List.all_eq_true.2 hnil] at h
    cases h
  obtain ⟨c, s, hs⟩ := List.exists_cons_of_ne_nil hne
  refine ⟨t.takeWhile isBlank, c, s, fun d hd => List.mem_takeWhile_imp hd, ?_, ?_⟩
  · have hc := List.head_dropWhile_not isBlank hne
    simp only [hs, List.head_cons] at hc
    exact hc
  · rw [← hs, List.takeWhile_append_dropWhile]

/-- Trimming begins with what is visible, whatever blanks are in front of it. -/
theorem trimStart_append {b : Text} (hb : ∀ d ∈ b, isBlank d = true) {c : Char}
    (hc : isBlank c = false) (s : Text) : trimStart (b ++ c :: s) = c :: s := by
  rw [trimStart, List.dropWhile_append_of_pos hb, List.dropWhile_cons, if_neg (by simp [hc])]

theorem trimEnd_append (x : Text) {c : Char} (hc : isBlank c = false) (s : Text) :
    trimEnd (x ++ c :: s) = x ++ c :: trimEnd s :=
  Reflink.dropEndWhile_append_cons hc x s

end Visible

section Lines

theorem newline_not_mem_of_mem_lines {t line : Text} (h : line ∈ lines t) : '\n' ∉ line := by
  have hreturn : ∀ u : Text, '\n' ∉ u → '\n' ∉ dropReturn u := by
    intro u hu hm
    unfold dropReturn at hm
    split_ifs at hm
    · exact hu (List.dropLast_subset _ hm)
    · exact hu hm
  have hended : line ∈ (splitLines t).dropLast.map dropReturn → '\n' ∉ line := by
    intro hm
    obtain ⟨u, hu, rfl⟩ := List.mem_map.1 hm
    exact hreturn u (newline_not_mem_of_mem_splitLines (List.dropLast_subset _ hu))
  unfold lines at h
  dsimp only at h
  split at h
  · exact hended h
  · exact hended h
  · next last _ hlast =>
    rcases List.mem_append.1 h with h | h
    · exact hended h
    · obtain rfl := List.mem_singleton.1 h
      exact newline_not_mem_of_mem_splitLines (List.mem_of_getLast? hlast)

/-- Where a line begins in joined lines, one of them begins. -/
theorem head?_of_join : ∀ {lines : List Text} {q q' : Text},
    (∀ line ∈ lines, '\n' ∉ line ∧ line.head? = some '>') → join "\n" lines = q ++ q' →
      EndsLine q → q' ≠ [] → q'.head? = some '>'
  | [], q, q', _, h, _, hne => absurd (List.append_eq_nil_iff.1 h.symm).2 hne
  | [line], q, q', hlines, h, hq, hne => by
    obtain ⟨hline, hhead⟩ := hlines line List.mem_cons_self
    have h : line = q ++ q' := h
    rcases hq with rfl | ⟨u, rfl⟩
    · rwa [← h.trans (List.nil_append _)]
    · exact absurd (by simp [h]) hline
  | line :: line' :: lines, q, q', hlines, h, hq, hne => by
    obtain ⟨hline, hhead⟩ := hlines line List.mem_cons_self
    have ih := fun u (hu : join "\n" (line' :: lines) = u ++ q') (hq : EndsLine u) =>
      head?_of_join (fun l hl => hlines l (List.mem_cons_of_mem _ hl)) hu hq hne
    have h : line ++ '\n' :: join "\n" (line' :: lines) = q ++ q' := by
      rw [← h]
      simp [join]
    rcases hq with rfl | ⟨u, rfl⟩
    · rcases line with _ | ⟨c, line⟩
      · cases hhead
      · rw [← h.trans (List.nil_append _)]
        exact hhead
    · rw [List.append_assoc, List.singleton_append] at h
      rcases List.append_eq_append_iff.1 h with ⟨as, rfl, has⟩ | ⟨bs, rfl, hbs⟩
      · rcases as with _ | ⟨a, as⟩
        · exact ih [] (List.cons.inj has).2 (.inl rfl)
        · obtain ⟨-, has⟩ := List.cons.inj has
          exact ih (as ++ ['\n']) (by simpa using has) (endsLine_newline as)
      · rcases bs with _ | ⟨b, bs⟩
        · exact ih [] (List.cons.inj hbs).2.symm (.inl rfl)
        · obtain ⟨rfl, -⟩ := List.cons.inj hbs
          simp at hline

end Lines

end Text

namespace Render

section Quotes

theorem head?_of_mem_quoteLines {line : Text} : ∀ {lines : List Text} {afterBlank : Bool},
    (∀ l ∈ lines, '\n' ∉ l) → line ∈ quoteLines afterBlank lines →
      '\n' ∉ line ∧ line.head? = some '>'
  | [], _, _, h => by simp [quoteLines] at h
  | l :: lines, afterBlank, hlines, h => by
    obtain ⟨hl, hlines⟩ := List.forall_mem_cons.1 hlines
    rw [quoteLines] at h
    split_ifs at h
    · exact head?_of_mem_quoteLines hlines h
    · rcases List.mem_cons.1 h with rfl | h
      · exact ⟨by decide, rfl⟩
      · exact head?_of_mem_quoteLines hlines h
    · rcases List.mem_cons.1 h with rfl | h
      · exact ⟨by simp [hl], rfl⟩
      · exact head?_of_mem_quoteLines hlines h

/-- Every line of a quote begins with its mark. -/
theorem head?_of_quote {body q q' : Text} (h : quote body = q ++ q') (hq : EndsLine q)
    (hne : q' ≠ []) : q'.head? = some '>' :=
  head?_of_join (fun _ hl => head?_of_mem_quoteLines
    (fun _ hm => newline_not_mem_of_mem_lines hm) hl) h hq hne

mutual

theorem isBalanced_plan (frames : List FrameKind) (rest : List Turn) : ∀ p : Plan,
    isBalanced frames (turns p.pieces ++ rest) = isBalanced frames rest
  | .text t => rfl
  | .frame k opening body closing => by
    rw [Plan.pieces, turns_cons, Canvas.turns_append, turns_cons, turn?_role, turn?_role]
    simp only [Option.toList_some, List.nil_append, List.append_assoc, List.cons_append, isBalanced]
    rw [isBalanced_plans (k :: frames) _ body]
    simp [isBalanced, turns]

theorem isBalanced_plans (frames : List FrameKind) (rest : List Turn) : ∀ ps : List Plan,
    isBalanced frames (turns (Plan.allPieces ps) ++ rest) = isBalanced frames rest
  | [] => rfl
  | p :: ps => by
    rw [Plan.allPieces, Canvas.turns_append, List.append_assoc, isBalanced_plan frames _ p,
      isBalanced_plans frames rest ps]

end

theorem isBalanced_append_congr {rest rest' : List Turn}
    (h : ∀ frames, isBalanced frames rest = isBalanced frames rest') :
    ∀ (frames : List FrameKind) (ts : List Turn),
      isBalanced frames (ts ++ rest) = isBalanced frames (ts ++ rest')
  | frames, [] => h frames
  | frames, .opens k :: ts => isBalanced_append_congr h (k :: frames) ts
  | [], .closes k :: ts => rfl
  | k' :: frames, .closes k :: ts => by
    rw [List.cons_append, List.cons_append, isBalanced, isBalanced,
      isBalanced_append_congr h frames ts]

/-- A plan among pieces may stand there as one piece. -/
theorem isBalanced_of_plan (done : List Piece) (p : Plan) (s : Text) (rest : List Piece) :
    isBalanced [] (turns (done ++ p.pieces ++ rest)) =
      isBalanced [] (turns (done ++ ⟨.plain, s⟩ :: rest)) := by
  rw [List.append_assoc, Canvas.turns_append, Canvas.turns_append done]
  refine isBalanced_append_congr (fun frames => ?_) [] (turns done)
  rw [Canvas.turns_append, isBalanced_plan]
  rfl

/-- Every line of a quote in a document begins a line of the rendered text. -/
theorem beginsLine_of_quote {d : Markdown.Document} {above below : List Token} {t : Token}
    (hd : endsLines d = true)
    (hsplit : Token.ofDocument d = above ++ t :: below) (hk : t.kind = .opening .blockquote) :
    ∃ done body closing rest, (walkAll (.ofOptions {}) (Token.ofDocument d)).pieces =
        done ++ (Plan.frame .quote ['\n'] body closing).pieces ++ rest ∧
      done.length = above.length ∧
      rendered? (walkAll (.ofOptions {}) (Token.ofDocument d)).pieces =
        rendered? (done ++ ⟨.plain, '\n' :: (quote (Plan.allDrawn body) ++ closing)⟩ :: rest) ∧
      ∀ q q', quote (Plan.allDrawn body) = q ++ q' → EndsLine q → q' ≠ [] →
        q'.head? = some '>' ∧
          BeginsLine done .plain ('\n' :: q) rest (edges (Sheet.run {} done).layers) := by
  obtain ⟨-, -, done, written, rest, state, before, hpieces, hlen, hbal, hfits, hwritten⟩ :=
    exists_place hd hsplit
  have hopen : written = ['\n'] := by
    rw [hwritten (by simp [hk])]
    simp [rule, hk, openRule]
  rw [hk, hopen] at hpieces
  rw [hk] at hbal
  obtain ⟨body, closing, rest', rfl, -⟩ :=
    begins_of_isBalanced rest (_ :: _) (@isBalanced_run _ _ {} hbal)
  let p := Plan.frame .quote ['\n'] body closing
  have hp : (walkAll (.ofOptions {}) (Token.ofDocument d)).pieces = done ++ p.pieces ++ rest' := by
    rw [hpieces]
    simp [p, Plan.pieces, Role.ofKind, Turn.role]
  have hframe : done ++ (⟨.ofKind (.opening .blockquote), []⟩ :: (Plan.allPieces body ++
      ⟨(Turn.closes .quote).role, closing⟩ :: rest')) =
        done ++ (Plan.frame .quote [] body closing).pieces ++ rest' := by
    simp [Plan.pieces, Role.ofKind, Turn.role]
  have hplain : ∀ s, isBalanced [] (turns (done ++ ⟨.plain, s⟩ :: rest')) = true := fun s => by
    rw [← isBalanced_of_plan done _ s, ← hframe]
    exact hbal
  refine ⟨done, body, closing, rest', hp, hlen, ?_, fun q q' hquote hq hne =>
    ⟨head?_of_quote hquote hq hne, ?_⟩⟩
  · have hdrawn : p.drawn = '\n' :: (quote (Plan.allDrawn body) ++ closing) := rfl
    have hbal' := (isBalanced_of_plan done p [] rest').trans (hplain [])
    rw [hp, rendered?_of_isBalanced hbal', rendered?_of_isBalanced (hplain _), ← hdrawn,
      List.append_assoc, Sheet.run_append, Sheet.run_append, Sheet.run_append, sheet_run_plan,
      Sheet.run_cons]
    rfl
  · have hbreak : EndsInBreak ((Sheet.run {} done).text ++ '\n' :: q) := by
      rw [List.append_cons]
      exact EndsInBreak.append (endsInBreak_newline.append_left _) hq
    have heq : (Sheet.run {} done).text ++ '\n' :: q =
        (Sheet.run {} done).text ++ '\n' :: q ++ ([] ++ []) := by simp
    have h := beginsLine_of_sheet (.inl rfl) (hplain []) hfits.set heq hbreak.endsLine
      List.not_mem_nil beginsVisible_nil (fun _ h => absurd h List.not_mem_nil)
    obtain ⟨u, hu⟩ := hbreak
    rwa [hu, edgesBelow_of_newline, List.append_nil] at h

end Quotes

section Gaps

variable {orig before after : List Token} {t : Token} {state : State} {s : Sheet}

theorem text_add {p : Piece} (hp : ∀ k, p.role.turn? ≠ some (.opens k)) :
    ∃ x, (s.add p).text = x ++ p.text ∧ (p.role = .plain → x = s.text) := by
  unfold Sheet.add
  split
  · exact ⟨s.text, rfl, fun _ => rfl⟩
  · next k hk => exact absurd hk (hp k)
  · next k hk =>
    have hne : p.role ≠ .plain := by
      intro hplain
      simp [hplain, Role.turn?] at hk
    split
    · exact ⟨s.text, rfl, fun _ => rfl⟩
    · exact ⟨_, rfl, fun h => absurd h hne⟩

/-- What a block writes at its end, or what it ends with already, is a line feed and one more. -/
theorem exists_written_gap (hends : endsBlock t = true) (hloose : t.tight = false)
    (hf : follows orig t = true) (hgap : breakBefore after = ['\n'])
    (hline : LineAfter orig s.text) :
    ∃ u, (rule (.ofOptions {}) state ⟨before, t, after, 0⟩).2 = u ++ ['\n'] ∧
      (EndsInBreak u ∨ u = [] ∧ Role.ofKind t.kind = .plain ∧ EndsInBreak s.text) := by
  cases hk : t.kind with
  | opening c => simp [endsBlock, hk] at hends
  | closing c =>
    cases c with
    | paragraph =>
      refine ⟨['\n'], ?_, .inl endsInBreak_newline⟩
      simp only [rule, hk, closeRule]
      rw [paragraphClose_of_loose hloose, hgap]
      rfl
    | heading | blockquote =>
      exact ⟨['\n'], by simp [rule, hk, closeRule, hgap], .inl endsInBreak_newline⟩
    | bulletList | orderedList =>
      simp only [follows, hk] at hf
      exact ⟨[], by simp [rule, hk, closeRule, listClose, hgap],
        .inr ⟨rfl, rfl, hline.endsInBreak_of_isBehind hf (by decide)⟩⟩
    | table =>
      simp only [follows, hk, Bool.and_eq_true] at hf
      exact ⟨[], by simp [rule, hk, closeRule, closeTable],
        .inr ⟨rfl, rfl, hline.endsInBreak_of_isBehind hf.2 (by decide)⟩⟩
    | descriptionList =>
      exact ⟨"</dl>\n".toList, by simp [rule, hk, closeRule, hgap],
        .inl ⟨"</dl>".toList, rfl⟩⟩
    | _ => simp [endsBlock, hk] at hends
  | leaf l =>
    cases l with
    | fence =>
      simp only [rule, hk, leafRule, fence, fenced, hgap]
      exact ⟨_, rfl, .inl (endsInBreak_newline.append_left _)⟩
    | code =>
      simp only [follows, hk, Bool.and_eq_true] at hf
      simp only [rule, hk, leafRule, code, hf.2, if_true, fenced, hgap]
      exact ⟨_, rfl, .inl (endsInBreak_newline.append_left _)⟩
    | htmlBlock =>
      simp only [rule, hk, leafRule, htmlBlock, hgap]
      exact ⟨_, rfl, .inl (endsInBreak_newline.append_left _)⟩
    | rule =>
      exact ⟨"***\n".toList, by simp only [Render.rule, hk, leafRule, hgap],
        .inl ⟨"***".toList, rfl⟩⟩
    | _ => simp [endsBlock, hk] at hends
  | unknown name => simp [endsBlock, hk] at hends

/-- A block that no end of an item follows leaves a blank line behind it. -/
theorem exists_gap (hends : endsBlock t = true) (hloose : t.tight = false)
    (hf : follows orig t = true) (hgap : breakBefore after = ['\n'])
    (hline : LineAfter orig s.text) : ∃ u,
      (s.add ⟨.ofKind t.kind, (rule (.ofOptions {}) state ⟨before, t, after, 0⟩).2⟩).text =
        u ++ ['\n', '\n'] := by
  have hopen : ∀ k, (Role.ofKind t.kind).turn? ≠ some (.opens k) := by
    intro k hk
    unfold Role.ofKind at hk
    split at hk
    · next h => simp [endsBlock, h] at hends
    · cases hk
    · next h => simp [endsBlock, h] at hends
    · cases hk
    · cases hk
  obtain ⟨u, hwritten, hu⟩ :=
    @exists_written_gap orig before after t state s hends hloose hf hgap hline
  obtain ⟨x, hx, hplain⟩ := @text_add s
    ⟨.ofKind t.kind, (rule (.ofOptions {}) state ⟨before, t, after, 0⟩).2⟩ hopen
  rw [hx, hwritten]
  rcases hu with ⟨v, rfl⟩ | ⟨rfl, hrole, v, hv⟩
  · exact ⟨x ++ v, by simp⟩
  · exact ⟨v, by simp [hplain hrole, hv]⟩

end Gaps

section Polishing

/-- The breaks that a text begins with are condensed together with those before it. -/
theorem exists_condenseAfter_breaks (t : Text) : ∃ (breaks : List Break) (y : Text),
    y.head? ≠ some '\n' ∧ ∀ run, condenseAfter run t = condenseRun (breaks ++ run) ++ y := by
  induction ([] : List Break), t using condenseAfter.induct with
  | case1 run => exact ⟨[], [], by simp, fun run => by simp [condenseAfter]⟩
  | case2 run rest ih =>
    obtain ⟨breaks, y, hhead, h⟩ := ih
    exact ⟨breaks ++ [.lineFeed], y, hhead, fun run => by rw [condenseAfter, h]; simp⟩
  | case3 run rest ih =>
    obtain ⟨breaks, y, hhead, h⟩ := ih
    exact ⟨breaks ++ [.returnLineFeed], y, hhead, fun run => by rw [condenseAfter, h]; simp⟩
  | case4 run c rest hn hr ih =>
    refine ⟨[], c :: condenseAfter [] rest, by simpa using hn, fun run => ?_⟩
    rw [condenseAfter]
    · rfl
    · exact hn
    · exact hr

theorem condenseRun_of_two_le {run : List Break} (h : 2 ≤ run.length) :
    condenseRun run = ['\n', '\n'] := by
  rcases run with _ | ⟨b, _ | ⟨b', run⟩⟩
  · simp at h
  · simp at h
  · rfl

theorem isBlank_of_mem_condenseRun {run : List Break} {c : Char} (h : c ∈ condenseRun run) :
    isBlank c = true := by
  rcases run with _ | ⟨_ | _, _ | ⟨b', run⟩⟩ <;>
    simp only [condenseRun, Break.text, List.not_mem_nil, List.mem_cons, or_false] at h
  all_goals
    rcases h with rfl | rfl <;> rfl

/-- Of two texts with a blank line between them that both show something, condensing leaves two
that do, with a blank line between them. -/
theorem exists_condense_gap {u t : Text} (hu : allBlank u = false) (ht : allBlank t = false) :
    ∃ k breaks y, allBlank k = false ∧ allBlank y = false ∧
      (∀ c ∈ k.getLast?, c ≠ '\n') ∧ y.head? ≠ some '\n' ∧ (∀ c ∈ breaks, isBlank c = true) ∧
      condense (u ++ ['\n', '\n'] ++ t) = k ++ (['\n', '\n'] ++ y) ∧
      condense (u ++ ['\n', '\n']) = k ++ ['\n', '\n'] ∧ condense t = breaks ++ y := by
  obtain ⟨k, before, hne, hlast, hk⟩ := exists_condenseAfter u []
  obtain ⟨breaks, y, hhead, hy⟩ := exists_condenseAfter_breaks t
  have htwo : ∀ run : List Break, condenseRun (run ++ .lineFeed :: before) = ['\n', '\n'] := by
    intro run
    refine condenseRun_of_two_le ?_
    have := List.length_pos_of_ne_nil hne
    simp only [List.length_append, List.length_cons]
    omega
  have hgap : ∀ w, condense (u ++ ['\n', '\n'] ++ w) = k ++ condenseAfter (.lineFeed :: before) w := by
    intro w
    rw [List.append_assoc, List.cons_append, condense, hk, List.singleton_append, condenseAfter]
  have hwhole : condense (u ++ ['\n', '\n'] ++ t) = k ++ (['\n', '\n'] ++ y) := by
    rw [hgap, hy, htwo]
  have habove : condense (u ++ ['\n', '\n']) = k ++ ['\n', '\n'] := by
    have h := hgap []
    rwa [List.append_nil, condenseAfter, ← List.nil_append (_ :: before), htwo] at h
  have hbelow : condense t = condenseRun breaks ++ y := by
    rw [condense, hy, List.append_nil]
  have hblank : ∀ c ∈ condenseRun breaks, isBlank c = true := fun _ => isBlank_of_mem_condenseRun
  have hkv : allBlank k = false := by
    have h := allBlank_condenseAfter [] (u ++ ['\n', '\n'])
    rw [← condense, habove, allBlank_append, allBlank_append, hu, Bool.false_and] at h
    have hfeeds : allBlank ['\n', '\n'] = true := rfl
    rwa [hfeeds, Bool.and_true] at h
  have hyv : allBlank y = false := by
    have h := allBlank_condenseAfter [] t
    have hbreaks : allBlank (condenseRun breaks) = true := List.all_eq_true.2 hblank
    rwa [← condense, hbelow, ht, allBlank_append, hbreaks, Bool.true_and] at h
  exact ⟨k, condenseRun breaks, y, hkv, hyv, hlast, hhead, hblank, hwhole, habove, hbelow⟩

/-- Two texts with a blank line between them that both show something are rendered with exactly one
blank line between what each of them comes to. -/
theorem exists_polish_gap {u t : Text} (hu : allBlank u = false) (ht : allBlank t = false) :
    ∃ x y, polish {} (u ++ ['\n', '\n'] ++ t) = x ++ ['\n', '\n'] ++ y ∧
      x.getLast? ≠ some '\n' ∧ y.head? ≠ some '\n' ∧
      polish {} (u ++ ['\n', '\n']) = trimEnd x ++ ['\n'] ∧ polish {} t = trimStart y := by
  obtain ⟨k, breaks, y, hk, hy, hlast, hhead, hblank, hwhole, habove, hbelow⟩ :=
    exists_condense_gap hu ht
  obtain ⟨b, c, v, hb, hc, rfl⟩ := exists_of_not_allBlank hk
  obtain ⟨b', c', v', hb', hc', rfl⟩ := exists_of_not_allBlank hy
  refine ⟨c :: v, b' ++ c' :: (trimEnd v' ++ ['\n']), ?_, ?_, ?_, ?_, ?_⟩
  · have h := trimEnd_append (c :: v ++ ['\n', '\n'] ++ b') hc' v'
    simp only [polish, if_true, hwhole, trim]
    rw [List.append_assoc b, List.cons_append, trimStart_append hb hc]
    simp only [List.append_assoc, List.cons_append, List.nil_append] at h ⊢
    rw [h]
    simp [Newline.text]
  · intro h
    refine hlast '\n' ?_ rfl
    rw [Option.mem_def, ← h, List.getLast?_append_of_ne_nil _ (by simp)]
  · rcases b' with _ | ⟨d, b'⟩
    · simpa using ne_of_not_isBlank hc' rfl
    · simpa using hhead
  · simp only [polish, if_true, habove, trim]
    rw [List.append_assoc b, List.cons_append, trimStart_append hb hc, trimEnd, trimEnd,
      ← List.cons_append, Reflink.dropEndWhile_append_of_all]
    · rfl
    · exact List.forall_mem_cons.2 ⟨rfl, List.forall_mem_singleton.2 rfl⟩
  · have hstart : ∀ d ∈ breaks ++ b', isBlank d = true := fun d hd =>
      (List.mem_append.1 hd).elim (hblank d) (hb' d)
    simp only [polish, if_true, hbelow, trim]
    rw [← List.append_assoc, trimStart_append hstart hc', trimStart_append hb' hc']
    exact congrArg (· ++ ['\n']) (trimEnd_append [] hc' v')

end Polishing

section Documents

open Token Markdown

theorem loose_enclose {depth : Nat} {c : Construct} {t u : Token} {inside : List Token}
    (h : u ∈ (enclose depth c t inside).head? ∨ u ∈ (enclose depth c t inside).getLast?) :
    u.tight = t.tight := by
  rcases h with h | h
  · cases h
    rfl
  · rw [enclose, ← List.cons_append, List.getLast?_concat] at h
    cases h
    rfl

/-- A paragraph that a block begins or ends with is loose, unless it stands in a tight list. -/
theorem loose_ofBlock {depth : Nat} {b : Block (List Inline)} {t : Token}
    (h : t ∈ (ofBlock depth false b).head? ∨ t ∈ (ofBlock depth false b).getLast?) :
    t.tight = false := by
  cases b with
  | fence | indented | html | rule =>
    rw [ofBlock] at h
    rcases h with h | h <;>
      · cases h
        rfl
  | footnote => simp [ofBlock] at h
  | _ =>
    rw [ofBlock] at h
    exact loose_enclose h

theorem loose_ofBlocks {depth : Nat} : ∀ {bs : List (Block (List Inline))} {t : Token},
    t ∈ (ofBlocks depth false bs).head? ∨ t ∈ (ofBlocks depth false bs).getLast? →
      t.tight = false
  | [], t, h => by simp [ofBlocks] at h
  | b :: bs, t, h => by
    rw [ofBlocks, List.head?_append, List.getLast?_append] at h
    rcases h with h | h
    · rcases Option.or_eq_some_iff.1 h with h | ⟨-, h⟩
      · exact loose_ofBlock (.inl h)
      · exact loose_ofBlocks (.inl h)
    · rcases Option.or_eq_some_iff.1 h with h | ⟨-, h⟩
      · exact loose_ofBlocks (.inr h)
      · exact loose_ofBlock (.inr h)

/-- Nothing that a document begins with keeps the block before it from ending with a blank line. -/
theorem breakBefore_ofDocument (d : Document) : breakBefore (ofDocument d) = ['\n'] := by
  refine breakBefore_eq fun t ht => ⟨fun hk => ?_, fun hk => ?_⟩
  · have hf := head_of_isAlong (isAlong_ofDocument d) t ht
    simp [follows, hk] at hf
  · rw [ofDocument, List.head?_append] at ht
    rcases Option.or_eq_some_iff.1 ht with ht | ⟨-, ht⟩
    · exact loose_ofBlocks (.inl ht)
    · unfold ofNotes at ht
      split_ifs at ht
      · cases ht
      · cases ht
        rfl

/-- The pieces of a walk have the roles of the tokens. -/
theorem roles_walk {setting : Setting} (hs : setting.options.strict = false) :
    ∀ (tokens : List Token) (state : State) (before : List Token) (openLinks : Nat) (takes : Bool),
      (walk setting state before openLinks takes tokens).pieces.map (·.role) =
        tokens.map fun t => Role.ofKind t.kind
  | [], state, before, openLinks, takes => by rw [walk]; rfl
  | t :: after, state, before, openLinks, takes => by
    rw [walk]
    simp only [stopped_step hs state before after openLinks takes t, List.map_cons,
      kind_step setting state before after openLinks takes t]
    rw [roles_walk hs after]

theorem turns_eq_of_roles {pieces : List Piece} {tokens : List Token}
    (h : pieces.map (·.role) = tokens.map fun t => Role.ofKind t.kind) :
    turns pieces = frameTurns tokens := by
  have h := congrArg (List.filterMap Role.turn?) h
  rwa [List.filterMap_map, List.filterMap_map] at h

theorem isBalanced_of_roles {pieces : List Piece} {d : Document}
    (h : pieces.map (·.role) = (ofDocument d).map fun t => Role.ofKind t.kind) :
    isBalanced [] (turns pieces) = true := by
  rw [turns_eq_of_roles h]
  exact isBalanced_ofDocument d

/-- Blocks in front of others leave a blank line behind them. -/
theorem exists_gap_of_blocks {d : Document} {bs bs' : List (Block (List Inline))}
    (hd : endsLines d = true)
    (htokens : ofDocument d = ofBlocks 0 false bs ++ ofDocument ⟨bs', d.notes⟩)
    {above below : List Piece}
    (hpieces : (walkAll (.ofOptions {}) (ofDocument d)).pieces = above ++ below)
    (hlen : above.length = (ofBlocks 0 false bs).length) (hne : above ≠ []) :
    ∃ u, (Sheet.run {} above).text = u ++ ['\n', '\n'] := by
  rcases hbs : (ofBlocks 0 false bs).eq_nil_or_concat with hnil | ⟨init, t, hinit⟩
  · rw [hnil] at hlen
    exact absurd (List.eq_nil_of_length_eq_zero hlen) hne
  · have hlast : t ∈ (ofBlocks 0 false bs).getLast? := by simp [hinit]
    have hsplit : ofDocument d = init ++ t :: ofDocument ⟨bs', d.notes⟩ := by
      rw [htokens, hinit]
      simp
    obtain ⟨hf, -, done, written, rest, state, before, hplace, hdone, -, hfits, hwritten⟩ :=
      exists_place hd hsplit
    have hends := (part_ofBlocks 0 false bs).ends t hlast
    have hleaf : t.kind ≠ .leaf .inline := by
      intro hk
      simp [endsBlock, hk] at hends
    obtain ⟨rfl, -⟩ : done ++ [⟨.ofKind t.kind, written⟩] = above ∧ rest = below := by
      refine List.append_inj ?_ ?_
      · rw [← hpieces, hplace]
        simp
      · rw [hlen, hinit]
        simp [hdone]
    rw [Sheet.run_append, hwritten hleaf]
    exact exists_gap hends (loose_ofBlocks (.inr hlast)) hf (breakBefore_ofDocument _) hfits.line

/-- The blocks at the beginning of a document and those behind them come to texts with exactly one
blank line between them. -/
theorem apart_of_blocks {d : Document} {bs bs' : List (Block (List Inline))}
    (hd : endsLines d = true)
    (hbody : d.body = bs ++ bs') :
    ∃ above below w w', (walkAll (.ofOptions {}) (ofDocument d)).pieces = above ++ below ∧
      above.length = (ofBlocks 0 false bs).length ∧
      draw? above = some { out := w } ∧ draw? below = some { out := w' } ∧
      (allBlank w = false → allBlank w' = false → ∃ x y,
        rendered? (walkAll (.ofOptions {}) (ofDocument d)).pieces = some (x ++ ['\n', '\n'] ++ y) ∧
        x.getLast? ≠ some '\n' ∧ y.head? ≠ some '\n' ∧
        polish {} w = trimEnd x ++ ['\n'] ∧ polish {} w' = trimStart y) := by
  have htokens : ofDocument d = ofBlocks 0 false bs ++ ofDocument ⟨bs', d.notes⟩ := by
    rw [ofDocument, hbody, ofBlocks_append, ofDocument, List.append_assoc]
  have habove_tokens : ofDocument ⟨bs, []⟩ = ofBlocks 0 false bs := by simp [ofDocument, ofNotes]
  have hroles := @roles_walk (.ofOptions {}) rfl (ofDocument d) {} [] 0 false
  have hbal : isBalanced [] (turns (walkAll (.ofOptions {}) (ofDocument d)).pieces) = true :=
    isBalanced_of_roles hroles
  rw [htokens, List.map_append] at hroles
  obtain ⟨above, below, hpieces, habove, hbelow⟩ := List.map_eq_append_iff.1 hroles
  rw [← htokens, ← walkAll] at hpieces
  have hlen : above.length = (ofBlocks 0 false bs).length := by
    simpa using congrArg List.length habove
  have hdraw := (draw?_of_isBalanced
    (isBalanced_of_roles (habove.trans (by rw [habove_tokens])))).1
  have hdraw' := (draw?_of_isBalanced (isBalanced_of_roles hbelow)).1
  refine ⟨above, below, _, _, hpieces, hlen, hdraw, hdraw', fun hw hw' => ?_⟩
  have hne : above ≠ [] := by
    rintro rfl
    cases hw
  obtain ⟨u, hu⟩ := exists_gap_of_blocks hd htokens hpieces hlen hne
  rw [hu] at hw ⊢
  have htext : (Sheet.run {} (above ++ below)).text =
      (Sheet.run {} above).text ++ (Sheet.run {} below).text := by
    obtain ⟨plans, rfl⟩ := exists_plans (isBalanced_of_roles hbelow)
    rw [Sheet.run_append, sheet_run_plans, sheet_run_plans]
    rfl
  have hfeeds : allBlank ['\n', '\n'] = true := rfl
  rw [allBlank_append, hfeeds, Bool.and_true] at hw
  obtain ⟨x, y, hpolish, hx, hy, hxw, hyw⟩ := exists_polish_gap hw hw'
  refine ⟨x, y, ?_, hx, hy, hxw, hyw⟩
  rw [rendered?_of_isBalanced hbal, hpieces, htext, hu, hpolish]

end Documents

section Standing

open Token Markdown

/-- Whether the blocks of a document stay apart from each other when it is rendered. -/
structure StandsApart (d : Document) : Prop where
  /-- Every token that writes the beginning of a line begins one. -/
  lines : ∀ above t below, ofDocument d = above ++ t :: below → startsLine above.reverse t = true →
    ∃ done written rest, (walkAll (.ofOptions {}) (ofDocument d)).pieces =
        done ++ ⟨.ofKind t.kind, written⟩ :: rest ∧ done.length = above.length ∧
      BeginsLine done (.ofKind t.kind) (written.takeWhile isBlank) rest
        (marginAt above done (written.takeWhile isBlank))
  /-- Every line of a quote begins one, with the mark of the quote. -/
  quotes : ∀ above t below, ofDocument d = above ++ t :: below → t.kind = .opening .blockquote →
    ∃ done body closing rest, (walkAll (.ofOptions {}) (ofDocument d)).pieces =
        done ++ (Plan.frame .quote ['\n'] body closing).pieces ++ rest ∧
      done.length = above.length ∧
      rendered? (walkAll (.ofOptions {}) (ofDocument d)).pieces =
        rendered? (done ++ ⟨.plain, '\n' :: (quote (Plan.allDrawn body) ++ closing)⟩ :: rest) ∧
      ∀ q q', quote (Plan.allDrawn body) = q ++ q' → EndsLine q → q' ≠ [] →
        q'.head? = some '>' ∧
          BeginsLine done .plain ('\n' :: q) rest (edges (Sheet.run {} done).layers)
  /-- Exactly one blank line stands between what the first blocks come to and what the others do,
  the footnotes with them. -/
  blocks : ∀ bs bs', d.body = bs ++ bs' →
    ∃ above below w w', (walkAll (.ofOptions {}) (ofDocument d)).pieces = above ++ below ∧
      above.length = (ofBlocks 0 false bs).length ∧
      draw? above = some { out := w } ∧ draw? below = some { out := w' } ∧
      (allBlank w = false → allBlank w' = false → ∃ x y,
        rendered? (walkAll (.ofOptions {}) (ofDocument d)).pieces = some (x ++ ['\n', '\n'] ++ y) ∧
        x.getLast? ≠ some '\n' ∧ y.head? ≠ some '\n' ∧
        polish {} w = trimEnd x ++ ['\n'] ∧ polish {} w' = trimStart y)

/-- A document without an empty item and without a tight paragraph that a block runs on from is
rendered, and its blocks stay apart. -/
theorem standsApart {d : Document} (hd : endsLines d = true) :
    (∃ rendered, (render {} (ofDocument d)).result = .ok rendered ∧
      rendered? (walkAll (.ofOptions {}) (ofDocument d)).pieces = some rendered.text) ∧
    StandsApart d := by
  refine ⟨?_, fun _ _ _ h hs => beginsLine_of_startsLine hd h hs,
    fun _ _ _ h hk => beginsLine_of_quote hd h hk, fun _ _ h => apart_of_blocks hd h⟩
  have hbal : isBalanced [] (turns (walkAll (.ofOptions {}) (ofDocument d)).pieces) = true :=
    isBalanced_of_roles (@roles_walk (.ofOptions {}) rfl (ofDocument d) {} [] 0 false)
  have hstop : (walkAll (.ofOptions {}) (ofDocument d)).stopped = none := stopped_walk rfl _ _ _ _ _
  refine ⟨⟨_, (walkAll (.ofOptions {}) (ofDocument d)).state.report⟩, ?_,
    rendered?_of_isBalanced hbal⟩
  unfold render conclude
  simp only [(draw?_of_isBalanced hbal).1, hstop]
  rfl

theorem standsApart_quote_in_tight_list :
    endsLines (Document.ofText "- a\n  > b\n\n***") = true ∧
      (∃ rendered, (render {} (tokenize "- a\n  > b\n\n***")).result = .ok rendered ∧
        rendered.text = "* a\n  > b\n\n***\n".toList) ∧
      StandsApart (Document.ofText "- a\n  > b\n\n***") := by
  have hends : endsLines (Document.ofText "- a\n  > b\n\n***") = true := by decide +kernel
  have htext : rendered? (walkAll (.ofOptions {}) (tokenize "- a\n  > b\n\n***")).pieces =
      some "* a\n  > b\n\n***\n".toList := by decide +kernel
  obtain ⟨⟨rendered, hrendered, h⟩, hapart⟩ := standsApart hends
  exact ⟨hends, ⟨rendered, hrendered, Option.some.inj (h.symm.trans htext)⟩, hapart⟩

/-- An item without content does not end its line, and the next item goes on there. -/
theorem not_forall_standsApart : ¬ ∀ source : Text, StandsApart (Document.ofText source) := by
  intro h
  let tokens := tokenize "-\n- b"
  have hkinds : (tokens.drop 3).map (·.kind) = [.opening .listItem, .opening .paragraph,
      .leaf .inline, .closing .paragraph, .closing .listItem, .closing .bulletList] := by
    decide +kernel
  have hwalk : (walkAll (.ofOptions {}) tokens).pieces =
      [⟨.plain, "\n".toList⟩, ⟨.opensItem, "* ".toList⟩, ⟨.closesItem, []⟩] ++
        ⟨.opensItem, "* ".toList⟩ :: [⟨.plain, []⟩, ⟨.plain, "b".toList⟩, ⟨.plain, []⟩,
          ⟨.closesItem, "\n".toList⟩, ⟨.plain, "\n".toList⟩] := by
    decide +kernel
  have htag : openTag (tokens.take 3).reverse = [] ∧ (tokens.take 3).length = 3 := by
    decide +kernel
  rcases hdrop : tokens.drop 3 with _ | ⟨t, below⟩ <;> rw [hdrop] at hkinds
  · cases hkinds
  · have hk : t.kind = .opening .listItem := (List.cons.inj hkinds).1
    have hsplit : tokens = tokens.take 3 ++ t :: below := by rw [← hdrop, List.take_append_drop]
    obtain ⟨done, written, rest, hpieces, hdone, above, indent, habove, hindent, hline⟩ :=
      (h "-\n- b").lines _ _ _ hsplit (by simp [startsLine, hk])
    obtain ⟨rfl, hrest⟩ := List.append_inj (hwalk.symm.trans hpieces) (hdone.trans htag.2).symm
    obtain ⟨hpiece, rfl⟩ := List.cons.inj hrest
    obtain ⟨-, rfl⟩ := Piece.mk.inj hpiece
    obtain ⟨after, hafter⟩ := hline 'x' [] (by decide)
    have hmargin : marginAt (tokens.take 3) [⟨.plain, "\n".toList⟩, ⟨.opensItem, "* ".toList⟩,
        ⟨.closesItem, []⟩] (("* ".toList).takeWhile isBlank) = [] := by
      change [] ++ openTag (tokens.take 3).reverse = []
      rw [htag.1, List.append_nil]
    have htext : rendered? ([⟨.plain, "\n".toList⟩, ⟨.opensItem, "* ".toList⟩, ⟨.closesItem, []⟩] ++
        ⟨.opensItem, ("* ".toList).takeWhile isBlank ++ ['x']⟩ :: [⟨.plain, []⟩,
          ⟨.plain, "b".toList⟩, ⟨.plain, []⟩, ⟨.closesItem, "\n".toList⟩, ⟨.plain, "\n".toList⟩]) =
        some ['*', ' ', 'x', 'b', '\n'] := by
      decide +kernel
    rw [hmargin, hk, Role.ofKind, htext, Option.some.injEq, List.nil_append] at hafter
    rcases habove with rfl | ⟨u, rfl⟩
    · rcases indent with _ | ⟨c, indent⟩
      · simp at hafter
      · obtain rfl : '*' = c := (List.cons.inj hafter).1
        exact absurd (hindent '*' List.mem_cons_self).1 (by decide)
    · have hmem : '\n' ∈ ['*', ' ', 'x', 'b', '\n'].dropLast := by
        rw [hafter, List.dropLast_append_of_ne_nil (by simp)]
        simp
      exact absurd hmem (by decide)

end Standing

end Render

end TidyMark
