import TidyMark.Proofs.Sheet
import TidyMark.Proofs.Watch

/-!
# Putting watched pieces together

A calm watch has no bracket open and waits for nothing; brackets may just have been closed. Pieces
that lead a calm watch on to a calm one (`Leads`) come to a text that is let through when they are
laid out: neither the indentation of an item nor the marks of a quote make a difference to the
watch (`watch_plans`), and condensing and trimming make none either (`isTame_polish`).
-/

namespace TidyMark

open Text Render

/-- Whether a watch is where it began, or just behind brackets that have been closed. -/
def Watch.IsCalm (w : Watch) : Prop :=
  w = {} ∨ w = ⟨0, .closing⟩

/-- Whether a text takes a watch from where it begins to a calm one. -/
def IsCalm (t : Text) : Prop :=
  ({} : Watch).run false t = some {} ∨ ({} : Watch).run false t = some ⟨0, .closing⟩

instance (t : Text) : Decidable (IsCalm t) :=
  inferInstanceAs (Decidable (_ ∨ _))

/-- Whether a text takes every calm watch back to where it began. -/
def IsRestful (t : Text) : Prop :=
  ({} : Watch).run false t = some {} ∧ (⟨0, .closing⟩ : Watch).run false t = some {}

instance (t : Text) : Decidable (IsRestful t) :=
  inferInstanceAs (Decidable (_ ∧ _))

section Texts

variable {s t : Text} {c : Char} {w : Watch} {strict : Bool}

theorem isCalm_iff : IsCalm t ↔ ∃ w : Watch, ({} : Watch).run false t = some w ∧ w.IsCalm := by
  constructor
  · rintro (h | h)
    · exact ⟨_, h, .inl rfl⟩
    · exact ⟨_, h, .inr rfl⟩
  · rintro ⟨w, h, rfl | rfl⟩
    · exact .inl h
    · exact .inr h

theorem IsRestful.run (h : IsRestful t) (hw : w.IsCalm) : w.run false t = some {} := by
  rcases hw with rfl | rfl
  · exact h.1
  · exact h.2

theorem IsRestful.append (hs : IsRestful s) (ht : IsReady false t) : IsRestful (s ++ t) :=
  ⟨(Watch.run_append_of_eq hs.1).trans ht, (Watch.run_append_of_eq hs.2).trans ht⟩

/-- Only a parenthesis and a colon mean anything behind brackets. -/
theorem isRestful_cons (hc : Sign.of c ∈ [.newline, .slash, .greater, .space, .letter, .other, .hiding])
    (ht : IsReady false t) : IsRestful (c :: t) := by
  have hstep : ∀ w : Watch, w.IsCalm → w.step false c = some {} := by
    rintro w (rfl | rfl)
    all_goals
      unfold Watch.step
      simp only [List.mem_cons, List.not_mem_nil, or_false] at hc
      rcases hc with h | h | h | h | h | h | h <;> rw [h] <;> rfl
  exact ⟨by rw [Watch.run_cons, hstep _ (.inl rfl), Option.bind_some, ht],
    by rw [Watch.run_cons, hstep _ (.inr rfl), Option.bind_some, ht]⟩

theorem isReady_append (hs : IsReady strict s) (ht : IsReady strict t) : IsReady strict (s ++ t) :=
  (Watch.run_append_of_eq hs).trans ht

theorem IsTame.of_run (h : ({} : Watch).run strict t = some w) (hw : w.IsCalm) :
    IsTame strict t := by
  refine isTame_iff.2 ⟨w, h, ?_⟩
  rcases hw with rfl | rfl <;> decide

/-- A tame text is passed without a trace where a line feed stands behind it. -/
theorem IsTame.run_append (h : IsTame strict t) :
    ({} : Watch).run strict (t ++ '\n' :: s) = ({} : Watch).run strict s := by
  rw [← List.singleton_append, ← List.append_assoc, Watch.run_append, h, Option.bind_some]

end Texts

section Lines

variable {strict : Bool} {t : Text}

/-- The indentation of an item is white space at the beginnings of its lines, where a watch is as at
the start. -/
theorem run_indentContinuations (width : Nat) (body : Text) {w : Watch} :
    w.run strict (indentContinuations width body) = w.run strict body := by
  have hindent : ({} : Watch).run strict (List.replicate width ' ') = some {} :=
    Watch.start_run fun c hc => by
      rw [List.eq_of_mem_replicate hc]
      decide
  have hlines : ∀ (rest : List Text) {w : Watch},
      w.run strict (rest.flatMap (indentContinuations.indentLine width)) =
        w.run strict (rest.flatMap ('\n' :: ·)) := by
    intro rest
    induction rest with
    | nil => exact fun {_} => rfl
    | cons line rest ih =>
      intro w
      rw [List.flatMap_cons, List.flatMap_cons, indentContinuations.indentLine, List.cons_append,
        List.cons_append, Watch.run_cons, Watch.run_cons]
      rcases hw : w.step strict '\n' with _ | v
      · rfl
      obtain ⟨rfl, -⟩ := (Watch.step_newline_eq_some_iff rfl).1 hw
      rw [Option.bind_some, Option.bind_some]
      split_ifs
      · rw [Watch.run_append, Watch.run_append]
        exact congrArg _ (funext fun v => ih)
      · rw [List.append_assoc, Watch.run_append_of_eq hindent, Watch.run_append, Watch.run_append]
        exact congrArg _ (funext fun v => ih)
  obtain ⟨first, rest, h⟩ := List.exists_cons_of_ne_nil (splitLines_ne_nil body)
  rw [indentContinuations, h]
  dsimp only
  conv_rhs => rw [eq_of_splitLines h]
  rw [Watch.run_append, Watch.run_append]
  exact congrArg _ (funext fun v => hlines rest)

theorem IsTame.of_mem_splitLines (h : IsTame strict t) :
    ∀ line ∈ splitLines t, IsTame strict line := by
  have hlines : ∀ {rest : List Text} {first : Text},
      IsTame strict (first ++ rest.flatMap ('\n' :: ·)) →
        ∀ line ∈ first :: rest, IsTame strict line := by
    intro rest
    induction rest with
    | nil =>
      intro first h
      simpa using h
    | cons second rest ih =>
      intro first h
      rw [List.flatMap_cons, List.cons_append, isTame_append_newline] at h
      exact List.forall_mem_cons.2 ⟨h.1, ih h.2⟩
  obtain ⟨first, rest, hs⟩ := List.exists_cons_of_ne_nil (splitLines_ne_nil t)
  rw [eq_of_splitLines hs] at h
  rw [hs]
  exact hlines h

theorem isTame_dropReturn (h : IsTame strict t) : IsTame strict (dropReturn t) := by
  unfold dropReturn
  split_ifs with hr
  · obtain ⟨u, rfl⟩ := List.getLast?_eq_some_iff.1 (beq_iff_eq.1 hr)
    rw [List.dropLast_concat]
    exact h.of_append_blank (List.forall_mem_singleton.2 (by decide))
  · exact h

theorem IsTame.of_mem_lines (h : IsTame strict t) :
    ∀ line ∈ lines t, IsTame strict line := by
  have hsplit := h.of_mem_splitLines
  have hended : ∀ line ∈ (splitLines t).dropLast.map dropReturn, IsTame strict line :=
    List.forall_mem_map.2 fun line hl =>
      isTame_dropReturn (hsplit line ((List.dropLast_sublist _).subset hl))
  unfold lines
  dsimp only
  split
  · exact hended
  · exact hended
  · next last _ hlast =>
    intro line hl
    rcases List.mem_append.1 hl with hl | hl
    · exact hended line hl
    · rw [List.mem_singleton.1 hl]
      exact hsplit last (List.mem_of_mem_getLast? hlast)

theorem isTame_join : ∀ {lines : List Text}, (∀ line ∈ lines, IsTame strict line) →
    IsTame strict (join "\n" lines)
  | [], _ => isTame_nil
  | [line], h => h line (by simp)
  | line :: second :: lines, h => by
    obtain ⟨hline, hrest⟩ := List.forall_mem_cons.1 h
    rw [join, List.append_assoc]
    exact isTame_append_newline.2 ⟨hline, isTame_join hrest⟩

theorem isTame_quoteLines : ∀ {lines : List Text} (afterBlank : Bool),
    (∀ line ∈ lines, IsTame strict line) →
      ∀ line ∈ quoteLines afterBlank lines, IsTame strict line
  | [], _, _ => by simp [quoteLines]
  | line :: lines, afterBlank, h => by
    obtain ⟨hline, hrest⟩ := List.forall_mem_cons.1 h
    have hmark : IsTame strict ['>'] := by cases strict <;> decide
    have hindent : IsReady strict ['>', ' '] := by cases strict <;> decide
    rw [quoteLines]
    split_ifs
    · exact isTame_quoteLines true hrest
    · exact List.forall_mem_cons.2 ⟨hmark, isTame_quoteLines true hrest⟩
    · exact List.forall_mem_cons.2
        ⟨(isTame_append_of_start hindent).2 hline, isTame_quoteLines false hrest⟩

/-- A tame text stays tame in a quote. -/
theorem isTame_quote (h : IsTame strict t) : IsTame strict (quote t) := by
  have htrim : IsTame strict (t.trimEnd.dropWhile (· == '\n')) := by
    have hend : IsTame strict t.trimEnd := isTame_dropEndWhile (fun _ => neutral_of_isBlank) h
    rw [← List.takeWhile_append_dropWhile (p := (· == '\n')) (l := t.trimEnd)] at hend
    refine hend.of_append_right (getLast?_ne_of_forall fun c hc => ?_)
    have hn : c = '\n' := by simpa using List.mem_takeWhile_imp hc
    rw [hn]
    decide
  exact isTame_join (isTame_quoteLines false htrim.of_mem_lines)

end Lines

namespace Render

/-- Whether a piece leads one watch on to another one, which is as at the start where a frame opens.
A quote ends its last line when it closes. -/
structure Piece.Takes (p : Piece) (w w' : Watch) : Prop where
  run : w.run false p.text = some w'
  calm : w'.IsCalm
  opens : p.role = .opensQuote ∨ p.role = .opensItem → w' = {}
  closes : p.role = .closesQuote → p.text.head? = some '\n'

/-- Whether pieces lead one watch on to another one. -/
def Leads : Watch → List Piece → Watch → Prop
  | w, [], w' => w' = w
  | w, p :: pieces, w' => ∃ u, p.Takes w u ∧ Leads u pieces w'

section Plans

variable {w w' : Watch}

theorem leads_append : ∀ {ps qs : List Piece} {w : Watch},
    Leads w (ps ++ qs) w' ↔ ∃ u, Leads w ps u ∧ Leads u qs w'
  | [], qs, w => by simp [Leads]
  | p :: ps, qs, w => by
    simp only [List.cons_append, Leads, leads_append]
    exact ⟨fun ⟨u, hp, v, hps, hqs⟩ => ⟨v, ⟨u, hp, hps⟩, hqs⟩,
      fun ⟨v, ⟨u, hp, hps⟩, hqs⟩ => ⟨u, hp, v, hps, hqs⟩⟩

/-- A frame changes nothing for the watch when it closes. -/
theorem run_frame_closed {k : FrameKind} {opening body closing : Text} {u : Watch}
    (hopen : w.run false opening = some {}) (hbody : ({} : Watch).run false body = some u)
    (hu : u.IsCalm) (hclose : u.run false closing = some w')
    (hbreak : k = .quote → closing.head? = some '\n') :
    w.run false (opening ++ k.change opening.byteLength body ++ closing) = some w' := by
  rw [List.append_assoc, Watch.run_append_of_eq hopen]
  cases k with
  | item => rw [FrameKind.change, Watch.run_append, run_indentContinuations, hbody, Option.bind_some,
      hclose]
  | quote =>
    rcases closing with _ | ⟨c, closing⟩
    · cases hbreak rfl
    · cases hbreak rfl
      have hstep : u.step false '\n' = some {} := by
        rcases hu with rfl | rfl <;> rfl
      rw [Watch.run_cons, hstep, Option.bind_some] at hclose
      rw [FrameKind.change, (isTame_quote (.of_run hbody hu)).run_append, hclose]

mutual

theorem watch_plan : ∀ {p : Plan} {w w' : Watch}, w.IsCalm → Leads w p.pieces w' →
    w.run false p.drawn = some w' ∧ w'.IsCalm
  | .text t, w, w', _, ⟨u, hu, hw'⟩ => by
    obtain rfl : w' = u := hw'
    exact ⟨hu.run, hu.calm⟩
  | .frame k opening body closing, w, w', hw, h => by
    rw [Plan.pieces] at h
    obtain ⟨u, hopen, hinner⟩ := h
    obtain ⟨v, hbody, x, hclose, hw'⟩ := leads_append.1 hinner
    obtain rfl : w' = x := hw'
    obtain rfl : u = {} := hopen.opens (by cases k <;> simp [Turn.role])
    obtain ⟨hrun, hv⟩ := watch_plans (.inl rfl) hbody
    exact ⟨run_frame_closed hopen.run hrun hv hclose.run fun hk =>
      hclose.closes (by rw [hk]; rfl), hclose.calm⟩

/-- Pieces that lead a calm watch on come to a text that leads it on in the same way. -/
theorem watch_plans : ∀ {ps : List Plan} {w w' : Watch}, w.IsCalm → Leads w (Plan.allPieces ps) w' →
    w.run false (Plan.allDrawn ps) = some w' ∧ w'.IsCalm
  | [], w, w', hw, h => by
    obtain rfl : w' = w := h
    exact ⟨rfl, hw⟩
  | p :: ps, w, w', hw, h => by
    obtain ⟨u, hp, hps⟩ := leads_append.1 h
    obtain ⟨hrun, hu⟩ := watch_plan hw hp
    obtain ⟨hruns, hw'⟩ := watch_plans hu hps
    exact ⟨by rw [Plan.allDrawn, Watch.run_append_of_eq hrun, hruns], hw'⟩

end

end Plans

section Polishing

variable {strict : Bool} {s t : Text} {w : Watch}

/-- Behind the end of a line more of them make no difference. -/
theorem run_newlines (hs : ∀ c ∈ s, Sign.of c = .newline) (hne : s ≠ []) :
    w.run strict s = w.step strict '\n' := by
  obtain ⟨c, s, rfl⟩ := List.exists_cons_of_ne_nil hne
  obtain ⟨hc, hs⟩ := List.forall_mem_cons.1 hs
  have hrest : ({} : Watch).run strict s = some {} := Watch.start_run fun d hd => by
    have hsign := hs d hd
    refine ⟨?_, ?_, ?_⟩ <;> rintro rfl <;> cases hsign
  have hstep : w.step strict c = w.step strict '\n' := congrArg (w.next strict) hc
  rw [Watch.run_cons, hstep]
  rcases hw : w.step strict '\n' with _ | v
  · rfl
  · obtain ⟨rfl, -⟩ := (Watch.step_newline_eq_some_iff rfl).1 hw
    rw [Option.bind_some, hrest]

theorem sign_of_mem_breaks {breaks : List Break} :
    ∀ c ∈ breaks.flatMap Break.text, Sign.of c = .newline := by
  intro c hc
  obtain ⟨b, -, hc⟩ := List.mem_flatMap.1 hc
  cases b <;> simp only [Break.text, List.mem_cons, List.not_mem_nil, or_false] at hc
  · rw [hc]
    rfl
  · rcases hc with rfl | rfl <;> rfl

theorem run_condenseRun (breaks : List Break) :
    w.run strict (condenseRun breaks) = w.run strict (breaks.reverse.flatMap Break.text) := by
  rcases breaks with _ | ⟨b, _ | ⟨b', breaks⟩⟩
  · rfl
  · simp [condenseRun]
  · rw [run_newlines sign_of_mem_breaks (by cases b <;> simp [Break.text])]
    exact run_newlines (s := ['\n', '\n'])
      (List.forall_mem_cons.2 ⟨rfl, List.forall_mem_singleton.2 rfl⟩) (List.cons_ne_nil _ _)

/-- Condensing makes no difference for a watch. -/
theorem run_condenseAfter (breaks : List Break) (t : Text) : ∀ {w : Watch},
    w.run strict (condenseAfter breaks t) =
      w.run strict (breaks.reverse.flatMap Break.text ++ t) := by
  fun_induction condenseAfter breaks t with
  | case1 breaks =>
    intro w
    rw [run_condenseRun, List.append_nil]
  | case2 breaks rest ih =>
    intro w
    rw [ih]
    simp [Break.text]
  | case3 breaks rest ih =>
    intro w
    rw [ih]
    simp [Break.text]
  | case4 breaks c rest hn hr ih =>
    intro w
    rw [Watch.run_append, Watch.run_append, run_condenseRun]
    refine congrArg _ (funext fun v => ?_)
    rw [Watch.run_cons, Watch.run_cons]
    exact congrArg _ (funext fun u => ih)

theorem isTame_condense (h : IsTame strict t) : IsTame strict (condense t) := by
  obtain ⟨w, hw, htame⟩ := isTame_iff.1 h
  exact isTame_iff.2 ⟨w, (run_condenseAfter [] t).trans hw, htame⟩

theorem isTame_trim (h : IsTame strict t) : IsTame strict (trim t) := by
  rw [← List.takeWhile_append_dropWhile (p := isBlank) (l := t)] at h
  refine isTame_dropEndWhile (fun _ => neutral_of_isBlank) (h.of_append_right ?_)
  refine getLast?_ne_of_forall fun c hc => ?_
  rintro rfl
  exact absurd (List.mem_takeWhile_imp hc) (by decide)

/-- The last touch keeps a text tame where it adds nothing but white space. -/
theorem isTame_polish {options : Options} (hnewline : ∀ c ∈ options.newline.text, isBlank c = true)
    (h : IsTame strict t) : IsTame strict (polish options t) := by
  refine IsTame.append_blank (isTame_trim ?_) hnewline
  split_ifs
  · exact isTame_condense h
  · exact h

end Polishing

end Render

end TidyMark
