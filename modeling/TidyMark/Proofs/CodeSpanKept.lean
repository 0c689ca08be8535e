import TidyMark.Proofs.Backtick
import TidyMark.Proofs.FenceKept
import TidyMark.Proofs.SpanLines

/-!
# What becomes of code spans

A code span is written between two runs of backticks that are longer than every run inside. Where a
backtick stands at an end of the content, a space keeps it apart, and the reader takes that space
off again. So the span ends where it is to end (`closingRun?_append_ticks`), whatever the content,
and what is read is what the reader makes of the content itself (`readSpan?_codeSpan`): all of it,
unless the content has a space of its own at both ends, which are not kept apart and are lost.
-/

namespace TidyMark

namespace Markdown

/-- Reads the code span that a text begins with, up to the next run of as many backticks: its
content, and what follows it. -/
def readSpan? (t : Text) : Option (Text × Text) :=
  let width := runLength '`' t
  let inside := t.drop width
  if width == 0 then none
  else
    (Reflink.closingRun? width 0 0 inside).map fun (stop, rest) =>
      (codeContent (inside.take (stop - width)), rest)

/-- Whether a text has a space at both ends and something else in between. -/
def isSpaced (t : Text) : Bool :=
  t.any (· != ' ') && t.head? == some ' ' && t.getLast? == some ' '

section Content

variable {t : Text}

theorem codeContent_of_not_mem (h : '\n' ∉ t) :
    codeContent t = if isSpaced t then t.tail.dropLast else t := by
  have hline : onOneLine t = t := by
    conv_rhs => rw [← List.map_id t]
    refine List.map_congr_left fun c hc => if_neg ?_
    simpa using fun he : c = '\n' => h (he ▸ hc)
  have hcode : codeContent t = if isSpaced (onOneLine t) then (onOneLine t).tail.dropLast
      else onOneLine t := rfl
  rw [hcode, hline]

/-- The spaces that keep backticks apart are taken off again. -/
theorem codeContent_padded {d : Char} (hmem : d ∈ t) (hd : d ≠ ' ') (h : '\n' ∉ t) :
    codeContent (' ' :: (t ++ [' '])) = t := by
  have hline : '\n' ∉ ' ' :: (t ++ [' ']) := by simp [h]
  have hspaced : isSpaced (' ' :: (t ++ [' '])) = true := by
    have hany : t.any (· != ' ') = true := List.any_eq_true.2 ⟨d, hmem, by simpa using hd⟩
    rw [isSpaced, ← List.cons_append, List.getLast?_concat]
    simp [hany]
  rw [codeContent_of_not_mem hline, if_pos hspaced, List.tail_cons, List.dropLast_concat]

end Content

end Markdown

namespace Render

open Markdown Reflink

/-- A text that can stand between two runs of `n` backticks. -/
structure StandsBetween (n : Nat) (t : Text) : Prop where
  shorter : longestTicks 0 t < n
  ne_nil : t ≠ []
  head : NoTick t
  last : t.getLast? ≠ some '`'

section Delimiters

variable {t rest : Text} {n : Nat}

theorem StandsBetween.noTick_append (h : StandsBetween n t) (rest : Text) : NoTick (t ++ rest) := by
  rw [NoTick, List.head?_append_of_ne_nil _ h.ne_nil]
  exact h.head

theorem getLast?_tail {c : Char} (h : (c :: t).getLast? ≠ some '`') : t.getLast? ≠ some '`' :=
  fun he => by
    rw [List.getLast?_cons, he] at h
    exact h rfl

theorem ne_nil_of_tick (h : ('`' :: t).getLast? ≠ some '`') : t ≠ [] := by
  rintro rfl
  exact h rfl

theorem drop_ticks (n : Nat) (t : Text) : (ticks n ++ t).drop n = t :=
  List.drop_left' (List.length_replicate ..)

theorem closingRun?_ticks (hrest : NoTick rest) : ∀ {m run : Nat} (place : Nat), run + m = n →
    closingRun? n run place (ticks m ++ rest) = some (place + m, rest)
  | 0, run, place, h => closingRun?_of_eq (beq_iff_eq.2 h) place hrest
  | m + 1, run, place, h => by
    have ih := closingRun?_ticks hrest (place + 1) (show run + 1 + m = n by omega)
    rw [ticks, List.replicate_succ, List.cons_append, closingRun?, if_pos (by rfl), ← ticks, ih,
      Nat.add_assoc, Nat.add_comm 1]

/-- A run that is longer than all before it ends a code span, if it begins behind something else
than a backtick. -/
theorem closingRun?_append_ticks (hrest : NoTick rest) : ∀ {t : Text} {run : Nat} (place : Nat),
    longestTicks run t < n → t.getLast? ≠ some '`' → (t = [] → run = 0) →
      closingRun? n run place (t ++ (ticks n ++ rest)) = some (place + t.length + n, rest)
  | [], run, place, _, _, hrun => closingRun?_ticks hrest place (by rw [hrun rfl, Nat.zero_add])
  | c :: t, run, place, h, hlast, _ => by
    have hplace : place + (c :: t).length = place + 1 + t.length := by
      rw [List.length_cons, Nat.add_assoc, Nat.add_comm 1]
    rw [longestTicks] at h
    rw [List.cons_append, closingRun?, hplace]
    split_ifs at h with hc
    · rw [beq_iff_eq] at hc
      subst hc
      exact closingRun?_append_ticks hrest (place + 1) h (getLast?_tail hlast) fun he =>
        absurd he (ne_nil_of_tick hlast)
    · have hrun : ¬(run == n) = true := by
        rw [beq_iff_eq]
        omega
      rw [if_neg hc, if_neg hrun]
      exact closingRun?_append_ticks hrest (place + 1) (by omega) (getLast?_tail hlast) fun _ => rfl

theorem StandsBetween.readSpan?_eq (h : StandsBetween n t) (hrest : NoTick rest) :
    readSpan? (ticks n ++ (t ++ (ticks n ++ rest))) = some (codeContent t, rest) := by
  have hwidth : (n == 0) = false := beq_eq_false_iff_ne.2 (Nat.ne_zero_of_lt h.shorter)
  have htake : (t ++ (ticks n ++ rest)).take (0 + t.length + n - n) = t := by
    rw [Nat.add_sub_cancel, Nat.zero_add, List.take_left]
  unfold readSpan?
  dsimp only
  rw [runLength_ticks (h.noTick_append _), drop_ticks, hwidth,
    closingRun?_append_ticks hrest 0 h.shorter h.last fun he => absurd he h.ne_nil]
  dsimp only [Bool.false_eq_true, if_false, Option.map_some]
  rw [htake]
  rfl

end Delimiters

section Parsing

variable {t : Text} {n : Nat}

theorem tickRuns_ticks : ∀ {m run : Nat}, 0 < run + m →
    tickRuns run (ticks m) = [(run + m, run + m)]
  | 0, run, h => by
    rw [ticks, List.replicate_zero, tickRuns, if_neg (by simpa using Nat.ne_of_gt h), Nat.add_zero]
  | m + 1, run, h => by
    have ih := tickRuns_ticks (show 0 < run + 1 + m by omega)
    rw [ticks, List.replicate_succ, tickRuns, if_pos (by rfl), ← ticks, ih, Nat.add_assoc,
      Nat.add_comm 1]

/-- The runs that a search comes by before it comes to the delimiter are shorter. -/
theorem tickRuns_append_ticks : ∀ {t : Text} {run : Nat}, longestTicks run t < n →
    t.getLast? ≠ some '`' → (t = [] → run = 0) →
      ∃ passed, tickRuns run (t ++ ticks n) = passed ++ [(n, n)] ∧ ∀ p ∈ passed, p.1 ≠ n
  | [], run, h, _, hrun => by
    obtain rfl := hrun rfl
    have hpos : 0 < 0 + n := by omega
    exact ⟨[], by rw [List.nil_append, tickRuns_ticks hpos, Nat.zero_add]; rfl, by simp⟩
  | c :: t, run, h, hlast, _ => by
    rw [longestTicks] at h
    rw [List.cons_append, tickRuns]
    split_ifs at h with hc
    · rw [beq_iff_eq] at hc
      subst hc
      exact tickRuns_append_ticks h (getLast?_tail hlast) fun he => absurd he (ne_nil_of_tick hlast)
    · have hrest : longestTicks 0 t < n := by omega
      obtain ⟨passed, hruns, hpassed⟩ :=
        tickRuns_append_ticks hrest (getLast?_tail hlast) fun _ => rfl
      rw [if_neg hc, hruns]
      split_ifs
      · exact ⟨passed, rfl, hpassed⟩
      · exact ⟨_ :: passed, rfl, List.forall_mem_cons.2 ⟨by dsimp only; omega, hpassed⟩⟩

theorem StandsBetween.readTicks_eq (h : StandsBetween n t) (hmax : n ≤ maxTicks) :
    ∃ passed, readTicks {} n (t ++ ticks n) =
      (n + t.length + n, { pieces := [.node (.code (codeContent t))], ticks := passed }) := by
  obtain ⟨passed, hruns, hpassed⟩ := tickRuns_append_ticks h.shorter h.last fun _ => rfl
  have htake : (tickRuns 0 (t ++ ticks n)).takeWhile (·.1 != n) = passed := by
    rw [hruns, List.takeWhile_append_of_pos (by simpa using hpassed)]
    simp
  have hdrop : (tickRuns 0 (t ++ ticks n)).drop passed.length = [(n, n)] := by
    rw [hruns, List.drop_left]
  have hlength : (t ++ ticks n).length - n = t.length := by simp [ticks]
  refine ⟨(n, n) :: (passed.reverse ++ []), ?_⟩
  unfold readTicks
  rw [if_neg (by simpa [Reader.opensNothing] using hmax)]
  dsimp only
  rw [htake, hdrop]
  dsimp only
  rw [hlength, List.take_left]
  rfl

theorem StandsBetween.ofText_eq (h : StandsBetween n t) (hmax : n ≤ maxTicks)
    (defs : Definitions) :
    Inline.ofText defs (ticks n ++ (t ++ ticks n)) = [.code (codeContent t)] := by
  obtain ⟨m, rfl⟩ : ∃ m, n = m + 1 := ⟨n - 1, by have := h.shorter; omega⟩
  obtain ⟨passed, hticks⟩ := h.readTicks_eq hmax
  have htext : ticks (m + 1) ++ (t ++ ticks (m + 1)) =
      '`' :: (ticks m ++ (t ++ ticks (m + 1))) := by
    rw [ticks, List.replicate_succ]
    rfl
  have htrim : Text.trimSpaceEnd (ticks (m + 1) ++ (t ++ ticks (m + 1))) =
      ticks (m + 1) ++ (t ++ ticks (m + 1)) := by
    have hend : ticks (m + 1) ++ (t ++ ticks (m + 1)) =
        (ticks (m + 1) ++ (t ++ ticks m)) ++ ['`'] := by
      simp [ticks, List.replicate_succ']
    rw [hend, Text.trimSpaceEnd, dropEndWhile_append_cons rfl]
    rfl
  have hlength : (ticks m ++ (t ++ ticks (m + 1))).length = m + 1 + t.length + (m + 1) - 1 := by
    simp only [ticks, List.length_append, List.length_replicate]
    omega
  have hskip := read_skip defs { pieces := [.node (.code (codeContent t))], ticks := passed }
    ['`'] (ticks m ++ (t ++ ticks (m + 1))) []
  rw [List.append_nil, hlength, Reader.read] at hskip
  have hstep : Reader.step defs {} [] '`' (ticks m ++ (t ++ ticks (m + 1))) =
      readTicks {} (m + 1) (t ++ ticks (m + 1)) := step_ticks defs {} [] m (h.noTick_append _)
  rw [Inline.ofText, htrim, htext, Reader.read, hstep, hticks]
  dsimp only
  rw [hskip]
  rfl

end Parsing

section Writing

variable {c rest : Text}

theorem longestTicks_padded (c : Text) :
    longestTicks 0 (' ' :: (c ++ [' '])) = longestTicks 0 c := by
  have hend : ∀ run, longestTicks run [' '] = longestTicks run [] := fun run => Nat.max_zero run
  have h := longestTicks_congr c hend 0
  rw [List.append_nil] at h
  exact (Nat.zero_max _).trans h

theorem isSpaced_eq_false (h : c.head? = some '`' ∨ c.getLast? = some '`') :
    isSpaced c = false := by
  rcases h with h | h
  · simp [isSpaced, h]
  · simp [isSpaced, h]

/-- What stands between the delimiters of a code span is read like the content itself. -/
theorem exists_standsBetween (hne : c ≠ []) (hline : '\n' ∉ c) :
    ∃ t, StandsBetween (longestTicks 0 c + 1) t ∧ codeContent t = codeContent c ∧
      codeSpan c = ticks (longestTicks 0 c + 1) ++ (t ++ ticks (longestTicks 0 c + 1)) := by
  by_cases hends : c.head? = some '`' ∨ c.getLast? = some '`'
  · have htick : '`' ∈ c := hends.elim List.mem_of_mem_head? List.mem_of_getLast?
    refine ⟨' ' :: (c ++ [' ']), ⟨?_, List.cons_ne_nil _ _, by simp [NoTick], ?_⟩, ?_, ?_⟩
    · rw [longestTicks_padded]
      exact Nat.lt_succ_self _
    · rw [← List.cons_append, List.getLast?_concat]
      simp
    · rw [codeContent_padded htick (by decide) hline, codeContent_of_not_mem hline,
        isSpaced_eq_false hends]
      rfl
    · simp [codeSpan, hends]
  · obtain ⟨hhead, hlast⟩ := not_or.1 hends
    exact ⟨c, ⟨Nat.lt_succ_self _, hne, hhead, hlast⟩, rfl, by simp [codeSpan, hhead, hlast]⟩

theorem readSpan?_codeSpan (hne : c ≠ []) (hline : '\n' ∉ c) (hrest : NoTick rest) :
    readSpan? (codeSpan c ++ rest) = some (codeContent c, rest) := by
  obtain ⟨t, ht, hcontent, hspan⟩ := exists_standsBetween hne hline
  rw [hspan, List.append_assoc, List.append_assoc, ht.readSpan?_eq hrest, hcontent]

/-- The parser, which takes no more than so many backticks for a delimiter, reads the same. -/
theorem ofText_codeSpan (hne : c ≠ []) (hline : '\n' ∉ c) (hmax : longestTicks 0 c < maxTicks)
    (defs : Definitions) : Inline.ofText defs (codeSpan c) = [.code (codeContent c)] := by
  obtain ⟨t, ht, hcontent, hspan⟩ := exists_standsBetween hne hline
  rw [hspan, ht.ofText_eq hmax, hcontent]

variable {setting : Setting} {state : State} {s : Sight}

/-- A code span outside of tables is read to its end, and as what it has been unless it had a space
at both ends. -/
theorem readSpan?_code (hkind : s.token.kind = .leaf .code) (hblock : s.token.block = false)
    (hrow : state.inside.row = false) (hne : s.token.content ≠ [])
    (hline : '\n' ∉ s.token.content) :
    readSpan? (rule setting state s).2 =
      some (if isSpaced s.token.content then s.token.content.tail.dropLast else s.token.content,
        []) := by
  have hwritten : (rule setting state s).2 = codeSpan s.token.content ++ [] := by
    rw [List.append_nil, rule, hkind]
    simp [leafRule, code, hblock, escapeBars, hrow]
  have hend : NoTick [] := by simp [NoTick]
  rw [hwritten, readSpan?_codeSpan hne hline hend, codeContent_of_not_mem hline]

theorem readSpan?_code_tick :
    readSpan? (rule (.ofOptions {}) {} ⟨[], { kind := .leaf .code, content := "` " }, [], 0⟩).2 =
      some (['`', ' '], []) :=
  readSpan?_code rfl rfl rfl (by decide) (by decide)

theorem not_forall_readSpan?_code :
    ¬∀ (setting : Setting) (state : State) (s : Sight), s.token.kind = .leaf .code →
      s.token.block = false → state.inside.row = false → s.token.content ≠ [] →
        '\n' ∉ s.token.content →
          readSpan? (rule setting state s).2 = some (s.token.content, []) := by
  intro h
  have hspaced := h (.ofOptions {}) {} ⟨[], { kind := .leaf .code, content := " a " }, [], 0⟩
    rfl rfl rfl (by decide) (by decide)
  exact absurd hspaced (by decide)

end Writing

end Render

end TidyMark
