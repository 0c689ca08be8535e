import TidyMark.Proofs.BlockStart
import TidyMark.Proofs.Calm
import TidyMark.Proofs.Passage
import TidyMark.Proofs.Visits

/-!
# Writing plain tokens

The rules write nothing that begins a link, and what they take from the source is code, in which
every bracket is escaped, or is looked at by itself (`Visit.isCalm`). Behind most tokens a watch is
where it began. Brackets that close at the end of a text still count behind the block of the text,
up to the next token that writes something (`Rested`), and no text comes before that: one token
keeps this up (`leadsOn_of_isPlain`), and so the pieces of a walk lead a watch from where it begins
to a calm one (`leads_walk`).
-/

namespace TidyMark.Render

open Token

/-- Whether what a token takes from the source as it stands, or writes of it as text, is calm. -/
def Visit.isCalm (setting : Setting) (v : Visit) : Bool :=
  match v.token.kind with
  | .leaf .text => decide (IsCalm (text setting {} ⟨v.before, v.token, v.after, 0⟩))
  | .leaf .sup => decide (IsCalm v.token.content)
  | .leaf .fence => decide (IsCalm ((Text.words v.token.params).headD []))
  | _ => true

section Texts

variable {t : Text} {w : Watch}

/-- A sign that means nothing anywhere unless it is escaped. -/
def restfulSigns : List Sign :=
  [.newline, .slash, .greater, .space, .letter, .other, .hiding]

theorem isReady_of_forall (h : ∀ c ∈ t, Sign.of c ∈ restfulSigns) : IsReady false t :=
  Watch.start_run fun c hc => by
    have hsign := h c hc
    refine ⟨?_, ?_, ?_⟩ <;> rintro rfl <;> exact absurd hsign (by decide)

theorem isRestful_of_forall (hne : t ≠ []) (h : ∀ c ∈ t, Sign.of c ∈ restfulSigns) :
    IsRestful t := by
  obtain ⟨c, t, rfl⟩ := List.exists_cons_of_ne_nil hne
  obtain ⟨hc, ht⟩ := List.forall_mem_cons.1 h
  exact isRestful_cons hc (isReady_of_forall ht)

theorem isReady_breakBefore (after : List Token) : IsReady false (breakBefore after) := by
  unfold breakBefore
  split
  · split_ifs <;> decide
  · decide

end Texts

section Code

variable {t : Text} {w : Watch}

theorem isReady_ticks (n : Nat) : IsReady false (ticks n) :=
  isReady_of_forall fun c hc => by
    rw [List.eq_of_mem_replicate hc]
    decide

theorem isRestful_ticks {n : Nat} (h : 0 < n) : IsRestful (ticks n) :=
  isRestful_of_forall (by simp [ticks]; omega) fun c hc => by
    rw [List.eq_of_mem_replicate hc]
    decide

/-- Code without bare brackets is written without any, whatever stands at its ends. -/
theorem isRestful_codeSpan (h : IsSafe true t) (inside : Inside) :
    IsRestful (codeSpan (escapeBars inside t)) := by
  obtain ⟨w, hw⟩ := isSafe_iff.1 h
  have hopened : w.opened = 0 := Watch.opened_of_run_strict rfl hw
  have hlast := Watch.last_of_run_strict rfl (.inl rfl) hw
  have hcontent : ({} : Watch).run false (escapeBars inside t) = some w := by
    unfold escapeBars
    split_ifs
    · rw [Watch.run_escapeBars, Watch.run_of_strict hw]
    · exact Watch.run_of_strict hw
  generalize escapeBars inside t = content at hcontent
  have hend : ∀ pad : Text, pad = [] ∨ pad = [' '] →
      w.run false (pad ++ ticks (longestTicks 0 content + 1)) = some {} := by
    have hstep : ∀ c : Char, c = ' ' ∨ c = '`' → w.step false c = some {} := by
      obtain ⟨n, l⟩ := w
      subst hopened
      rintro c (rfl | rfl) <;> rcases hlast with rfl | rfl <;> rfl
    rintro pad (rfl | rfl)
    · rw [List.nil_append, ticks, List.replicate_succ, Watch.run_cons, hstep _ (.inr rfl)]
      exact isReady_ticks _
    · rw [List.singleton_append, Watch.run_cons, hstep _ (.inl rfl)]
      exact isReady_ticks _
  unfold codeSpan
  dsimp only
  generalize hpad : (if content.head? == some '`' || content.getLast? == some '`' then [' '] else []) =
    pad
  have hpads : pad = [] ∨ pad = [' '] := by
    rw [← hpad]
    split_ifs <;> simp
  have hready : IsReady false pad := by rcases hpads with rfl | rfl <;> decide
  rw [List.append_assoc, List.append_assoc, List.append_assoc]
  refine (isRestful_ticks (Nat.succ_pos _)).append ?_
  rw [IsReady, Watch.run_append_of_eq hready, Watch.run_append_of_eq hcontent, hend pad hpads]

theorem isTame_trimLineFeeds {strict : Bool} (h : IsTame strict t) :
    IsTame strict (trimLineFeeds t) := by
  rw [← List.takeWhile_append_dropWhile (p := (· == '\n')) (l := t)] at h
  refine isTame_dropNewlines (h.of_append_right (getLast?_ne_of_forall fun c hc => ?_))
  have hn : c = '\n' := by simpa using List.mem_takeWhile_imp hc
  rw [hn]
  decide

theorem isRestful_fenced {lang : Text} (hlang : IsCalm lang) (h : IsTame true t)
    (after : List Token) : IsRestful (fenced lang t after) := by
  have hbody : IsTame false (trimLineFeeds t) := by
    obtain ⟨w, hw, htame⟩ := isTame_iff.1 (isTame_trimLineFeeds h)
    exact isTame_iff.2 ⟨w, Watch.run_of_strict hw, htame⟩
  have hlang : IsTame false lang := by
    obtain ⟨w, hw, hcalm⟩ := isCalm_iff.1 hlang
    exact .of_run hw hcalm
  have hbreak := isReady_breakBefore after
  have hfence := isReady_ticks (max 3 (longestTicks 0 (trimLineFeeds t) + 1))
  unfold fenced fenceFor
  dsimp only
  generalize ticks (max 3 (longestTicks 0 (trimLineFeeds t) + 1)) = mark at hfence
  generalize trimLineFeeds t = body at hbody
  have htext : "\n".toList ++ mark ++ lang ++ "\n".toList ++ body ++ "\n".toList ++ mark ++
      "\n".toList ++ breakBefore after =
      ['\n'] ++ (mark ++ (lang ++ '\n' :: (body ++ '\n' :: (mark ++ (['\n'] ++ breakBefore after))))) := by
    simp
  refine htext ▸ IsRestful.append (by decide) (isReady_append hfence ?_)
  rw [IsReady, hlang.run_append, hbody.run_append]
  exact isReady_append hfence (isReady_append (by decide) hbreak)

end Code

section Children

variable {setting : Setting} {state : State} {before after : List Token} {t : Token}

theorem isRestful_closeMark {marker : Text} (h : IsRestful marker) (inside : Inside) :
    IsRestful (closeMark inside after marker) := by
  unfold closeMark
  split_ifs
  · exact h
  · split
    · exact h.append (by decide)
    · exact h.append (by decide)
    · exact h

theorem isRestful_strongClose (s : Sight) : IsRestful (strongClose state s).2 := by
  unfold strongClose
  dsimp only
  split_ifs
  · decide
  · exact isRestful_closeMark (by decide) _

/-- A child that is no text takes a calm watch back to where it began. -/
theorem isRestful_childRule (h : t.IsPlainChild true) (htext : t.isText = false)
    (hcalm : Visit.isCalm setting ⟨before, t, after⟩ = true) :
    IsRestful (rule setting state ⟨before, t, after, 0⟩).2 := by
  rcases hk : t.kind with c | c | l | name
  · cases c with
    | strong =>
      simp only [rule, hk, openRule, strongOpen]
      split_ifs <;> decide
    | emphasis | deleted =>
      simp only [rule, hk, openRule]
      decide
    | _ => simp [IsPlainChild, hk] at h
  · cases c with
    | strong =>
      simp only [rule, hk, closeRule]
      exact isRestful_strongClose _
    | emphasis | deleted =>
      simp only [rule, hk, closeRule]
      exact isRestful_closeMark (by decide) _
    | _ => simp [IsPlainChild, hk] at h
  · cases l with
    | text => simp [isText, hk] at htext
    | softBreak | hardBreak =>
      simp only [rule, hk, leafRule]
      decide
    | code =>
      simp only [IsPlainChild, hk] at h
      simp only [rule, hk, leafRule, code, h.1]
      exact isRestful_codeSpan (h.2 trivial) _
    | sup =>
      simp only [Visit.isCalm, hk, decide_eq_true_eq] at hcalm
      obtain ⟨w, hw, hw'⟩ := isCalm_iff.1 hcalm
      have hclose : IsRestful ("</sup>" : Text) := by decide
      simp only [rule, hk, leafRule, List.append_assoc]
      refine IsRestful.append (by decide) ?_
      rw [IsReady, Watch.run_append_of_eq hw, hclose.run hw']
    | _ => simp [IsPlainChild, hk] at h
  · simp [IsPlainChild, hk] at h

/-- A text is written in a row of a table as it is outside, with backslashes before its bars. -/
theorem run_text {strict : Bool} {w : Watch} (inside : Inside) (s : Sight) :
    w.run strict (text setting inside s) = w.run strict (text setting {} s) := by
  have hbars : ∀ t : Text, w.run strict (escapeBars inside t) = w.run strict t := by
    intro t
    unfold escapeBars
    split_ifs
    · exact Watch.run_escapeBars
    · rfl
  exact (hbars _).trans (by rfl)

theorem text_of_content_eq_nil {inside : Inside} {s : Sight} (h : s.token.content = []) :
    text setting inside s = [] := by
  have hescape : Escape.escape (atLineStart s.before) [] = [] := rfl
  unfold text
  dsimp only
  rw [h, hescape]
  simp [escapeBars, Text.replaceChar]

end Children

section Steps

variable {setting : Setting} {state : State} {before after : List Token} {t : Token}

/-- The walk leaves alone what is no link, no image and of no unknown kind. -/
theorem step_of_kind (hinline : t.kind ≠ .leaf .inline) (hlink : t.kind ≠ .opening .link)
    (himage : t.kind ≠ .leaf .image) (hknown : ∀ name, t.kind ≠ .unknown name) :
    step setting state before after 0 false t =
      ⟨(rule setting state ⟨before, t, after, 0⟩).1, t,
        (rule setting state ⟨before, t, after, 0⟩).2, none⟩ := by
  have hsettle : settle false t after = t := by
    unfold settle
    split
    · next hk => exact absurd hk hlink
    · next hk => exact absurd hk himage
    · rfl
  exact step_of_known hinline hknown hsettle rfl

theorem linksAfter_of_kind (hlink : t.kind ≠ .opening .link) (himage : t.kind ≠ .leaf .image) :
    linksAfter 0 t.kind = 0 ∧ takesFragment 0 t.kind = false := by
  constructor
  · unfold linksAfter
    split <;> first | rfl | contradiction
  · unfold takesFragment
    split <;> first | rfl | contradiction

theorem kinds_of_isPlainChild (h : t.IsPlainChild true) : t.kind ≠ .leaf .inline ∧
    t.kind ≠ .opening .link ∧ t.kind ≠ .leaf .image ∧ ∀ name, t.kind ≠ .unknown name := by
  refine ⟨?_, ?_, ?_, ?_⟩
  all_goals
    intros
    intro hk
    simp [IsPlainChild, hk] at h

theorem kinds_of_isPlain (h : t.IsPlain true) :
    t.kind ≠ .opening .link ∧ t.kind ≠ .leaf .image ∧ ∀ name, t.kind ≠ .unknown name := by
  refine ⟨?_, ?_, ?_⟩
  all_goals
    intros
    intro hk
    simp [IsPlain, hk, blockConstructs] at h

/-- One child: a text that shows something needs a watch that is where it began. -/
theorem exists_run_child (state : State) {w : Watch} {tokens : List Token} (h : t.IsPlainChild true)
    (hbefore : ∀ p ∈ before.head?, ¬(p.isText = true ∧ t.isText = true))
    (hcalm : Visit.isCalm setting ⟨before, t, tokens⟩ = true)
    (hw : w = {} ∨ w = ⟨0, .closing⟩ ∧
      (before.head?.any isText = true ∨ plainText (t :: tokens) = [])) :
    ∃ u : Watch, w.run false (rule setting state ⟨before, t, tokens, 0⟩).2 = some u ∧
      (u = {} ∨ u = ⟨0, .closing⟩ ∧ (t.isText = true ∨ plainText tokens = [])) ∧
      (plainText (t :: tokens) = [] → u = w ∨ u = {}) := by
  have hsplit : plainText (t :: tokens) = t.plain ++ plainText tokens := List.flatMap_cons
  have hwatch : w.IsCalm := hw.imp_right And.left
  rcases htext : t.isText with _ | _
  · exact ⟨{}, (isRestful_childRule h htext hcalm).run hwatch, .inl rfl, fun _ => .inr rfl⟩
  have hk : t.kind = .leaf .text := by simpa [isText] using htext
  have hwritten : (rule setting state ⟨before, t, tokens, 0⟩).2 =
      text setting state.inside ⟨before, t, tokens, 0⟩ := by
    simp only [rule, hk, leafRule]
  have hnothing : plainText (t :: tokens) = [] →
      w.run false (text setting state.inside ⟨before, t, tokens, 0⟩) = some w ∧
        plainText tokens = [] := by
    intro hnil
    rw [hsplit, List.append_eq_nil_iff, plain, hk] at hnil
    rw [text_of_content_eq_nil hnil.1]
    exact ⟨rfl, hnil.2⟩
  rw [hwritten]
  rcases hw with rfl | ⟨rfl, hprevious | hnil⟩
  · simp only [Visit.isCalm, hk, decide_eq_true_eq] at hcalm
    obtain ⟨u, hu, hu'⟩ := isCalm_iff.1 hcalm
    rw [← run_text state.inside] at hu
    refine ⟨u, hu, hu'.imp_right fun h => ⟨h, .inl rfl⟩, fun hnil => ?_⟩
    rw [(hnothing hnil).1] at hu
    cases hu
    exact .inl rfl
  · rcases before with _ | ⟨p, before⟩
    · cases hprevious
    · exact absurd ⟨hprevious, htext⟩ (hbefore p rfl)
  · exact ⟨_, (hnothing hnil).1, .inr ⟨rfl, .inl rfl⟩, fun _ => .inl rfl⟩

/-- The children of an `inline` token: the watch is calm behind each of them, and behind those that
show nothing it is as before or at the start. -/
theorem run_children : ∀ {tokens before : List Token} (state : State) {w : Watch},
    (∀ c ∈ tokens, c.IsPlainChild true) → IsMerged tokens →
    (∀ p ∈ before.head?, ∀ c ∈ tokens.head?, ¬(p.isText = true ∧ c.isText = true)) →
    (∀ v ∈ visits before tokens, v.isCalm setting = true) →
    (w = {} ∨ w = ⟨0, .closing⟩ ∧ (before.head?.any isText = true ∨ plainText tokens = [])) →
    (walk setting state before 0 false tokens).tokens = tokens ∧
      (walk setting state before 0 false tokens).stopped = none ∧
      ∃ w', w.run false (walk setting state before 0 false tokens).written = some w' ∧
        w'.IsCalm ∧ (plainText tokens = [] → w' = w ∨ w' = {})
  | [], before, state, w, _, _, _, _, hw => by
    rw [walk_nil]
    exact ⟨rfl, rfl, w, rfl, hw.imp_right And.left, fun _ => .inl rfl⟩
  | t :: tokens, before, state, w, hplain, hmerged, hbefore, hcalm, hw => by
    obtain ⟨ht, htokens⟩ := List.forall_mem_cons.1 hplain
    obtain ⟨hinline, hlink, himage, hknown⟩ := kinds_of_isPlainChild ht
    rw [visits_cons_leaf hinline] at hcalm
    obtain ⟨hcalmHere, hcalmRest⟩ := List.forall_mem_cons.1 hcalm
    obtain ⟨hlinks, htakes⟩ := linksAfter_of_kind hlink himage
    obtain ⟨u, hu, hnext, hsame⟩ := exists_run_child state ht
      (fun p hp => hbefore p hp t rfl) hcalmHere hw
    obtain ⟨htok, hstop, w', hw', hcalm', hsame'⟩ := run_children
      (rule setting state ⟨before, t, tokens, 0⟩).1 htokens hmerged.tail
      (fun p hp c hc => by
        cases hp
        exact (List.isChain_cons.1 hmerged).1 c hc) hcalmRest hnext
    rw [walk_cons (step_of_kind hinline hlink himage hknown) rfl, hlinks, htakes]
    refine ⟨by rw [htok], hstop, w', ?_, hcalm', fun hnil => ?_⟩
    · rw [Walk.written, List.flatMap_cons, Watch.run_append_of_eq hu]
      exact hw'
    · have hrest : plainText tokens = [] :=
        (List.append_eq_nil_iff.1 (List.flatMap_cons.symm.trans hnil)).2
      rcases hsame' hrest with rfl | rfl
      · exact hsame hnil
      · exact .inr rfl

end Steps

section Blocks

/-- Whether an item ends behind paragraphs that show nothing. -/
def endsItem (after : List Token) : Bool :=
  (skipEmptyParagraphs after).head?.any (·.kind == .closing .listItem)

/-- Whether the line of a text may not have ended behind a token. Behind a tight paragraph this
matters only up to the next one, or up to the end of the item if what comes before shows nothing. -/
def LeavesOpen (p : Token) (after : List Token) : Prop :=
  match p.kind with
  | .leaf .inline => p.content ≠ [] ∨ ∃ c rest, after = c :: rest ∧ c.kind = .closing .paragraph ∧
      c.tight = true ∧ endsItem rest = true
  | .closing .dataCell | .opening .table => True
  | .opening .paragraph => endsItem (p :: after) = true
  | .closing .paragraph =>
    p.tight = true ∧ (following? after = some (.opening .paragraph) → endsItem after = true)
  | _ => False

/-- Whether a watch is as it may be behind these tokens, the nearest of which is the first. -/
def Rested (before after : List Token) (w : Watch) : Prop :=
  w = {} ∨ w = ⟨0, .closing⟩ ∧ ∃ p ∈ before.head?, LeavesOpen p after

variable {setting : Setting} {state : State} {before after : List Token} {t : Token} {w : Watch}

theorem Rested.isCalm (h : Rested before after w) : w.IsCalm :=
  h.imp_right And.left

theorem breakBefore_of_not_endsItem (h : endsItem after = false) : breakBefore after = ['\n'] := by
  unfold endsItem at h
  unfold breakBefore
  split
  · next t rest hskip =>
    rw [hskip] at h
    simpa using h
  · rfl

theorem breakBefore_of_endsItem (h : endsItem after = true) : breakBefore after = [] := by
  unfold endsItem at h
  unfold breakBefore
  split
  · next t rest hskip =>
    rw [hskip] at h
    simpa using h
  · next hskip =>
    rw [hskip] at h
    cases h

/-- Where a paragraph that shows nothing stands before the end of an item, it is tight, and so is
what comes behind it. -/
theorem exists_of_endsItem (hk : t.kind = .opening .paragraph) (h : endsItem (t :: after) = true) :
    ∃ b c rest, after = b :: c :: rest ∧ b.kind = .leaf .inline ∧ b.content = [] ∧
      c.kind = .closing .paragraph ∧ c.tight = true ∧ endsItem rest = true := by
  have hself : ∀ ts, skipEmptyParagraphs ts = t :: after → (skipEmptyParagraphs ts).head?.any
      (·.kind == .closing .listItem) = false := by
    intro ts hts
    simp [hts, hk]
  unfold endsItem at h
  rcases after with _ | ⟨b, _ | ⟨c, rest⟩⟩
  · rw [hself _ rfl] at h
    cases h
  · rw [hself _ rfl] at h
    cases h
  · rw [skipEmptyParagraphs] at h
    split_ifs at h with hempty
    · simp only [isEmptyParagraph, Bool.and_eq_true, beq_iff_eq, List.isEmpty_iff] at hempty
      exact ⟨b, c, rest, rfl, hempty.1.1.1.2, hempty.1.1.2, hempty.1.2, hempty.2, h⟩
    · simp [hk] at h

/-- What is known of a token where the line before it may not have ended. -/
def Continues (before : List Token) (t : Token) (after : List Token) : Prop :=
  match t.kind with
  | .leaf .inline => t.content = [] ∧ ∃ c rest, after = c :: rest ∧
      c.kind = .closing .paragraph ∧ c.tight = true ∧ endsItem rest = true
  | .opening .paragraph => endsItem (t :: after) = true
  | .closing .paragraph =>
    (∃ p ∈ before.head?, p.content ≠ []) ∨ t.tight = true ∧ endsItem after = true
  | .closing .listItem => before.head?.any (·.tight) = true
  | .opening .tableRow | .opening .headerCell | .closing .bulletList | .closing .orderedList
  | .closing .tableHead | .closing .tableBody => False
  | _ => True

/-- Behind most tokens the watch is where it began. -/
theorem Rested.cases (h : Rested before (t :: after) w)
    (hfollow : ∀ p ∈ before.head?, mayFollow p.kind t.kind = true) :
    w = {} ∨ w = ⟨0, .closing⟩ ∧ Continues before t after := by
  refine h.imp_right fun ⟨hw, p, hp, hopen⟩ => ⟨hw, ?_⟩
  have hf := hfollow p hp
  unfold LeavesOpen at hopen
  split at hopen
  · next hk =>
    simp only [mayFollow, hk, List.contains_iff_mem, List.mem_cons, List.not_mem_nil, or_false] at hf
    rcases hf with hk | hk | hk | hk <;> simp only [Continues, hk]
    rcases hopen with hopen | ⟨c, rest, heq, -, htight, hend⟩
    · exact .inl ⟨p, hp, hopen⟩
    · obtain ⟨rfl, rfl⟩ := List.cons.inj heq
      exact .inr ⟨htight, hend⟩
  · next hk =>
    simp only [mayFollow, hk, List.contains_iff_mem, List.mem_cons, List.not_mem_nil, or_false] at hf
    rcases hf with hk | hk <;> simp only [Continues, hk]
  · next hk =>
    simp only [mayFollow, hk, List.contains_iff_mem, List.mem_cons, List.not_mem_nil, or_false] at hf
    rcases hf with hk | hk | hk <;> simp only [Continues, hk]
  · next hk =>
    obtain ⟨b, c, rest, hafter, hb, hcontent, hc, htight, hend⟩ := exists_of_endsItem hk hopen
    obtain ⟨rfl, rfl⟩ := List.cons.inj hafter
    simp only [Continues, hb]
    exact ⟨hcontent, c, rest, rfl, hc, htight, hend⟩
  · next hk =>
    simp only [mayFollow, hk, Bool.or_eq_true, List.contains_iff_mem, blockStarts, List.mem_cons,
      List.not_mem_nil, or_false] at hf
    rcases hf with (hk | hk | hk | hk | hk | hk | hk | hk | hk | hk | hk) | (hk | hk | hk | hk) <;>
      simp only [Continues, hk]
    · exact hopen.2 (by rw [following?, List.head?_cons, Option.map_some, hk])
    · simp [Option.mem_def.1 hp, hopen.1]
  · exact hopen.elim

/-- What a token leads a watch to. -/
def LeadsOn (setting : Setting) (state : State) (before after : List Token) (t : Token)
    (w : Watch) : Prop :=
  ∃ w', Piece.Takes ⟨.ofKind t.kind, (rule setting state ⟨before, t, after, 0⟩).2⟩ w w' ∧
    Rested (t :: before) after w'

theorem leadsOn_of_isRestful (hw : w.IsCalm)
    (h : IsRestful (rule setting state ⟨before, t, after, 0⟩).2)
    (hquote : t.kind = .closing .blockquote →
      (rule setting state ⟨before, t, after, 0⟩).2.head? = some '\n') :
    LeadsOn setting state before after t w := by
  refine ⟨{}, ⟨h.run hw, .inl rfl, fun _ => rfl, fun hrole => hquote ?_⟩, .inl rfl⟩
  revert hrole
  unfold Role.ofKind
  split <;> simp_all

theorem leadsOn_of_start (hw : w = {})
    (h : IsReady false (rule setting state ⟨before, t, after, 0⟩).2)
    (hquote : t.kind ≠ .closing .blockquote) : LeadsOn setting state before after t w := by
  subst hw
  refine ⟨{}, ⟨h, .inl rfl, fun _ => rfl, fun hrole => absurd ?_ hquote⟩, .inl rfl⟩
  revert hrole
  unfold Role.ofKind
  split <;> simp_all

theorem leadsOn_of_nil (hw : w.IsCalm)
    (h : (rule setting state ⟨before, t, after, 0⟩).2 = [])
    (hrole : Role.ofKind t.kind = .plain ∨ Role.ofKind t.kind = .closesItem)
    (hopen : w = ⟨0, .closing⟩ → LeavesOpen t after) : LeadsOn setting state before after t w := by
  refine ⟨w, ⟨by rw [h]; rfl, hw, ?_, ?_⟩, ?_⟩
  · rcases hrole with hrole | hrole <;> simp [hrole]
  · rcases hrole with hrole | hrole <;> simp [hrole]
  · rcases hw with rfl | rfl
    · exact .inl rfl
    · exact .inr ⟨rfl, t, rfl, hopen rfl⟩

theorem isReady_join {sep : Text} (hsep : IsReady false sep) : ∀ {ts : List Text},
    (∀ t ∈ ts, IsReady false t) → IsReady false (Text.join sep ts)
  | [], _ => isReady_nil
  | [t], h => h t (by simp)
  | t :: u :: ts, h => by
    obtain ⟨ht, hts⟩ := List.forall_mem_cons.1 h
    rw [Text.join]
    exact isReady_append (isReady_append ht hsep) (isReady_join hsep hts)

theorem isRestful_alignmentRow (aligns : List (Option Align)) :
    IsRestful (alignmentRow aligns) := by
  have hmarkers : ∀ t ∈ aligns.map alignMarker, IsReady false t :=
    List.forall_mem_map.2 fun align _ => by
      rcases align with _ | _ | _ | _ <;> decide
  rw [alignmentRow, List.append_assoc]
  exact IsRestful.append (by decide)
    (isReady_append (isReady_join (by decide) hmarkers) (by decide))

theorem isRestful_headingOpen (t : Token) : IsRestful (headingOpen t) := by
  refine isRestful_of_forall (by simp [headingOpen]) fun c hc => ?_
  rcases List.mem_append.1 hc with hc | hc
  · rw [List.eq_of_mem_replicate hc]
    decide
  · rw [List.mem_singleton.1 hc]
    decide

theorem sign_of_isDigit {c : Char} (h : c.isDigit = true) : Sign.of c ∈ restfulSigns := by
  have hblank := isBlank_of_isDigit h
  unfold Sign.of
  split <;> first | exact absurd h (by decide) | skip
  rw [hblank]
  split_ifs <;> simp [restfulSigns]

theorem sign_bulletFor {marks : List Char} (h : marks = bullets ∨ marks = bylineBullets)
    (depth : Nat) : Sign.of (bulletFor marks depth) = .other := by
  have hall : ∀ i, i < 4 → Sign.of (bullets.getD i '*') = .other ∧
      Sign.of (bylineBullets.getD i '*') = .other := by decide
  have hlt : depth % 4 < 4 := Nat.mod_lt _ (by decide)
  rcases h with rfl | rfl
  · exact (hall _ hlt).1
  · exact (hall _ hlt).2

theorem isRestful_listItemOpen (options : Options) (s : Sight) :
    IsRestful (listItemOpen options state s).2 := by
  have hbullet : ∀ shift, IsRestful [listItemOpen.bullet options s shift, ' '] := by
    intro shift
    refine isRestful_cons ?_ (by decide)
    unfold listItemOpen.bullet
    split_ifs
    · rw [sign_bulletFor (.inr rfl)]
      decide
    · rw [sign_bulletFor (.inl rfl)]
      decide
  have hordinal : ∀ (n : Nat) (delimiter : Char), delimiter = '.' ∨ delimiter = ')' →
      IsRestful (Text.ofNat n ++ [delimiter, ' ']) := by
    intro n delimiter hd
    refine isRestful_of_forall (by simp) fun c hc => ?_
    rcases List.mem_append.1 hc with hc | hc
    · exact sign_of_isDigit (Nat.isDigit_of_mem_toDigits (by decide) (by decide) hc)
    · rcases List.mem_pair.1 hc with rfl | rfl
      · rcases hd with rfl | rfl <;> decide
      · decide
  unfold listItemOpen
  split
  · split_ifs
    · exact hordinal _ _ (.inl rfl)
    · exact hordinal _ _ (.inr rfl)
    · exact hbullet _
  · exact hbullet 0

theorem paragraphOpen_eq (s : Sight) : paragraphOpen s = [] ∨ paragraphOpen s = ['\n'] := by
  unfold paragraphOpen
  split_ifs <;> simp

theorem isRestful_cellEnd {separator : Text} (h : IsRestful separator) :
    IsRestful (cellEnd separator after) := by
  unfold cellEnd
  split_ifs
  · decide
  · exact h

theorem leadsOn_openRule {c : Construct} (hk : t.kind = .opening c) (hc : c ∈ blockConstructs)
    (hfollow : ∀ p ∈ before.head?, mayFollow p.kind t.kind = true)
    (hw : Rested before (t :: after) w) : LeadsOn setting state before after t w := by
  have hclosing : t.kind ≠ .closing .blockquote := by
    rw [hk]
    exact Kind.noConfusion
  have hrestful : IsRestful (openRule setting state ⟨before, t, after, 0⟩ c).2 →
      LeadsOn setting state before after t w := fun h =>
    leadsOn_of_isRestful hw.isCalm (by simpa only [rule, hk] using h) fun h => absurd h hclosing
  have hready : w = {} → IsReady false (openRule setting state ⟨before, t, after, 0⟩ c).2 →
      LeadsOn setting state before after t w := fun hw h =>
    leadsOn_of_start hw (by simpa only [rule, hk] using h) hclosing
  cases c with
  | blockquote | bulletList | orderedList | tableHead | descriptionList | descriptionTerm
  | descriptionDetails => exact hrestful (by simp only [openRule, listOpen, openTableHead]; decide)
  | heading => exact hrestful (isRestful_headingOpen t)
  | listItem => exact hrestful (isRestful_listItemOpen _ _)
  | tableBody => exact hrestful (isRestful_alignmentRow _)
  | dataCell =>
    refine hrestful ?_
    simp only [openRule, openDataCell]
    split_ifs <;> decide
  | tableRow | headerCell =>
    rcases hw.cases hfollow with hw | ⟨-, hcontinues⟩
    · exact hready hw (by simp only [openRule, openTableRow, openHeaderCell]; decide)
    · simp only [Continues, hk] at hcontinues
  | table =>
    exact leadsOn_of_nil hw.isCalm (by simp only [rule, hk, openRule, openTable])
      (by simp [hk, Role.ofKind]) fun _ => by simp [LeavesOpen, hk]
  | paragraph =>
    rcases paragraphOpen_eq ⟨before, t, after, 0⟩ with hopen | hopen
    · refine leadsOn_of_nil hw.isCalm (by simp only [rule, hk, openRule, hopen])
        (by simp [hk, Role.ofKind]) fun hclosed => ?_
      rcases hw.cases hfollow with rfl | ⟨-, hcontinues⟩
      · cases hclosed
      · simpa only [Continues, LeavesOpen, hk] using hcontinues
    · exact hrestful (by simp only [openRule, hopen]; decide)
  | _ => exact absurd hc (by decide)

/-- Where a tight paragraph shows something, or an item ends behind paragraphs that show nothing, it
ends its line or does not matter for the next paragraph. -/
theorem paragraphClose_of_tight {s : Sight} (ht : s.token.tight = true)
    (hnext : ∀ u ∈ s.after.head?, u.kind ≠ .closing .paragraph)
    (hb : (∃ p ∈ s.before.head?, p.content ≠ []) ∨ endsItem s.after = true) :
    paragraphClose s = ['\n'] ∨ paragraphClose s = [] ∧
      (following? s.after = some (.opening .paragraph) → endsItem s.after = true) := by
  obtain ⟨before, t, after, n⟩ := s
  dsimp only at ht hnext hb ⊢
  have hclosed : paragraphClose.closed ⟨before, t, after, n⟩ (breakBefore after) = ['\n'] ∨
      paragraphClose.closed ⟨before, t, after, n⟩ (breakBefore after) = [] ∧
        endsItem after = true := by
    rcases hend : endsItem after with _ | _
    · obtain ⟨p, hp, hcontent⟩ := hb.resolve_right (by simp [hend])
      rcases before with _ | ⟨q, before⟩
      · cases hp
      · cases hp
        simp [paragraphClose.closed, ht, hcontent, breakBefore_of_not_endsItem hend]
    · refine .inr ⟨?_, rfl⟩
      simp [paragraphClose.closed, ht, breakBefore_of_endsItem hend]
  unfold paragraphClose
  dsimp only
  split
  · next k hk =>
    split_ifs with hparagraph
    · exact hclosed.imp_right fun h => ⟨h.1, fun _ => h.2⟩
    · refine .inr ⟨rfl, fun h => ?_⟩
      rw [hk, Option.some.injEq] at h
      rw [h] at hparagraph
      exact absurd rfl hparagraph
  · next hnone => exact hclosed.imp_right fun h => ⟨h.1, fun _ => h.2⟩

theorem isReady_paragraphClose (s : Sight) : IsReady false (paragraphClose s) := by
  have hbreak := isReady_breakBefore s.after
  have hclosed : IsReady false (paragraphClose.closed s (breakBefore s.after)) := by
    unfold paragraphClose.closed
    refine isReady_append ?_ ?_
    · split_ifs <;> decide
    · split_ifs
      · exact isReady_nil
      · exact hbreak
  unfold paragraphClose
  dsimp only
  split
  · split_ifs
    · exact hclosed
    · exact isReady_nil
    · exact (isRestful_cons (by decide) hbreak).1
  · exact hclosed

/-- Behind a paragraph that has left its line open an item ends with a line end: what follows is
another item or the end of the list. -/
theorem leadsOn_closeListItem (hk : t.kind = .closing .listItem)
    (hfollow : ∀ p ∈ before.head?, mayFollow p.kind t.kind = true)
    (hnext : ∀ u ∈ after.head?, mayFollow t.kind u.kind = true)
    (hw : Rested before (t :: after) w) : LeadsOn setting state before after t w := by
  have hrule : rule setting state ⟨before, t, after, 0⟩ =
      (state, listItemClose ⟨before, t, after, 0⟩) := by simp only [rule, hk, closeRule]
  have hquote : t.kind ≠ .closing .blockquote := by simp [hk]
  rcases hw.cases hfollow with hw | ⟨-, htight⟩
  · refine leadsOn_of_start hw ?_ hquote
    rw [hrule, listItemClose]
    split_ifs
    · exact isReady_breakBefore after
    · exact isReady_nil
  · have hend : breakBefore after = ['\n'] := breakBefore_eq fun u hu => by
      have hu := hnext u hu
      rw [hk] at hu
      constructor
      all_goals
        intro huk
        rw [huk] at hu
        cases hu
    simp only [Continues, hk] at htight
    refine leadsOn_of_isRestful hw.isCalm ?_ fun h => absurd h hquote
    rw [hrule, listItemClose, if_pos htight, hend]
    change IsRestful ['\n']
    decide

theorem leadsOn_closeParagraph (hk : t.kind = .closing .paragraph)
    (hfollow : ∀ p ∈ before.head?, mayFollow p.kind t.kind = true)
    (hnext : ∀ u ∈ after.head?, mayFollow t.kind u.kind = true)
    (hw : Rested before (t :: after) w) : LeadsOn setting state before after t w := by
  have hrule : rule setting state ⟨before, t, after, 0⟩ =
      (state, paragraphClose ⟨before, t, after, 0⟩) := by simp only [rule, hk, closeRule]
  have hquote : t.kind ≠ .closing .blockquote := by simp [hk]
  have hrestful : IsRestful (paragraphClose ⟨before, t, after, 0⟩) →
      LeadsOn setting state before after t w := fun h =>
    leadsOn_of_isRestful hw.isCalm (by rwa [hrule]) fun h => absurd h hquote
  have hends : ∀ u ∈ after.head?, u.kind ≠ .closing .paragraph := fun u hu huk => by
    have hu := hnext u hu
    rw [hk, huk] at hu
    cases hu
  rcases hw.cases hfollow with hw | ⟨-, hcontinues⟩
  · refine leadsOn_of_start hw ?_ hquote
    rw [hrule]
    exact isReady_paragraphClose _
  simp only [Continues, hk] at hcontinues
  rcases htight : t.tight with _ | _
  · refine hrestful ?_
    rw [paragraphClose_of_loose (s := ⟨before, t, after, 0⟩) htight]
    exact isRestful_cons (by decide) (isReady_breakBefore after)
  · rcases paragraphClose_of_tight (s := ⟨before, t, after, 0⟩) htight hends
      (hcontinues.imp_right And.right) with h | ⟨h, hend⟩
    · exact hrestful (by rw [h]; decide)
    · refine leadsOn_of_nil hw.isCalm (by rw [hrule, h]) (by simp [hk, Role.ofKind]) fun _ => ?_
      simp only [LeavesOpen, hk]
      exact ⟨htight, hend⟩

theorem leadsOn_closeRule {c : Construct} (hk : t.kind = .closing c) (hc : c ∈ blockConstructs)
    (hfollow : ∀ p ∈ before.head?, mayFollow p.kind t.kind = true)
    (hnext : ∀ u ∈ after.head?, mayFollow t.kind u.kind = true)
    (hw : Rested before (t :: after) w) : LeadsOn setting state before after t w := by
  have hrestful : IsRestful (closeRule state ⟨before, t, after, 0⟩ c).2 →
      (c = .blockquote → (closeRule state ⟨before, t, after, 0⟩ c).2.head? = some '\n') →
      LeadsOn setting state before after t w := fun h hquote =>
    leadsOn_of_isRestful hw.isCalm (by simpa only [rule, hk] using h) fun h => by
      simp only [rule, hk]
      exact hquote (by simpa [hk] using h)
  have hready : w = {} → c ≠ .blockquote →
      IsReady false (closeRule state ⟨before, t, after, 0⟩ c).2 →
      LeadsOn setting state before after t w := fun hw hc h =>
    leadsOn_of_start hw (by simpa only [rule, hk] using h) (by simpa [hk] using hc)
  have hbreak := isReady_breakBefore after
  cases c with
  | blockquote => exact hrestful (isRestful_cons (by decide) hbreak) fun _ => rfl
  | heading => exact hrestful (isRestful_cons (by decide) hbreak) Construct.noConfusion
  | tableRow | table | descriptionTerm | descriptionDetails =>
    exact hrestful (by simp only [closeRule, closeTableRow, closeTable]; decide) Construct.noConfusion
  | descriptionList => exact hrestful (IsRestful.append (by decide) hbreak) Construct.noConfusion
  | headerCell => exact hrestful (isRestful_cellEnd (by decide)) Construct.noConfusion
  | bulletList | orderedList =>
    rcases hw.cases hfollow with hw | ⟨-, hcontinues⟩
    · exact hready hw Construct.noConfusion hbreak
    · simp only [Continues, hk] at hcontinues
  | tableHead =>
    rcases hw.cases hfollow with hw | ⟨-, hcontinues⟩
    · refine hready hw Construct.noConfusion ?_
      simp only [closeRule, closeTableHead]
      split_ifs
      · exact isReady_nil
      · exact (isRestful_alignmentRow _).1
    · simp only [Continues, hk] at hcontinues
  | tableBody =>
    rcases hw.cases hfollow with hw | ⟨-, hcontinues⟩
    · exact hready hw Construct.noConfusion isReady_nil
    · simp only [Continues, hk] at hcontinues
  | dataCell =>
    by_cases hrow : following? after = some (.closing .tableRow)
    · exact hrestful (by simp only [closeRule, cellEnd, hrow]; decide) Construct.noConfusion
    · exact leadsOn_of_nil hw.isCalm (by simp [rule, hk, closeRule, cellEnd, hrow])
        (by simp [hk, Role.ofKind]) fun _ => by simp [LeavesOpen, hk]
  | listItem => exact leadsOn_closeListItem hk hfollow hnext hw
  | paragraph => exact leadsOn_closeParagraph hk hfollow hnext hw
  | _ => exact absurd hc (by decide)

theorem leadsOn_leafRule {l : Leaf} (hk : t.kind = .leaf l) (hl : l ≠ .inline)
    (h : t.IsPlain true) (hcalm : Visit.isCalm setting ⟨before, t, after⟩ = true)
    (hw : w.IsCalm) : LeadsOn setting state before after t w := by
  have hrestful : IsRestful (leafRule setting state ⟨before, t, after, 0⟩ l).2 →
      LeadsOn setting state before after t w := fun hr =>
    leadsOn_of_isRestful hw (by simpa only [rule, hk] using hr) fun hq => by simp [hk] at hq
  cases l with
  | inline => exact absurd rfl hl
  | fence =>
    simp only [Visit.isCalm, hk, decide_eq_true_eq] at hcalm
    simp only [IsPlain, hk] at h
    exact hrestful (isRestful_fenced hcalm h.1 _)
  | code =>
    simp only [IsPlain, hk] at h
    refine hrestful ?_
    simp only [leafRule, code, h.1, if_true]
    exact isRestful_fenced (by decide) h.2.1 _
  | rule => exact hrestful (IsRestful.append (by decide) (isReady_breakBefore after))
  | _ => simp [IsPlain, hk] at h

/-- One token between blocks leads a watch on as it is to be. -/
theorem leadsOn_of_isPlain (state : State) (h : t.IsPlain true) (hinline : t.kind ≠ .leaf .inline)
    (hcalm : Visit.isCalm setting ⟨before, t, after⟩ = true)
    (hfollow : ∀ p ∈ before.head?, mayFollow p.kind t.kind = true)
    (hnext : ∀ u ∈ after.head?, mayFollow t.kind u.kind = true)
    (hw : Rested before (t :: after) w) : LeadsOn setting state before after t w := by
  rcases hk : t.kind with c | c | l | name
  · simp only [IsPlain, hk] at h
    exact leadsOn_openRule hk h.1 hfollow hw
  · simp only [IsPlain, hk] at h
    exact leadsOn_closeRule hk h.1 hfollow hnext hw
  · exact leadsOn_leafRule hk (fun hl => hinline (hl ▸ hk)) h hcalm hw.isCalm
  · simp [IsPlain, hk] at h

theorem with_children {ts : List Token} (h : ts = t.children) : { t with children := ts } = t := by
  subst h
  cases t
  rfl

/-- The content of a block leads a watch on as it is to be. -/
theorem exists_run_inline (state : State) (hinline : t.kind = .leaf .inline) (h : t.IsPlain true)
    (hcalm : ∀ v ∈ visits [] t.children, v.isCalm setting = true)
    (hfollow : ∀ p ∈ before.head?, mayFollow p.kind t.kind = true)
    (hw : Rested before (t :: after) w) :
    (walk setting state [] 0 false t.children).tokens = t.children ∧
      (walk setting state [] 0 false t.children).stopped = none ∧
      ∃ w', Piece.Takes ⟨.plain, (walk setting state [] 0 false t.children).written⟩ w w' ∧
        Rested (t :: before) after w' := by
  obtain ⟨hcontent, hmerged, hchildren⟩ : t.content = plainText t.children ∧
      IsMerged t.children ∧ ∀ c ∈ t.children, c.IsPlainChild true := by
    simpa only [IsPlain, hinline] using h
  have hcases := hw.cases hfollow
  simp only [Continues, hinline] at hcases
  obtain ⟨htokens, hstop, u, hu, hu', hsame⟩ := run_children state hchildren hmerged
    (by simp) hcalm (hcases.imp_right fun hclosed =>
      ⟨hclosed.1, .inr (hcontent ▸ hclosed.2.1)⟩)
  refine ⟨htokens, hstop, u, ⟨hu, hu', by simp, by simp⟩, hu'.imp_right fun hclosed =>
    ⟨hclosed, t, rfl, ?_⟩⟩
  simp only [LeavesOpen, hinline]
  by_cases hnil : t.content = []
  · -- Content that shows nothing leaves open what was open before.
    refine .inr ?_
    rcases hsame (hcontent ▸ hnil) with rfl | rfl
    · rcases hcases with rfl | ⟨-, -, hend⟩
      · cases hclosed
      · exact hend
    · cases hclosed
  · exact .inl hnil

/-- The pieces of a walk lead a watch on. -/
theorem leads_walk : ∀ {tokens before : List Token} (state : State) {w : Watch},
    (∀ t ∈ tokens, t.IsPlain true) → (tokens.IsChain fun t u => mayFollow t.kind u.kind = true) →
    (∀ p ∈ before.head?, ∀ t ∈ tokens.head?, mayFollow p.kind t.kind = true) →
    (∀ v ∈ visits before tokens, v.isCalm setting = true) → Rested before tokens w →
      (walk setting state before 0 false tokens).stopped = none ∧
        ∃ w', Leads w (walk setting state before 0 false tokens).pieces w'
  | [], before, state, w, _, _, _, _, _ => by
    rw [walk_nil]
    exact ⟨rfl, w, rfl⟩
  | t :: tokens, before, state, w, hplain, hchain, hfollow, hcalm, hw => by
    obtain ⟨ht, htokens⟩ := List.forall_mem_cons.1 hplain
    obtain ⟨hlink, himage, hknown⟩ := kinds_of_isPlain ht
    obtain ⟨hlinks, htakes⟩ := linksAfter_of_kind hlink himage
    obtain ⟨hnext, hchain⟩ := List.isChain_cons.1 hchain
    have hfollowRest : ∀ p ∈ (t :: before).head?, ∀ u ∈ tokens.head?,
        mayFollow p.kind u.kind = true := fun p hp u hu => by
      cases hp
      exact hnext u hu
    by_cases hinline : t.kind = .leaf .inline
    · rw [visits_cons_inline hinline] at hcalm
      obtain ⟨hcalmChildren, hcalmRest⟩ := List.forall_mem_append.1 (List.forall_mem_cons.1 hcalm).2
      obtain ⟨hchildren, hstopInside, u, htakesOn, hrested⟩ := exists_run_inline state
        hinline ht hcalmChildren (fun p hp => hfollow p hp t rfl) hw
      obtain ⟨hstop, w', hw'⟩ := leads_walk
        (walk setting state [] 0 false t.children).state htokens hchain hfollowRest
        hcalmRest hrested
      rw [walk_cons_inline hinline rfl hstopInside rfl, with_children hchildren]
      exact ⟨hstop, w', u, htakesOn, hw'⟩
    · obtain ⟨u, htakesOn, hrested⟩ := leadsOn_of_isPlain state ht hinline
        (by
          rw [visits_cons_leaf hinline] at hcalm
          exact (List.forall_mem_cons.1 hcalm).1)
        (fun p hp => hfollow p hp t rfl) hnext hw
      rw [visits_cons_leaf hinline] at hcalm
      obtain ⟨hstop, w', hw'⟩ := leads_walk
        (rule setting state ⟨before, t, tokens, 0⟩).1 htokens hchain hfollowRest
        (List.forall_mem_cons.1 hcalm).2 hrested
      rw [walk_cons (step_of_kind hinline hlink himage hknown) rfl, hlinks, htakes]
      exact ⟨hstop, w', u, htakesOn, hw'⟩

end Blocks

end TidyMark.Render
