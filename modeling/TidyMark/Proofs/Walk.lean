import Mathlib.Tactic.SplitIfs
import TidyMark.Render.Basic
import TidyMark.Token.Stream

/-!
# Walking over tokens

A walk takes the tokens as they come: each one keeps its kind (`kind_step`), and what it writes
stands before what the tokens behind it write (`walk_cons`). In the place of an `inline` token it
goes through the children (`walk_cons_inline`), which is also how to argue about it
(`walk_induction`). It stops only if it is strict (`stopped_walk`), and where it does not it writes
a piece for each token (`length_pieces_walk`). A stream of one paragraph is written as its inline
content (`render_paragraphAt`).
-/

namespace TidyMark.Render

section Kinds

theorem kind_withoutFragment (t : Token) : (withoutFragment t).kind = t.kind := by
  unfold withoutFragment
  split_ifs
  · split <;> rfl
  · rfl

theorem kind_ite_withoutFragment (takes : Bool) (t : Token) :
    (if takes then withoutFragment t else t).kind = t.kind := by
  split_ifs
  · exact kind_withoutFragment t
  · rfl

theorem kind_settle (takes : Bool) (t : Token) (after : List Token) :
    (settle takes t after).kind = t.kind := by
  unfold settle
  split
  · rfl
  · rfl
  · exact kind_ite_withoutFragment takes t

theorem kind_step (setting : Setting) (state : State) (before after : List Token)
    (openLinks : Nat) (takes : Bool) (t : Token) :
    (step setting state before after openLinks takes t).token.kind = t.kind := by
  obtain ⟨kind, content, children, level, href, src, title, alt, align, headingLevel, tight, block,
    params, id, subId⟩ := t
  rw [step]
  split_ifs
  · rfl
  · have h := kind_settle takes ⟨kind, content, children, level, href, src, title, alt, align,
      headingLevel, tight, block, params, id, subId⟩ after
    unfold stepLeaf
    split <;> exact h

end Kinds

section Links

variable {k : Kind} {t : Token} {ts : List Token} {depth : Nat}

theorem linksAfter_of_ne (hopening : k ≠ .opening .link) (hclosing : k ≠ .closing .link) (n : Nat) :
    linksAfter n k = n := by
  unfold linksAfter
  split
  · contradiction
  · contradiction
  · rfl

/-- The end of a link is looked for behind the first token unless it is there. -/
theorem afterLink?_cons : afterLink? depth (t :: ts) =
    if t.kind = .closing .link ∧ depth = 0 then some ts
    else afterLink? (linksAfter depth t.kind) ts := by
  by_cases hopening : t.kind = .opening .link
  · simp [afterLink?, hopening, linksAfter]
  by_cases hclosing : t.kind = .closing .link
  · cases depth <;> simp [afterLink?, hclosing, linksAfter]
  · simp [afterLink?, hopening, hclosing, linksAfter_of_ne]

end Links

section Rules

variable {setting : Setting} {state : State} {s : Sight}

theorem rule_opening {c : Construct} (hk : s.token.kind = .opening c) :
    rule setting state s = openRule setting state s c := by
  rw [rule, hk]

theorem rule_closing {c : Construct} (hk : s.token.kind = .closing c) :
    rule setting state s = closeRule state s c := by
  rw [rule, hk]

theorem rule_leaf {l : Leaf} (hk : s.token.kind = .leaf l) :
    rule setting state s = leafRule setting state s l := by
  rw [rule, hk]

end Rules

section Steps

variable {setting : Setting} {state state' : State} {before after : List Token} {openLinks : Nat}
  {takes : Bool} {t t' : Token} {written : Text}

theorem walk_nil : walk setting state before openLinks takes [] = ⟨state, [], [], none⟩ := by
  rw [walk]

/-- A walk goes on behind a token at which it does not stop. -/
theorem walk_cons
    (h : step setting state before after openLinks takes t = ⟨state', t', written, none⟩) {w : Walk}
    (hw : walk setting state' (t' :: before) (linksAfter openLinks t'.kind)
      (takesFragment openLinks t'.kind) after = w) :
    walk setting state before openLinks takes (t :: after) =
      ⟨w.state, t' :: w.tokens, ⟨.ofKind t'.kind, written⟩ :: w.pieces, w.stopped⟩ := by
  rw [walk, h]
  dsimp only
  rw [hw]

theorem step_inline (ht : t.kind = .leaf .inline) {w : Walk}
    (hw : walk setting state [] 0 false t.children = w) :
    step setting state before after openLinks takes t =
      ⟨w.state, { t with children := w.tokens }, w.written, w.stopped⟩ := by
  obtain ⟨kind, content, children, level, href, src, title, alt, align, headingLevel, tight, block,
    params, id, subId⟩ := t
  obtain rfl : kind = .leaf .inline := ht
  subst hw
  rw [step, if_pos (by decide)]

/-- What becomes of a token that is not an `inline` token: a strict walk stops at an unknown kind,
and every other token is settled and written by its rule. -/
theorem step_cases (setting : Setting) (state : State) (before after : List Token)
    (openLinks : Nat) (takes : Bool) (ht : t.kind ≠ .leaf .inline) :
    (∃ name, t.kind = .unknown name ∧ setting.options.strict = true ∧
      step setting state before after openLinks takes t =
        ⟨state, settle takes t after, [], some name⟩) ∨
    ((∀ name, t.kind = .unknown name → setting.options.strict = false) ∧
      step setting state before after openLinks takes t =
        ⟨(rule setting state ⟨before, settle takes t after, after, openLinks⟩).1,
          settle takes t after,
          (rule setting state ⟨before, settle takes t after, after, openLinks⟩).2, none⟩) := by
  have hstep : step setting state before after openLinks takes t =
      stepLeaf setting state ⟨before, settle takes t after, after, openLinks⟩ := by
    obtain ⟨kind, content, children, level, href, src, title, alt, align, headingLevel, tight, block,
      params, id, subId⟩ := t
    rw [step, if_neg (by simpa using ht)]
  rw [hstep]
  unfold stepLeaf
  split
  · next name hk hs => exact .inl ⟨name, (kind_settle takes t after).symm.trans hk, hs, rfl⟩
  · next hother =>
    refine .inr ⟨fun name hk => ?_, rfl⟩
    exact Bool.eq_false_iff.2 (hother name ((kind_settle takes t after).trans hk))

/-- A token of a known kind is settled and written by its rule. -/
theorem step_of_known (ht : t.kind ≠ .leaf .inline) (hk : ∀ name, t.kind ≠ .unknown name)
    (hsettle : settle takes t after = t')
    (hrule : rule setting state ⟨before, t', after, openLinks⟩ = (state', written)) :
    step setting state before after openLinks takes t = ⟨state', t', written, none⟩ := by
  rcases step_cases setting state before after openLinks takes ht with ⟨name, hn, -⟩ | ⟨-, hstep⟩
  · exact absurd hn (hk name)
  · rw [hstep, hsettle, hrule]

/-- A walk that has stopped only takes fragments off what is left. -/
theorem walk_cons_of_stopped {name : Text}
    (h : step setting state before after openLinks takes t = ⟨state', t', written, some name⟩) :
    walk setting state before openLinks takes (t :: after) =
      ⟨state', t' :: abandon (linksAfter openLinks t'.kind) 0 false after, [], some name⟩ := by
  rw [walk, h]

/-- A walk goes through the children of an `inline` token in its place. -/
theorem walk_cons_inline (ht : t.kind = .leaf .inline) {w w' : Walk}
    (hw : walk setting state [] 0 false t.children = w) (hstop : w.stopped = none)
    (hrest : walk setting w.state ({ t with children := w.tokens } :: before) openLinks false after =
      w') :
    walk setting state before openLinks takes (t :: after) =
      ⟨w'.state, { t with children := w.tokens } :: w'.tokens, ⟨.plain, w.written⟩ :: w'.pieces,
        w'.stopped⟩ := by
  have hstep : step setting state before after openLinks takes t =
      ⟨w.state, { t with children := w.tokens }, w.written, none⟩ := hstop ▸ step_inline ht hw
  obtain ⟨kind, content, children, level, href, src, title, alt, align, headingLevel, tight, block,
    params, id, subId⟩ := t
  obtain rfl : kind = .leaf .inline := ht
  exact walk_cons hstep hrest

/-- A walk that stops among the children of an `inline` token leaves what it has made of them. -/
theorem walk_cons_inline_of_stopped (ht : t.kind = .leaf .inline) {w : Walk} {name : Text}
    (hw : walk setting state [] 0 false t.children = w) (hstop : w.stopped = some name) :
    walk setting state before openLinks takes (t :: after) =
      ⟨w.state, { t with children := w.tokens } :: abandon openLinks 0 false after, [],
        some name⟩ := by
  have hstep : step setting state before after openLinks takes t =
      ⟨w.state, { t with children := w.tokens }, w.written, some name⟩ := hstop ▸ step_inline ht hw
  obtain ⟨kind, content, children, level, href, src, title, alt, align, headingLevel, tight, block,
    params, id, subId⟩ := t
  obtain rfl : kind = .leaf .inline := ht
  exact walk_cons_of_stopped hstep

/-- A token that opens or closes a block is written by its rule. -/
theorem pieces_walk_cons {c : Construct} (hk : t.kind = .opening c ∨ t.kind = .closing c)
    (hc : c ≠ .link) (h : rule setting state ⟨before, t, after, openLinks⟩ = (state', written)) :
    (walk setting state before openLinks takes (t :: after)).pieces =
      ⟨.ofKind t.kind, written⟩ ::
        (walk setting state' (t :: before) openLinks false after).pieces := by
  have hinline : t.kind ≠ .leaf .inline := by rcases hk with hk | hk <;> simp [hk]
  have hsettle : settle takes t after = t := by
    rcases hk with hk | hk <;> simp [settle, withoutFragment, hk, hc]
  have hlinks : linksAfter openLinks t.kind = openLinks := by
    rcases hk with hk | hk <;> simp [linksAfter, hk, hc]
  have htakes : takesFragment openLinks t.kind = false := by
    rcases hk with hk | hk <;> simp [takesFragment, hk, hc]
  have hknown : ∀ name, t.kind ≠ .unknown name := by rcases hk with hk | hk <;> simp [hk]
  rw [walk_cons (step_of_known hinline hknown hsettle h) rfl, hlinks, htakes]

/-- To show something of all sequences of tokens, it is enough to go through them as a walk does. -/
theorem walk_induction {p : List Token → Prop} (nil : p [])
    (leaf : ∀ t after, t.kind ≠ .leaf .inline → p after → p (t :: after))
    (inline : ∀ t after, t.kind = .leaf .inline → p t.children → p after → p (t :: after)) :
    ∀ tokens, p tokens
  | [] => nil
  | ⟨kind, content, children, level, href, src, title, alt, align, headingLevel, tight, block,
      params, id, subId⟩ :: after => by
    have hafter := walk_induction nil leaf inline after
    by_cases hk : kind = .leaf .inline
    · exact inline _ after hk (walk_induction nil leaf inline children) hafter
    · exact leaf _ after hk hafter

end Steps

section Stops

mutual

/-- Nothing stops a walk that is not strict. -/
theorem stopped_step {setting : Setting} (hs : setting.options.strict = false) (state : State)
    (before after : List Token) (openLinks : Nat) (takes : Bool) : ∀ t : Token,
      (step setting state before after openLinks takes t).stopped = none
  | t@⟨kind, _, children, _, _, _, _, _, _, _, _, _, _, _, _⟩ => by
    rw [step]
    split_ifs
    · exact stopped_walk hs state [] 0 false children
    · unfold stepLeaf
      rw [hs]
      split
      · next h => cases h
      · rfl

theorem stopped_walk {setting : Setting} (hs : setting.options.strict = false) (state : State)
    (before : List Token) (openLinks : Nat) (takes : Bool) : ∀ tokens : List Token,
      (walk setting state before openLinks takes tokens).stopped = none
  | [] => by rw [walk]
  | t :: after => by
    rw [walk]
    simp only [stopped_step hs state before after openLinks takes t]
    exact stopped_walk hs _ _ _ _ after

end

variable {setting : Setting} {state : State} {before tokens : List Token} {openLinks : Nat}
  {takes : Bool}

/-- A walk that does not stop writes a piece for the first token and goes on behind it. -/
theorem exists_walk_cons {t : Token}
    (h : (walk setting state before openLinks takes (t :: tokens)).stopped = none) :
    ∃ piece state' before' openLinks' takes',
      (walk setting state before openLinks takes (t :: tokens)).pieces =
          piece :: (walk setting state' before' openLinks' takes' tokens).pieces ∧
        (walk setting state' before' openLinks' takes' tokens).stopped = none := by
  obtain ⟨⟨state', t', written, stopped⟩, hstep⟩ :
    ∃ r, step setting state before tokens openLinks takes t = r := ⟨_, rfl⟩
  cases stopped with
  | some name =>
    rw [walk_cons_of_stopped hstep] at h
    cases h
  | none =>
    rw [walk_cons hstep rfl] at h ⊢
    exact ⟨_, _, _, _, _, rfl, h⟩

theorem length_pieces_walk
    (h : (walk setting state before openLinks takes tokens).stopped = none) :
    (walk setting state before openLinks takes tokens).pieces.length = tokens.length := by
  induction tokens generalizing state before openLinks takes with
  | nil => rw [walk_nil, List.length_nil, List.length_nil]
  | cons t tokens ih =>
    obtain ⟨piece, _, _, _, _, hpieces, hrest⟩ := exists_walk_cons h
    rw [hpieces, List.length_cons, List.length_cons, ih hrest]

/-- Behind some tokens a walk writes what it makes of those that are left. -/
theorem exists_drop_pieces
    (h : (walk setting state before openLinks takes tokens).stopped = none) (n : Nat) :
    ∃ state' before' openLinks' takes',
      (walk setting state before openLinks takes tokens).pieces.drop n =
        (walk setting state' before' openLinks' takes' (tokens.drop n)).pieces := by
  induction n generalizing state before openLinks takes tokens with
  | zero => exact ⟨_, _, _, _, rfl⟩
  | succ n ih =>
    cases tokens with
    | nil => exact ⟨state, before, openLinks, takes, by rw [List.drop_nil, walk_nil, List.drop_nil]⟩
    | cons t tokens =>
      obtain ⟨piece, _, _, _, _, hpieces, hrest⟩ := exists_walk_cons h
      rw [hpieces, List.drop_succ_cons, List.drop_succ_cons]
      exact ih hrest

end Stops

section Paragraph

/-- A document of one paragraph is the text of the paragraph. -/
theorem render_paragraphAt {options : Options} {xs : List Markdown.Inline} {w : Walk}
    (hw : walk (.ofOptions options) {} [] 0 false (Token.ofInlines [] xs) = w)
    (hstop : w.stopped = none) :
    (render options (Token.paragraphAt 0 false xs)).result =
      .ok ⟨polish options (w.written ++ ['\n', '\n']), w.state.report⟩ := by
  let opening : Token := { kind := .opening .paragraph, level := some 0 }
  let closing : Token := { kind := .closing .paragraph, level := some 0 }
  let content : Token := Token.leafAt 1 (Token.inline (Token.ofInlines [] xs))
  have hopen : step (.ofOptions options) {} [] [content, closing] 0 false opening =
      ⟨{}, opening, [], none⟩ := by
    rw [step, if_neg (by decide), stepLeaf]
    rfl
  have hcontent : step (.ofOptions options) {} [opening] [closing] 0 false content =
      ⟨w.state, { content with children := w.tokens }, w.written, none⟩ := by
    rw [← hstop]
    exact step_inline rfl hw
  have hclose : step (.ofOptions options) w.state [{ content with children := w.tokens }, opening] []
      0 false closing = ⟨w.state, closing, ['\n', '\n'], none⟩ := by
    rw [step, if_neg (by decide), stepLeaf]
    rfl
  have hwalk : walkAll (.ofOptions options) (Token.paragraphAt 0 false xs) =
      ⟨w.state, [opening, { content with children := w.tokens }, closing],
        [⟨.plain, []⟩, ⟨.plain, w.written⟩, ⟨.plain, ['\n', '\n']⟩], none⟩ :=
    walk_cons hopen (walk_cons hcontent (walk_cons hclose walk_nil))
  unfold render conclude
  dsimp only
  rw [hwalk]
  simp [draw?, Canvas.add?, Canvas.write, Canvas.finish?, Canvas.closeItems?, Canvas.closeQuotes?]

end Paragraph

end TidyMark.Render
