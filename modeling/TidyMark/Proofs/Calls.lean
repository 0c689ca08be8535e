import Mathlib.Data.List.Infix
import TidyMark.Proofs.Visits

/-!
# The calls of the rules

A walk calls the rule of each token that it visits. `calls` lists these calls in order: each is made
in the state that the one before it has left (`runs_calls`), they are made for the tokens that are
visited (`kind_calls`), and what they write, one after the other, is what the walk writes
(`written_calls`). What a rendering remembers from token to token can be argued about along this
list, wherever the tokens stand.
-/

namespace TidyMark.Render

/-- A call of a rule: what it goes by and what it sees. -/
structure Call where
  state : State
  sight : Sight

namespace Call

def kind (c : Call) : Kind :=
  c.sight.token.kind

/-- The state that a call leaves. -/
def next (setting : Setting) (c : Call) : State :=
  (rule setting c.state c.sight).1

def written (setting : Setting) (c : Call) : Text :=
  (rule setting c.state c.sight).2

end Call

mutual

/-- The calls for one token and those in it. The rule of an `inline` token does nothing. -/
def callsFor (setting : Setting) (state : State) (before after : List Token) (openLinks : Nat)
    (takes : Bool) : Token → List Call
  | t@⟨kind, _, children, _, _, _, _, _, _, _, _, _, _, _, _⟩ =>
    if kind == .leaf .inline then
      ⟨state, before, t, after, openLinks⟩ :: calls setting state [] 0 false children
    else [⟨state, before, settle takes t after, after, openLinks⟩]

/-- The calls of a walk, up to the one at which it stops. -/
def calls (setting : Setting) (state : State) (before : List Token) (openLinks : Nat)
    (takes : Bool) : List Token → List Call
  | [] => []
  | t :: after =>
    let here := step setting state before after openLinks takes t
    callsFor setting state before after openLinks takes t ++
      if here.stopped.isSome then []
      else calls setting here.state (here.token :: before) (linksAfter openLinks here.token.kind)
        (takesFragment openLinks here.token.kind) after

end

def callsAll (setting : Setting) (tokens : List Token) : List Call :=
  calls setting {} [] 0 false tokens

/-- Calls, each of which is made in the state that the one before it has left. -/
inductive Runs (setting : Setting) : State → List Call → State → Prop
  | nil {state : State} : Runs setting state [] state
  | cons {c : Call} {cs : List Call} {state state' : State} (hstate : c.state = state)
      (h : Runs setting (c.next setting) cs state') : Runs setting state (c :: cs) state'

theorem Runs.append {setting : Setting} {state state' state'' : State} {cs ds : List Call}
    (hc : Runs setting state cs state') (hd : Runs setting state' ds state'') :
    Runs setting state (cs ++ ds) state'' := by
  induction hc with
  | nil => exact hd
  | cons hstate _ ih => exact .cons hstate (ih hd)

/-- What comes behind a call begins in the state that the call leaves. -/
theorem Runs.of_suffix {setting : Setting} {state state' : State} {c : Call} {cs ds : List Call}
    (h : Runs setting state cs state') (hs : c :: ds <:+ cs) :
    Runs setting (c.next setting) ds state' := by
  induction h with
  | nil => simp at hs
  | cons hstate h ih =>
    rcases List.suffix_cons_iff.1 hs with heq | hs
    · obtain ⟨rfl, rfl⟩ := List.cons.inj heq
      exact h
    · exact ih hs

section Steps

variable {setting : Setting} {state : State} {before after : List Token} {openLinks : Nat}
  {takes : Bool} {t : Token}

theorem calls_nil : calls setting state before openLinks takes [] = [] := by
  rw [calls]

theorem callsFor_leaf (ht : t.kind ≠ .leaf .inline) :
    callsFor setting state before after openLinks takes t =
      [⟨state, before, settle takes t after, after, openLinks⟩] := by
  obtain ⟨kind, content, children, level, href, src, title, alt, align, headingLevel, tight, block,
    params, id, subId⟩ := t
  rw [callsFor, if_neg (by simpa using ht)]

theorem callsFor_inline (ht : t.kind = .leaf .inline) :
    callsFor setting state before after openLinks takes t =
      ⟨state, before, t, after, openLinks⟩ :: calls setting state [] 0 false t.children := by
  obtain ⟨kind, content, children, level, href, src, title, alt, align, headingLevel, tight, block,
    params, id, subId⟩ := t
  obtain rfl : kind = .leaf .inline := ht
  rw [callsFor, if_pos (by decide)]

/-- The call for a token that is not an `inline` token is the last one if the walk stops there. -/
theorem calls_cons_leaf (setting : Setting) (state : State) (before after : List Token)
    (openLinks : Nat) (takes : Bool) (ht : t.kind ≠ .leaf .inline) :
    ∃ c : Call, c = ⟨state, before, settle takes t after, after, openLinks⟩ ∧
      ((∃ name, (walk setting state before openLinks takes (t :: after)).stopped = some name ∧
        calls setting state before openLinks takes (t :: after) = [c]) ∨
      step setting state before after openLinks takes t =
          ⟨c.next setting, c.sight.token, c.written setting, none⟩ ∧
        calls setting state before openLinks takes (t :: after) =
          c :: calls setting (c.next setting) (c.sight.token :: before) (linksAfter openLinks c.kind)
            (takesFragment openLinks c.kind) after) := by
  refine ⟨_, rfl, ?_⟩
  rcases step_cases setting state before after openLinks takes ht with
    ⟨name, -, -, hstep⟩ | ⟨-, hstep⟩
  · refine .inl ⟨name, by rw [walk_cons_of_stopped hstep], ?_⟩
    rw [calls, hstep, callsFor_leaf ht]
    rfl
  · refine .inr ⟨hstep, ?_⟩
    rw [calls, hstep, callsFor_leaf ht]
    rfl

/-- The children of an `inline` token are visited in its place. -/
theorem calls_cons_inline (ht : t.kind = .leaf .inline) {w : Walk}
    (hw : walk setting state [] 0 false t.children = w) :
    calls setting state before openLinks takes (t :: after) =
      ⟨state, before, t, after, openLinks⟩ :: (calls setting state [] 0 false t.children ++
        if w.stopped.isSome then []
        else calls setting w.state ({ t with children := w.tokens } :: before) openLinks false
          after) := by
  rw [calls, step_inline ht hw, callsFor_inline ht]
  dsimp only
  rw [ht]
  rfl

end Steps

section Walks

variable {setting : Setting}

/-- The calls of a walk lead from the state in which it begins to the one in which it ends. -/
theorem runs_calls (tokens : List Token) : ∀ (state : State) (before : List Token)
    (openLinks : Nat) (takes : Bool),
    ∃ state', Runs setting state (calls setting state before openLinks takes tokens) state' ∧
      ((walk setting state before openLinks takes tokens).stopped = none →
        state' = (walk setting state before openLinks takes tokens).state) := by
  induction tokens using walk_induction with
  | nil =>
    intro state before openLinks takes
    rw [calls_nil, walk_nil]
    exact ⟨state, .nil, fun _ => rfl⟩
  | leaf t after ht ih =>
    intro state before openLinks takes
    obtain ⟨c, hc, ⟨name, hstop, hcalls⟩ | ⟨hstep, hcalls⟩⟩ :=
      calls_cons_leaf setting state before after openLinks takes ht
    · rw [hcalls, hstop]
      exact ⟨_, .cons (by rw [hc]) .nil, nofun⟩
    · rw [hcalls, walk_cons hstep rfl]
      obtain ⟨state', hrun, hstate⟩ := ih _ _ _ _
      exact ⟨state', .cons (by rw [hc]) hrun, hstate⟩
  | inline t after ht hchildren ih =>
    intro state before openLinks takes
    obtain ⟨inner, hinner, hstate⟩ := hchildren state [] 0 false
    generalize hw : walk setting state [] 0 false t.children = w at hstate
    have hown : (⟨state, before, t, after, openLinks⟩ : Call).next setting = state := by
      unfold Call.next rule
      rw [ht]
      rfl
    rw [calls_cons_inline ht hw]
    cases hstop : w.stopped with
    | some name =>
      rw [walk_cons_inline_of_stopped ht hw hstop]
      refine ⟨inner, .cons rfl ?_, nofun⟩
      rw [hown]
      simpa using hinner
    | none =>
      obtain ⟨state', hrun, hend⟩ := ih w.state ({ t with children := w.tokens } :: before) openLinks
        false
      rw [walk_cons_inline ht hw hstop rfl]
      refine ⟨state', .cons rfl ?_, hend⟩
      rw [hown]
      rw [← hstate hstop] at hrun ⊢
      exact hinner.append hrun

/-- A walk that does not stop calls a rule for each token that is visited. -/
theorem kind_calls (tokens : List Token) : ∀ (state : State) (before before' : List Token)
    (openLinks : Nat) (takes : Bool),
    (walk setting state before openLinks takes tokens).stopped = none →
      (calls setting state before openLinks takes tokens).map (·.kind) =
        (visits before' tokens).map (·.token.kind) := by
  induction tokens using walk_induction with
  | nil =>
    intro state before before' openLinks takes _
    rw [calls_nil, visits_nil]
    rfl
  | leaf t after ht ih =>
    intro state before before' openLinks takes hstop
    obtain ⟨c, hc, ⟨name, hname, -⟩ | ⟨hstep, hcalls⟩⟩ :=
      calls_cons_leaf setting state before after openLinks takes ht
    · rw [hname] at hstop
      cases hstop
    · have hkind : c.kind = t.kind := by rw [hc, Call.kind, kind_settle]
      rw [walk_cons hstep rfl] at hstop
      rw [hcalls, visits_cons_leaf ht, List.map_cons, List.map_cons, ← ih _ _ (t :: before') _ _ hstop,
        ← hkind]
      rfl
  | inline t after ht hchildren ih =>
    intro state before before' openLinks takes hstop
    generalize hw : walk setting state [] 0 false t.children = w
    cases hinner : w.stopped with
    | some name =>
      rw [walk_cons_inline_of_stopped ht hw hinner] at hstop
      cases hstop
    | none =>
      rw [walk_cons_inline ht hw hinner rfl] at hstop
      rw [calls_cons_inline ht hw, hinner, visits_cons_inline ht, List.map_cons, List.map_cons,
        List.map_append, List.map_append, hchildren _ _ [] _ _ (hw ▸ hinner),
        ← ih _ _ (t :: before') _ _ hstop]
      rfl

/-- The rules write everything that a walk writes which does not stop. -/
theorem written_calls (tokens : List Token) : ∀ (state : State) (before : List Token)
    (openLinks : Nat) (takes : Bool),
    (walk setting state before openLinks takes tokens).stopped = none →
      (calls setting state before openLinks takes tokens).flatMap (·.written setting) =
        (walk setting state before openLinks takes tokens).written := by
  induction tokens using walk_induction with
  | nil =>
    intro state before openLinks takes _
    rw [calls_nil, walk_nil]
    rfl
  | leaf t after ht ih =>
    intro state before openLinks takes hstop
    obtain ⟨c, hc, ⟨name, hname, -⟩ | ⟨hstep, hcalls⟩⟩ :=
      calls_cons_leaf setting state before after openLinks takes ht
    · rw [hname] at hstop
      cases hstop
    · rw [walk_cons hstep rfl] at hstop ⊢
      have hrest := ih _ _ _ _ hstop
      rw [hcalls, List.flatMap_cons, Call.kind, hrest]
      rfl
  | inline t after ht hchildren ih =>
    intro state before openLinks takes hstop
    generalize hw : walk setting state [] 0 false t.children = w
    cases hinner : w.stopped with
    | some name =>
      rw [walk_cons_inline_of_stopped ht hw hinner] at hstop
      cases hstop
    | none =>
      have hown : (⟨state, before, t, after, openLinks⟩ : Call).written setting = [] := by
        unfold Call.written rule
        rw [ht]
        rfl
      rw [walk_cons_inline ht hw hinner rfl] at hstop ⊢
      rw [calls_cons_inline ht hw, hinner, List.flatMap_cons, List.flatMap_append, hown,
        hchildren _ _ _ _ (hw ▸ hinner), hw, Option.isSome_none, if_neg Bool.false_ne_true,
        ih _ _ _ _ hstop]
      rfl

theorem exists_runs_callsAll (setting : Setting) (tokens : List Token) :
    ∃ state', Runs setting {} (callsAll setting tokens) state' :=
  (runs_calls tokens {} [] 0 false).imp fun _ h => h.1

end Walks

end TidyMark.Render
