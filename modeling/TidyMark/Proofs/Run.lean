import TidyMark.Proofs.Findings

/-!
# Walks as runs of rules

Over tokens without children a walk is nothing but rules in a row, each from the state that the one
before it leaves (`run_walk`). A run can be cut at every place (`Run.append`), and what every rule
keeps up a run keeps up.
-/

namespace TidyMark.Render

/-- A row of tokens with what their rules write between `before` and `behind`, from one state to
another. A rule sees the tokens behind its own as they are before they are settled. These have the
same kinds. -/
inductive Run (setting : Setting) (behind : List Token) :
    List Token → State → List (Token × Piece) → State → Prop
  | nil (before : List Token) (state : State) : Run setting behind before state [] state
  | cons (s : Sight) {state state' : State} {rest : List (Token × Piece)}
    (hafter : following? s.after = following? (rest.map Prod.fst ++ behind))
    (h : Run setting behind (s.token :: s.before) (rule setting state s).1 rest state') :
    Run setting behind s.before state
      ((s.token, ⟨.ofKind s.token.kind, (rule setting state s).2⟩) :: rest) state'

section Runs

variable {setting : Setting} {behind before : List Token} {state state' : State}
  {xs ys : List (Token × Piece)} {t : Token} {p : Piece}

theorem Run.head (h : Run setting behind before state ((t, p) :: xs) state') :
    ∃ s : Sight, s.before = before ∧ s.token = t ∧
      following? s.after = following? (xs.map Prod.fst ++ behind) ∧
      p.text = (rule setting state s).2 ∧
      Run setting behind (t :: before) (rule setting state s).1 xs state' := by
  cases h with
  | cons s hafter h => exact ⟨s, rfl, rfl, hafter, rfl, h⟩

theorem Run.append (h : Run setting behind before state (xs ++ ys) state') :
    ∃ mid, Run setting (ys.map Prod.fst ++ behind) before state xs mid ∧
      Run setting behind ((xs.map Prod.fst).reverse ++ before) mid ys state' := by
  induction xs generalizing before state with
  | nil => exact ⟨state, .nil before state, h⟩
  | cons x xs ih =>
    rw [List.cons_append] at h
    cases h with
    | cons s hafter h =>
      obtain ⟨mid, hxs, hys⟩ := ih h
      rw [List.map_append, List.append_assoc] at hafter
      refine ⟨mid, .cons s hafter hxs, ?_⟩
      rwa [List.map_cons, List.reverse_cons, List.append_assoc, List.singleton_append]

end Runs

section Walks

variable {setting : Setting} {ts : List Token}

/-- A walk that has nothing to go into is a run of rules over tokens of the same kinds. -/
theorem run_walk (hinline : ∀ t ∈ ts, t.kind ≠ .leaf .inline)
    (hknown : ∀ t ∈ ts, ∀ name, t.kind = .unknown name → setting.options.strict = false) :
    ∀ (state : State) (before : List Token) (openLinks : Nat) (takes : Bool) {w : Walk},
      walk setting state before openLinks takes ts = w →
      w.stopped = none ∧ w.pieces.length = w.tokens.length ∧
        (w.tokens.zip w.pieces).map (·.1.kind) = ts.map (·.kind) ∧
        Run setting [] before state (w.tokens.zip w.pieces) w.state := by
  induction ts with
  | nil =>
    rintro state before openLinks takes w rfl
    rw [walk_nil]
    exact ⟨rfl, rfl, rfl, .nil before state⟩
  | cons t after ih =>
    rintro state before openLinks takes w rfl
    obtain ⟨ht, hinline⟩ := List.forall_mem_cons.1 hinline
    obtain ⟨hgoes, hknown⟩ := List.forall_mem_cons.1 hknown
    rcases step_cases setting state before after openLinks takes ht with
      ⟨name, hname, hstrict, -⟩ | ⟨-, hstep⟩
    · rw [hgoes name hname] at hstrict
      cases hstrict
    · rw [walk_cons hstep rfl]
      generalize hw : walk setting _ _ _ _ after = w
      obtain ⟨hstop, hlength, hkinds, hrun⟩ := ih hinline hknown _ _ _ _ hw
      have hnext : following? after = following? w.tokens := by
        rw [← hw, following?_walk]
      rw [List.zip_cons_cons]
      refine ⟨hstop, by simp [hlength], ?_, ?_⟩
      · rw [List.map_cons, List.map_cons, hkinds, kind_settle]
      refine .cons ⟨before, settle takes t after, after, openLinks⟩ ?_ hrun
      rw [List.map_fst_zip hlength.ge, List.append_nil, hnext]

end Walks

end TidyMark.Render
