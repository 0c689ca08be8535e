import Mathlib.Data.List.Induction
import Mathlib.Tactic.SplitIfs
import TidyMark.Render.Layout

/-!
# Nesting of quotes and items

A rendering opens and closes frames of two kinds, each kind by itself (`Turn`). The frames are
nested when none closes before one that it holds (`isNested`). In general a frame may outlive one
that holds it; `turnOver?` keeps the frames that are open with a mark on those that have, and goes
on until such a frame closes. Nothing marked ever closes exactly when the frames are nested
(`isNested_iff`). A frame without a mark is still above all that was open when it opened
(`exists_opened`).
-/

namespace TidyMark.Render

inductive FrameKind where
  | quote
  | item
deriving DecidableEq

/-- What a piece does to the frames. -/
inductive Turn where
  | opens (k : FrameKind)
  | closes (k : FrameKind)
deriving DecidableEq

def Role.turn? : Role → Option Turn
  | .plain => none
  | .opensQuote => some (.opens .quote)
  | .closesQuote => some (.closes .quote)
  | .opensItem => some (.opens .item)
  | .closesItem => some (.closes .item)

def Turn.role : Turn → Role
  | .opens .quote => .opensQuote
  | .opens .item => .opensItem
  | .closes .quote => .closesQuote
  | .closes .item => .closesItem

@[simp] theorem turn?_role (t : Turn) : t.role.turn? = some t := by
  rcases t with ⟨_ | _⟩ | ⟨_ | _⟩ <;> rfl

section Nested

/-- The frames that are open after a turn, the innermost first; `none` where a frame closes before
one that it holds. To close what is not open does nothing. -/
def turn? (frames : List FrameKind) : Turn → Option (List FrameKind)
  | .opens k => some (k :: frames)
  | .closes k =>
    match frames with
    | [] => some []
    | k' :: rest => if k' = k then some rest else if k ∈ rest then none else some frames

/-- The turns that close all frames at the end, first the items and then the quotes. -/
def unwinding (frames : List FrameKind) : List Turn :=
  List.replicate (frames.count .item) (.closes .item) ++
    List.replicate (frames.count .quote) (.closes .quote)

/-- Whether no frame closes before one that it holds, be it by a turn or at the end. -/
def isNested (turns : List Turn) : Bool :=
  match turns.foldlM turn? [] with
  | some frames => ((unwinding frames).foldlM turn? frames).isSome
  | none => false

end Nested

section Outliving

/-- An open frame, and whether one that held it has been closed. -/
@[ext]
structure Held where
  kind : FrameKind
  outlives : Bool
deriving DecidableEq

def Held.outlive (f : Held) : Held :=
  { f with outlives := true }

/-- Takes out the innermost frame of a kind and tells whether it had a mark; those inside it are
marked. -/
def pop? (k : FrameKind) : List Held → Option (Bool × List Held)
  | [] => none
  | f :: frames =>
    if f.kind = k then some (f.outlives, frames)
    else (pop? k frames).map fun (b, frames) => (b, f.outlive :: frames)

/-- The frames above `base` after a turn; `none` where a marked frame would close, or one of
`base`. -/
def turnOver? (base : List FrameKind) (frames : List Held) : Turn → Option (List Held)
  | .opens k => some (⟨k, false⟩ :: frames)
  | .closes k =>
    match pop? k frames with
    | some (true, _) => none
    | some (false, frames) => some frames
    | none => if k ∈ base then none else some frames

def kinds (frames : List Held) : List FrameKind :=
  frames.map (·.kind)

def unmarked (frames : List FrameKind) : List Held :=
  frames.map fun k => ⟨k, false⟩

theorem pop?_eq_none_iff {k : FrameKind} : ∀ {frames : List Held},
    pop? k frames = none ↔ k ∉ kinds frames
  | [] => by simp [pop?, kinds]
  | f :: frames => by
    have ih : pop? k frames = none ↔ k ∉ kinds frames := pop?_eq_none_iff
    simp only [kinds, List.map_cons, List.mem_cons, not_or] at ih ⊢
    unfold pop?
    split_ifs with h
    · simp [h]
    · rw [Option.map_eq_none_iff, ih]
      exact ⟨fun hn => ⟨Ne.symm h, hn⟩, fun hn => hn.2⟩

theorem pop?_eq_some_iff {k : FrameKind} {b : Bool} {rest : List Held} :
    ∀ {frames : List Held}, pop? k frames = some (b, rest) ↔
      ∃ top below, frames = top ++ ⟨k, b⟩ :: below ∧ k ∉ kinds top ∧
        rest = top.map Held.outlive ++ below
  | [] => by simp [pop?]
  | f :: frames => by
    unfold pop?
    split_ifs with h
    · simp only [Option.some.injEq, Prod.mk.injEq]
      constructor
      · rintro ⟨rfl, rfl⟩
        exact ⟨[], frames, by simp [← h], by simp [kinds], rfl⟩
      · rintro ⟨_ | ⟨g, top⟩, below, he, hk, rfl⟩
        · simp only [List.nil_append, List.cons.injEq] at he
          simp [he]
        · simp only [List.cons_append, List.cons.injEq] at he
          simp [kinds, ← he.1, h] at hk
    · rw [Option.map_eq_some_iff]
      constructor
      · rintro ⟨⟨b', rest'⟩, hp, he⟩
        simp only [Prod.mk.injEq] at he
        obtain ⟨top, below, rfl, hk, rfl⟩ := pop?_eq_some_iff.1 hp
        refine ⟨f :: top, below, by simp [he.1], ?_, by simp [← he.2]⟩
        simpa [kinds] using ⟨Ne.symm h, by simpa [kinds] using hk⟩
      · rintro ⟨_ | ⟨g, top⟩, below, he, hk, rfl⟩
        · simp only [List.nil_append, List.cons.injEq] at he
          simp [he.1] at h
        · simp only [List.cons_append, List.cons.injEq] at he
          obtain ⟨rfl, rfl⟩ := he
          simp only [kinds, List.map_cons, List.mem_cons, not_or] at hk
          exact ⟨(b, top.map Held.outlive ++ below),
            pop?_eq_some_iff.2 ⟨top, below, rfl, hk.2, rfl⟩, rfl⟩

/-- What a turn may do: open a frame, close one without a mark, or close nothing. -/
theorem turnOver?_eq_some_iff {base : List FrameKind} {frames frames' : List Held} {t : Turn} :
    turnOver? base frames t = some frames' ↔
      (∃ k, t = .opens k ∧ frames' = ⟨k, false⟩ :: frames) ∨
      (∃ k top below, t = .closes k ∧ frames = top ++ ⟨k, false⟩ :: below ∧ k ∉ kinds top ∧
        frames' = top.map Held.outlive ++ below) ∨
      ∃ k, t = .closes k ∧ k ∉ kinds frames ∧ k ∉ base ∧ frames' = frames := by
  rcases t with k | k
  · simp [turnOver?, eq_comm]
  · simp only [turnOver?]
    rcases hp : pop? k frames with _ | ⟨_ | _, rest⟩
    · rw [pop?_eq_none_iff] at hp
      have hno : ∀ top below, frames ≠ top ++ ⟨k, false⟩ :: below := by
        rintro top below rfl
        simp [kinds] at hp
      by_cases hb : k ∈ base <;> simp [hb, hp, hno, eq_comm]
    · obtain ⟨top, below, hf, hk, rfl⟩ := pop?_eq_some_iff.1 hp
      have hin : k ∈ kinds frames := by simp [hf, kinds]
      constructor
      · rintro h
        cases h
        exact .inr (.inl ⟨k, top, below, rfl, hf, hk, rfl⟩)
      · rintro (⟨_, h, -⟩ | ⟨k', top', below', h, hf', hk', rfl⟩ | ⟨_, h, hn, -⟩)
        · cases h
        · cases h
          have := pop?_eq_some_iff.2 ⟨top', below', hf', hk', rfl⟩
          rw [hp] at this
          simpa using this
        · cases h
          exact absurd hin hn
    · obtain ⟨top, below, hf, hk, rfl⟩ := pop?_eq_some_iff.1 hp
      have hin : k ∈ kinds frames := by simp [hf, kinds]
      refine iff_of_false (by simp) ?_
      rintro (⟨_, h, -⟩ | ⟨k', top', below', h, hf', hk', rfl⟩ | ⟨_, h, hn, -⟩)
      · cases h
      · cases h
        have := pop?_eq_some_iff.2 ⟨top', below', hf', hk', rfl⟩
        rw [hp] at this
        simp at this
      · cases h
        exact hn hin

theorem turnOver?_eq_none {frames : List Held} {t : Turn} (h : turnOver? [] frames t = none) :
    ∃ k top below, t = .closes k ∧ frames = top ++ ⟨k, true⟩ :: below ∧ k ∉ kinds top := by
  rcases t with k | k
  · simp [turnOver?] at h
  · simp only [turnOver?] at h
    rcases hp : pop? k frames with _ | ⟨_ | _, rest⟩ <;> rw [hp] at h
    · simp at h
    · simp at h
    · obtain ⟨top, below, hf, hk, -⟩ := pop?_eq_some_iff.1 hp
      exact ⟨k, top, below, rfl, hf, hk⟩

/-- A frame without a mark is none of those that a close has marked. -/
theorem append_outlive_eq {top below top' below' : List Held} {k : FrameKind}
    (h : top.map Held.outlive ++ below = top' ++ ⟨k, false⟩ :: below') :
    ∃ mid, top' = top.map Held.outlive ++ mid ∧ below = mid ++ ⟨k, false⟩ :: below' := by
  rcases List.append_eq_append_iff.1 h with ⟨mid, h1, h2⟩ | ⟨_ | ⟨f, mid⟩, h1, h2⟩
  · exact ⟨mid, h1, h2⟩
  · exact ⟨[], by simpa using h1.symm, by simpa using h2.symm⟩
  · have hf : f ∈ top.map Held.outlive := by simp [h1]
    obtain ⟨g, -, rfl⟩ := List.mem_map.1 hf
    simp [Held.outlive] at h2

/-- Turns after which a frame is open without a mark have opened it, and since then they have left
alone what was open before. -/
theorem exists_opened {turns : List Turn} {top below : List Held} {k : FrameKind}
    (h : turns.foldlM (turnOver? []) [] = some (top ++ ⟨k, false⟩ :: below)) :
    ∃ before after, turns = before ++ .opens k :: after ∧
      before.foldlM (turnOver? []) [] = some below ∧
      after.foldlM (turnOver? (k :: kinds below)) [] = some top := by
  induction turns using List.reverseRecOn generalizing top with
  | nil => simp at h
  | append_singleton turns t ih =>
    rw [List.foldlM_append] at h
    obtain ⟨frames, hframes, ht⟩ := Option.bind_eq_some_iff.1 h
    simp only [List.foldlM_cons, List.foldlM_nil, bind_pure] at ht
    obtain ⟨k', rfl, he⟩ | ⟨k', top', below', rfl, rfl, hk, he⟩ | ⟨k', rfl, hk, -, rfl⟩ :=
      turnOver?_eq_some_iff.1 ht
    · rcases top with _ | ⟨f, top⟩
      · simp only [List.nil_append, List.cons.injEq, Held.mk.injEq, and_true] at he
        obtain ⟨rfl, rfl⟩ := he
        exact ⟨turns, [], rfl, hframes, rfl⟩
      · simp only [List.cons_append, List.cons.injEq] at he
        obtain ⟨rfl, rfl⟩ := he
        obtain ⟨before, after, rfl, hb, ha⟩ := ih hframes
        refine ⟨before, after ++ [.opens k'], by simp, hb, ?_⟩
        simp [List.foldlM_append, ha, turnOver?]
    · obtain ⟨mid, rfl, rfl⟩ := append_outlive_eq he.symm
      rw [← List.cons_append, ← List.append_assoc] at hframes
      obtain ⟨before, after, rfl, hb, ha⟩ := ih hframes
      refine ⟨before, after ++ [.closes k'], by simp, hb, ?_⟩
      have ht' : turnOver? (k :: kinds below) (top' ++ ⟨k', false⟩ :: mid) (.closes k') =
          some (top'.map Held.outlive ++ mid) :=
        turnOver?_eq_some_iff.2 (.inr (.inl ⟨k', top', mid, rfl, rfl, hk, rfl⟩))
      simp [List.foldlM_append, ha, ht']
    · obtain ⟨before, after, rfl, hb, ha⟩ := ih hframes
      refine ⟨before, after ++ [.closes k'], by simp, hb, ?_⟩
      simp only [kinds, List.map_append, List.map_cons, List.mem_append, List.mem_cons,
        not_or] at hk
      have ht' : turnOver? (k :: kinds below) top (.closes k') = some top :=
        turnOver?_eq_some_iff.2 (.inr (.inr ⟨k', rfl, hk.1, by simpa [kinds] using hk.2, rfl⟩))
      simp [List.foldlM_append, ha, ht']

end Outliving

section Agreement

theorem kinds_unmarked (frames : List FrameKind) : kinds (unmarked frames) = frames := by
  rw [kinds, unmarked, List.map_map]
  exact List.map_id frames

theorem marked_of_turnOver? {base : List FrameKind} {frames frames' : List Held} {t : Turn}
    (h : turnOver? base frames t = some frames') (hm : ∃ f ∈ frames, f.outlives = true) :
    ∃ f ∈ frames', f.outlives = true := by
  obtain ⟨f, hf, ho⟩ := hm
  obtain ⟨k, rfl, rfl⟩ | ⟨k, top, below, rfl, rfl, hk, rfl⟩ | ⟨k, rfl, hk, hb, rfl⟩ :=
    turnOver?_eq_some_iff.1 h
  · exact ⟨f, .tail _ hf, ho⟩
  · rcases List.mem_append.1 hf with hf | hf
    · exact ⟨f.outlive, List.mem_append_left _ (List.mem_map_of_mem hf), rfl⟩
    · rcases List.mem_cons.1 hf with rfl | hf
      · cases ho
      · exact ⟨f, List.mem_append_right _ hf, ho⟩
  · exact ⟨f, hf, ho⟩

theorem marked_of_foldlM {base : List FrameKind} : ∀ {turns : List Turn}
    {frames frames' : List Held}, turns.foldlM (turnOver? base) frames = some frames' →
      (∃ f ∈ frames, f.outlives = true) → ∃ f ∈ frames', f.outlives = true
  | [], frames, frames', h, hm => by
    cases h
    exact hm
  | t :: turns, frames, frames', h, hm => by
    rw [List.foldlM_cons] at h
    obtain ⟨frames₁, h₁, h⟩ := Option.bind_eq_some_iff.1 h
    exact marked_of_foldlM h (marked_of_turnOver? h₁ hm)

theorem turnOver?_unmarked {frames frames' : List FrameKind} {t : Turn}
    (h : turn? frames t = some frames') :
    turnOver? [] (unmarked frames) t = some (unmarked frames') := by
  rw [turnOver?_eq_some_iff]
  rcases t with k | k
  · simp only [turn?, Option.some.injEq] at h
    exact .inl ⟨k, rfl, by simp [unmarked, ← h]⟩
  · rcases frames with _ | ⟨k', frames⟩
    · simp only [turn?, Option.some.injEq] at h
      exact .inr (.inr ⟨k, rfl, by simp [unmarked, kinds], by simp, by simp [unmarked, ← h]⟩)
    · simp only [turn?] at h
      split_ifs at h with hk hm
      · cases h
        exact .inr (.inl ⟨k, [], unmarked frames', rfl, by simp [unmarked, hk], by simp [kinds], rfl⟩)
      · cases h
        refine .inr (.inr ⟨k, rfl, ?_, by simp, rfl⟩)
        rw [kinds_unmarked, List.mem_cons, not_or]
        exact ⟨Ne.symm hk, hm⟩

theorem turn?_kinds {frames frames' : List Held} {t : Turn}
    (h : turnOver? [] frames t = some frames') (hm : ¬ ∃ f ∈ frames', f.outlives = true) :
    turn? (kinds frames) t = some (kinds frames') := by
  obtain ⟨k, rfl, rfl⟩ | ⟨k, _ | ⟨f, top⟩, below, rfl, rfl, hk, rfl⟩ | ⟨k, rfl, hk, -, rfl⟩ :=
    turnOver?_eq_some_iff.1 h
  · rfl
  · simp [turn?, kinds]
  · exact absurd ⟨f.outlive, by simp, rfl⟩ hm
  · rcases frames' with _ | ⟨f, frames⟩
    · rfl
    · simp only [kinds, List.map_cons, List.mem_cons, not_or] at hk
      simp [turn?, kinds, Ne.symm hk.1, hk.2]

theorem foldlM_unmarked : ∀ {turns : List Turn} {frames frames' : List FrameKind},
    turns.foldlM turn? frames = some frames' →
      turns.foldlM (turnOver? []) (unmarked frames) = some (unmarked frames')
  | [], _, _, h => by
    cases h
    rfl
  | t :: turns, frames, frames', h => by
    rw [List.foldlM_cons] at h ⊢
    obtain ⟨frames₁, h₁, h⟩ := Option.bind_eq_some_iff.1 h
    rw [turnOver?_unmarked h₁]
    exact foldlM_unmarked h

theorem foldlM_kinds : ∀ {turns : List Turn} {frames frames' : List Held},
    turns.foldlM (turnOver? []) frames = some frames' → (¬ ∃ f ∈ frames', f.outlives = true) →
      turns.foldlM turn? (kinds frames) = some (kinds frames')
  | [], _, _, h, _ => by
    cases h
    rfl
  | t :: turns, frames, frames', h, hm => by
    rw [List.foldlM_cons] at h ⊢
    obtain ⟨frames₁, h₁, h⟩ := Option.bind_eq_some_iff.1 h
    rw [turn?_kinds h₁ fun hm₁ => hm (marked_of_foldlM h hm₁)]
    exact foldlM_kinds h hm

theorem count_of_closes {base : List FrameKind} {frames frames' : List Held} {k : FrameKind}
    (h : turnOver? base frames (.closes k) = some frames') (j : FrameKind) :
    (kinds frames').count j = (kinds frames).count j - if k = j then 1 else 0 := by
  obtain ⟨_, ht, -⟩ | ⟨_, top, below, ht, rfl, hk, rfl⟩ | ⟨_, ht, hk, -, rfl⟩ :=
    turnOver?_eq_some_iff.1 h <;> cases ht
  · simp only [kinds, List.map_append, List.map_cons, List.count_append, List.count_cons,
      List.map_map, Function.comp_def, Held.outlive, beq_iff_eq]
    split_ifs <;> omega
  · split_ifs with hj
    · subst hj
      rw [List.count_eq_zero_of_not_mem hk]
    · rfl

theorem count_of_replicate {base : List FrameKind} (k : FrameKind) :
    ∀ {n : Nat} {frames frames' : List Held},
      (List.replicate n (Turn.closes k)).foldlM (turnOver? base) frames = some frames' →
        ∀ j, (kinds frames').count j = (kinds frames).count j - if k = j then n else 0
  | 0, _, _, h, j => by
    cases h
    split_ifs <;> rfl
  | n + 1, frames, frames', h, j => by
    rw [List.replicate_succ, List.foldlM_cons] at h
    obtain ⟨frames₁, h₁, h⟩ := Option.bind_eq_some_iff.1 h
    rw [count_of_replicate k h j, count_of_closes h₁ j]
    split_ifs <;> omega

theorem eq_nil_of_unwinding {frames frames' : List Held}
    (h : (unwinding (kinds frames)).foldlM (turnOver? []) frames = some frames') : frames' = [] := by
  rw [unwinding, List.foldlM_append] at h
  obtain ⟨frames₁, h₁, h⟩ := Option.bind_eq_some_iff.1 h
  have hzero : ∀ j, (kinds frames').count j = 0 := by
    intro j
    rw [count_of_replicate _ h j, count_of_replicate _ h₁ j]
    cases j <;> simp
  rcases frames' with _ | ⟨f, frames'⟩
  · rfl
  · have := hzero f.kind
    simp [kinds] at this

/-- The frames are nested exactly when none closes that has outlived one that held it. -/
theorem isNested_iff {turns : List Turn} : isNested turns = true ↔
    ∃ frames, turns.foldlM (turnOver? []) [] = some frames ∧
      ((unwinding (kinds frames)).foldlM (turnOver? []) frames).isSome = true := by
  constructor
  · intro h
    unfold isNested at h
    split at h
    · next frames hf =>
      obtain ⟨frames', hu⟩ := Option.isSome_iff_exists.1 h
      refine ⟨unmarked frames, foldlM_unmarked hf, ?_⟩
      rw [kinds_unmarked, foldlM_unmarked hu]
      rfl
    · cases h
  · rintro ⟨frames, hf, hu⟩
    obtain ⟨frames', hu⟩ := Option.isSome_iff_exists.1 hu
    have hnil := eq_nil_of_unwinding hu
    subst hnil
    have hm : ¬ ∃ f ∈ frames, f.outlives = true := fun hm => by
      simpa using marked_of_foldlM hu hm
    have hf' : turns.foldlM turn? [] = some (kinds frames) := foldlM_kinds hf hm
    have hu' := foldlM_kinds hu (by simp)
    simp [isNested, hf', hu']

end Agreement

end TidyMark.Render
