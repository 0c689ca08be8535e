import TidyMark.Proofs.Crossing
import TidyMark.Proofs.Walk

/-!
# When a rendering cuts no character

Whether a rendering can fail because a quote or an item would begin inside a character goes by the
order in which quotes and items open and close (`frameTurns`): with frames that are nested it never
does, and any other order fails for some texts (`render_ne_splitCharacter_iff`).
-/

namespace TidyMark.Render

open Text Canvas

def frameTurns (tokens : List Token) : List Turn :=
  tokens.filterMap fun t => (Role.ofKind t.kind).turn?

section Walking

/-- The pieces of a walk have the turns of the tokens, as far as it goes. -/
theorem turns_walk (setting : Setting) : ∀ (tokens : List Token) (state : State)
    (before : List Token) (openLinks : Nat) (takes : Bool), ∃ rest,
      frameTurns tokens =
        turns (walk setting state before openLinks takes tokens).pieces ++ rest ∧
      ((walk setting state before openLinks takes tokens).stopped = none → rest = [])
  | [], state, before, openLinks, takes => ⟨[], by simp [walk, frameTurns, turns], fun _ => rfl⟩
  | t :: after, state, before, openLinks, takes => by
    have hkind := kind_step setting state before after openLinks takes t
    rw [walk]
    split
    · next name hstop => exact ⟨frameTurns (t :: after), by simp [turns], by simp⟩
    · next hstop =>
      obtain ⟨rest, hrest, hnone⟩ := turns_walk setting after
        (step setting state before after openLinks takes t).state
        ((step setting state before after openLinks takes t).token :: before)
        (linksAfter openLinks (step setting state before after openLinks takes t).token.kind)
        (takesFragment openLinks (step setting state before after openLinks takes t).token.kind)
      refine ⟨rest, ?_, hnone⟩
      rw [frameTurns, List.filterMap_cons, turns, List.filterMap_cons, ← frameTurns, hrest, hkind]
      cases (Role.ofKind t.kind).turn? <;> rfl

end Walking

section Nested

theorem render_ne_splitCharacter {tokens : List Token}
    (h : isNested (frameTurns tokens) = true) (options : Options) :
    (render options tokens).result ≠ .error .splitCharacter := by
  obtain ⟨rest, hrest, hnone⟩ := turns_walk (.ofOptions options) tokens {} [] 0 false
  unfold render walkAll conclude
  dsimp only
  obtain ⟨frames, hframes, -⟩ := isNested_iff.1 h
  rw [hrest, List.foldlM_append] at hframes
  obtain ⟨frames₁, hframes₁, -⟩ := Option.bind_eq_some_iff.1 hframes
  obtain ⟨c, hc, -⟩ := exists_run hframes₁
  rw [draw?, ← run, hc]
  dsimp only
  split
  · simp
  · next hstop =>
    rw [hrest, hnone hstop, List.append_nil] at h
    obtain ⟨c', out, hc', hout⟩ := exists_finish h
    rw [draw?, ← run, hc] at hc'
    cases hc'
    simp [hout]

end Nested

section Crossing

def Turn.token : Turn → Token
  | .opens .quote => { kind := .opening .blockquote }
  | .opens .item => { kind := .opening .listItem }
  | .closes .quote => { kind := .closing .blockquote }
  | .closes .item => { kind := .closing .listItem }

/-- What the token for a turn writes before an HTML tag. -/
def Turn.head : Turn → Text
  | .opens .quote => "\n"
  | .opens .item => "* "
  | .closes .quote => "\n\n"
  | .closes .item => []

def tag (t : Text) : Token :=
  { kind := .leaf .htmlTag, content := t }

def Turn.slot (t : Turn) : Slot :=
  ⟨t, t.head, true⟩

def tagged (filled : List (Slot × Text)) : List Token :=
  filled.flatMap fun f => [f.1.turn.token, tag f.2]

theorem breakBefore_tag (t : Text) (rest : List Token) : breakBefore (tag t :: rest) = ['\n'] := by
  have hskip : skipEmptyParagraphs (tag t :: rest) = tag t :: rest := by
    rcases rest with _ | ⟨a, _ | ⟨b, rest⟩⟩
    · rfl
    · rfl
    · rw [skipEmptyParagraphs, if_neg]
      simp [isEmptyParagraph, tag]
  rw [breakBefore, hskip]
  rfl

theorem isByline_of_none {options : Options} (hn : options.name = none)
    (hu : options.username = none) (s : Sight) : isByline options s = false := by
  simp [isByline, hn, hu]

variable {setting : Setting} (hs : setting.options = {}) {state : State} (hl : state.lists = [])

include hs

theorem step_tag (before after : List Token) (t : Text) :
    step setting state before after 0 false (tag t) = ⟨state, tag t, t, none⟩ := by
  rw [tag, step, if_neg (by decide), stepLeaf, hs]
  rfl

include hl

theorem step_token {before : List Token} (hb : before.head?.any (·.tight) = false) (t : Turn)
    (tail : Text) (after : List Token) :
    step setting state before (tag tail :: after) 0 false t.token =
      ⟨state, t.token, t.head, none⟩ := by
  rcases t with ⟨_ | _⟩ | ⟨_ | _⟩ <;>
    rw [Turn.token, step, if_neg (by decide), stepLeaf, hs]
  · rfl
  · simp only [settle, rule, openRule, listItemOpen, hl, listItemOpen.bullet, hs]
    rw [isByline_of_none rfl rfl]
    rfl
  · simp [settle, rule, closeRule, breakBefore_tag, Turn.head]
  · simp [settle, rule, closeRule, listItemClose, hb, Turn.head]

theorem walk_tagged : ∀ {filled : List (Slot × Text)} {before : List Token},
    (∀ f ∈ filled, f.1 = f.1.turn.slot) → before.head?.any (·.tight) = false →
      (walk setting state before 0 false (tagged filled)).pieces = fill filled ∧
      (walk setting state before 0 false (tagged filled)).stopped = none
  | [], before, _, _ => ⟨rfl, rfl⟩
  | (s, tail) :: filled, before, hf, hb => by
    have hslot := hf _ List.mem_cons_self
    have htagged : tagged ((s, tail) :: filled) = s.turn.token :: tag tail :: tagged filled := rfl
    have hlinks : linksAfter 0 s.turn.token.kind = 0 ∧
        takesFragment 0 s.turn.token.kind = false := by
      rcases s.turn with ⟨_ | _⟩ | ⟨_ | _⟩ <;> exact ⟨rfl, rfl⟩
    obtain ⟨hp, hstop⟩ := walk_tagged (fun f hm => hf f (.tail _ hm))
      (show (tag tail :: s.turn.token :: before).head?.any (·.tight) = false from rfl)
    have hrole : Role.ofKind s.turn.token.kind = s.turn.role := by
      rcases s.turn with ⟨_ | _⟩ | ⟨_ | _⟩ <;> rfl
    rw [htagged, walk, step_token hs hl hb]
    simp only [hlinks]
    rw [walk, step_tag hs]
    have hfill : fill ((s, tail) :: filled) =
        ⟨s.turn.role, s.turn.head⟩ :: ⟨.plain, tail⟩ :: fill filled := by
      simp only at hslot
      rw [fill, List.flatMap_cons, Slot.pieces, hslot]
      rfl
    rw [hfill, hrole]
    exact ⟨by rw [← hp]; rfl, hstop⟩

omit hs hl

theorem frameTurns_tagged (filled : List (Slot × Text)) :
    frameTurns (tagged filled) = filled.map (·.1.turn) := by
  induction filled with
  | nil => rfl
  | cons f filled ih =>
    have htag : (Role.ofKind (tag f.2).kind).turn? = none := rfl
    have hturn : (Role.ofKind f.1.turn.token.kind).turn? = some f.1.turn := by
      rcases f.1.turn with ⟨_ | _⟩ | ⟨_ | _⟩ <;> rfl
    rw [frameTurns] at ih
    simp [frameTurns, tagged, htag, hturn] at ih ⊢
    exact ih

theorem render_tagged {filled : List (Slot × Text)} (hf : ∀ f ∈ filled, f.1 = f.1.turn.slot)
    (h : ∀ c, run {} (fill filled) = some c → c.finish? = none) :
    (render {} (tagged filled)).result = .error .splitCharacter := by
  obtain ⟨hp, hstop⟩ := walk_tagged (show (Setting.ofOptions {}).options = {} from rfl)
    (show ({} : State).lists = [] from rfl) hf
    (show ([] : List Token).head?.any (·.tight) = false from rfl)
  unfold render walkAll conclude
  dsimp only
  rw [hp, hstop, draw?, ← run]
  rcases hc : run {} (fill filled) with _ | c
  · rfl
  · simp [h c hc]

def Turn.last (t : Turn) : Slot :=
  ⟨t, [], false⟩

theorem run_fill_last : ∀ {ts : List Turn} {filled : List (Slot × Text)} (c : Canvas),
    filled.map (·.1) = ts.map Turn.last →
      c.run (fill filled) = c.run (ts.map fun t => ⟨t.role, []⟩)
  | [], filled, c, h => by
    obtain rfl : filled = [] := by simpa using h
    rfl
  | t :: ts, [], c, h => by simp at h
  | t :: ts, (s, tail) :: filled, c, h => by
    simp only [List.map_cons, List.cons.injEq] at h
    obtain ⟨rfl, h⟩ := h
    have hfill : fill ((t.last, tail) :: filled) = t.last.pieces tail ++ fill filled := rfl
    rw [hfill, run_append, run_slot, List.map_cons, run_cons]
    rcases hc : c.add? ⟨t.role, []⟩ with _ | c'
    · simp [Turn.last, hc]
    · have hw : c'.write [] = c' := by simp [write]
      simp only [Turn.last, hc, Option.map_some, Option.bind_some, Bool.false_eq_true, if_false, hw]
      exact run_fill_last c' h

theorem map_turn_slot (ts : List Turn) : (ts.map Turn.slot).map (·.turn) = ts := by
  rw [List.map_map]
  exact List.map_id ts

theorem suits_slot (ts : List Turn) : Suits (ts.map Turn.slot) where
  opens s hm k hk := by
    obtain ⟨t, -, rfl⟩ := List.mem_map.1 hm
    refine ⟨rfl, ?_⟩
    obtain rfl : t = .opens k := hk
    cases k <;> simp [Turn.slot, Turn.head]
  closes above s below frames he _ _ _ := by
    have hm : s ∈ ts.map Turn.slot := by simp [he]
    obtain ⟨t, -, rfl⟩ := List.mem_map.1 hm
    rfl

theorem suits_unwinding {ts : List Turn} {frames : List Held}
    (h : framesAfter (ts.map Turn.slot) = some frames) :
    Suits (ts.map Turn.slot ++ (unwinding (kinds frames)).map Turn.last) where
  opens s hm k hk := by
    rcases List.mem_append.1 hm with hm | hm
    · exact (suits_slot ts).opens s hm k hk
    · obtain ⟨t, ht, rfl⟩ := List.mem_map.1 hm
      rcases List.mem_append.1 ht with ht | ht
      · obtain rfl := List.eq_of_mem_replicate ht
        cases hk
      · obtain rfl := List.eq_of_mem_replicate ht
        cases hk
  closes above s below frames' he hturn hf hitem := by
    rw [unwinding, List.map_append, List.map_replicate, List.map_replicate, ← List.append_assoc]
      at he
    have behind : ∀ extra, above = ts.map Turn.slot ++
        List.replicate ((kinds frames).count .item) (Turn.closes .item).last ++ extra →
          extra = List.replicate extra.length (Turn.closes .quote).last → s.free = true := by
      intro extra habove hextra
      rw [habove, hextra, framesAfter, List.map_append, List.map_append, List.foldlM_append,
        List.foldlM_append, List.map_replicate, List.map_replicate] at hf
      rw [framesAfter] at h
      obtain ⟨frames₁, hf₁, hf₂⟩ := Option.bind_eq_some_iff.1 hf
      rw [h] at hf₁
      have h₁ := count_of_replicate _ hf₁ .item
      have h₂ := count_of_replicate _ hf₂ .item
      have hpos := List.count_pos_iff.2 hitem
      simp at h₁ h₂
      omega
    rcases List.append_eq_append_iff.1 he with ⟨extra, h1, h2⟩ | ⟨_ | ⟨s', rest⟩, h1, h2⟩
    · exact behind extra h1 (List.replicate_eq_append_iff.1 h2).2.1
    · exact behind [] (by simpa using h1.symm) rfl
    · have hm : s ∈ ts.map Turn.slot ++
          List.replicate ((kinds frames).count .item) (Turn.closes .item).last := by
        simp only [List.cons_append, List.cons.injEq] at h2
        rw [h1, h2.1]
        simp
      rcases List.mem_append.1 hm with hm | hm
      · obtain ⟨t, -, rfl⟩ := List.mem_map.1 hm
        rfl
      · obtain rfl := List.eq_of_mem_replicate hm
        cases hturn

/-- Every other order of frames fails with some texts. -/
theorem exists_render_eq_splitCharacter {ts : List Turn} (h : isNested ts = false) :
    ∃ tokens, frameTurns tokens = ts ∧ (render {} tokens).result = .error .splitCharacter := by
  have hslots : ∀ filled : List (Slot × Text), filled.map (·.1) = ts.map Turn.slot →
      frameTurns (tagged filled) = ts ∧ ∀ f ∈ filled, f.1 = f.1.turn.slot := by
    intro filled hf
    constructor
    · rw [frameTurns_tagged, ← Function.comp_def, ← List.map_map, hf, List.map_map]
      exact List.map_id ts
    · intro f hm
      have hm' : f.1 ∈ ts.map Turn.slot := by
        rw [← hf]
        exact List.mem_map_of_mem hm
      obtain ⟨t, -, ht⟩ := List.mem_map.1 hm'
      rw [← ht]
      rfl
  rcases hframes : framesAfter (ts.map Turn.slot) with _ | frames
  · obtain ⟨filled, hf, hrun⟩ := exists_filled_eq_none (suits_slot ts) hframes
    refine ⟨tagged filled, (hslots filled hf).1, render_tagged (hslots filled hf).2 ?_⟩
    rw [hrun]
    simp
  · have hnone : framesAfter (ts.map Turn.slot ++ (unwinding (kinds frames)).map Turn.last) =
        none := by
      rw [framesAfter, map_turn_slot] at hframes
      rw [framesAfter, List.map_append, map_turn_slot, List.foldlM_append, hframes, List.map_map]
      by_contra hsome
      refine Bool.eq_false_iff.1 h (isNested_iff.2 ⟨frames, hframes, ?_⟩)
      rw [← Option.ne_none_iff_isSome]
      exact fun hn => hsome (by simpa [Function.comp_def, Turn.last] using hn)
    obtain ⟨filled, hf, hrun⟩ := exists_filled_eq_none (suits_unwinding hframes) hnone
    obtain ⟨filled₁, filled₂, rfl, hf₁, hf₂⟩ := List.map_eq_append_iff.1 hf
    refine ⟨tagged filled₁, (hslots filled₁ hf₁).1, render_tagged (hslots filled₁ hf₁).2 ?_⟩
    intro c hc
    have hfits : c.Fits (kinds frames) := by
      rw [← hf₁, framesAfter, ← turns_fill] at hframes
      exact fits_run fits_empty hframes hc
    rw [fill_append, run_append, hc, Option.bind_some, run_fill_last c hf₂, ← closings_eq hfits]
      at hrun
    rw [finish?_eq, hrun, Option.map_none]

/-- Rendering never cuts a character, whatever the texts and the options, exactly with those
orders of frames that are nested, those closed at the end included. -/
theorem render_ne_splitCharacter_iff (ts : List Turn) :
    (∀ options tokens, frameTurns tokens = ts →
      (render options tokens).result ≠ .error .splitCharacter) ↔ isNested ts = true := by
  constructor
  · intro h
    by_contra hn
    obtain ⟨tokens, hts, hr⟩ := exists_render_eq_splitCharacter (Bool.eq_false_iff.2 hn)
    exact h {} tokens hts hr
  · rintro h options tokens rfl
    exact render_ne_splitCharacter h options

/-- A quote that goes on after the item that it began in can cut a character. -/
theorem not_forall_render_ne_splitCharacter :
    ¬ ∀ (options : Options) (tokens : List Token),
      (render options tokens).result ≠ .error .splitCharacter := fun h =>
  h {} [{ kind := .opening .listItem }, tag "a\né", { kind := .opening .blockquote },
    { kind := .closing .listItem }, { kind := .closing .blockquote }] rfl

end Crossing

end TidyMark.Render
