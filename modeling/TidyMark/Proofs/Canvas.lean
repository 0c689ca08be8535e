import TidyMark.Proofs.Bytes
import TidyMark.Proofs.Nesting

/-!
# Pieces on a canvas

Pieces that leave alone the frames that are open before them do to a canvas what they would do to
an empty one, behind what is there already (`run_onto`). A frame that closes without having
outlived one that held it therefore begins where it did when it opened, so that nested frames
close without cutting a character (`exists_run`).
-/

namespace TidyMark.Render

open Text

def turns (pieces : List Piece) : List Turn :=
  pieces.filterMap fun p => p.role.turn?

namespace Canvas

def run (c : Canvas) (pieces : List Piece) : Option Canvas :=
  pieces.foldlM add? c

/-- Where the frames of a kind that are open begin, the innermost first. -/
def starts (c : Canvas) : FrameKind → List Nat
  | .item => c.items.map (·.start)
  | .quote => c.quotes

def Fits (c : Canvas) (kinds : List FrameKind) : Prop :=
  ∀ k, (c.starts k).length = kinds.count k

/-- A canvas with what is on another one behind what is on it. -/
def onto (base c : Canvas) : Canvas where
  out := base.out ++ c.out
  items := c.items.map (fun f => { f with start := base.out.byteLength + f.start }) ++ base.items
  quotes := c.quotes.map (base.out.byteLength + ·) ++ base.quotes

section Onto

variable (base : Canvas)

theorem onto_empty : base.onto {} = base := by
  simp [onto]

theorem starts_onto (c : Canvas) (k : FrameKind) :
    (base.onto c).starts k = (c.starts k).map (base.out.byteLength + ·) ++ base.starts k := by
  cases k <;> simp [onto, starts, List.map_map, Function.comp_def]

theorem changeFrom?_append (p : Text) (start : Nat) (f : Text → Text) (out : Text) :
    changeFrom? (p.byteLength + start) f (p ++ out) =
      (changeFrom? start f out).map (p ++ ·) := by
  rw [changeFrom?, byteLength_append, Nat.add_min_add_left, splitAtByte?_append_add, changeFrom?,
    Option.map_map, Option.map_map]
  congr 1
  funext ⟨before, body⟩
  simp

/-- A piece that closes nothing of what is open before changes nothing of what stands before. -/
theorem add?_onto {c : Canvas} {p : Piece}
    (h : ∀ k, p.role.turn? = some (.closes k) → c.starts k = [] → base.starts k = []) :
    (base.onto c).add? p = (c.add? p).map base.onto := by
  obtain ⟨role, t⟩ := p
  obtain ⟨out, items, quotes⟩ := c
  cases role with
  | plain => simp [add?, onto, write]
  | opensQuote => simp [add?, onto, write, byteLength_append]
  | opensItem => simp [add?, onto, write, byteLength_append]
  | closesQuote =>
    rcases quotes with _ | ⟨start, quotes⟩
    · have hb : base.quotes = [] := h .quote rfl rfl
      simp [add?, closeQuote?, onto, write, hb]
    · simp only [add?, closeQuote?, onto, List.map_cons, List.cons_append, changeFrom?_append]
      cases changeFrom? start quote out <;> simp [onto, write]
  | closesItem =>
    rcases items with _ | ⟨⟨start, width⟩, items⟩
    · have hb : base.items = [] := by simpa [starts] using h .item rfl rfl
      simp [add?, closeItem?, onto, write, hb]
    · simp only [add?, closeItem?, onto, List.map_cons, List.cons_append, changeFrom?_append]
      cases changeFrom? start (indentContinuations width) out <;> simp [onto, write]

end Onto

section Fits

theorem starts_add? {c c' : Canvas} {p : Piece} (h : c.add? p = some c') (j : FrameKind) :
    c'.starts j =
      match p.role.turn? with
      | none => c.starts j
      | some (.opens k) =>
        if k = j then (c.out ++ p.text).byteLength :: c.starts j else c.starts j
      | some (.closes k) => if k = j then (c.starts j).tail else c.starts j := by
  obtain ⟨role, t⟩ := p
  obtain ⟨out, items, quotes⟩ := c
  cases role with
  | plain =>
    cases h
    cases j <;> rfl
  | opensQuote =>
    cases h
    cases j <;> rfl
  | opensItem =>
    cases h
    cases j <;> rfl
  | closesQuote =>
    rcases quotes with _ | ⟨start, quotes⟩
    · cases h
      cases j <;> rfl
    · simp only [add?, closeQuote?, Option.map_eq_some_iff] at h
      obtain ⟨_, ⟨_, -, rfl⟩, rfl⟩ := h
      cases j <;> rfl
  | closesItem =>
    rcases items with _ | ⟨⟨start, width⟩, items⟩
    · cases h
      cases j <;> rfl
    · simp only [add?, closeItem?, Option.map_eq_some_iff] at h
      obtain ⟨_, ⟨_, -, rfl⟩, rfl⟩ := h
      cases j <;> rfl

theorem fits_add? {c c' : Canvas} {p : Piece} (h : c.add? p = some c') {base : List FrameKind}
    {frames frames' : List Held} (hf : c.Fits (kinds frames)) {t : Turn}
    (hp : p.role.turn? = some t) (ht : turnOver? base frames t = some frames') :
    c'.Fits (kinds frames') := by
  intro j
  have hj := hf j
  rw [starts_add? h j, hp]
  rcases t with k | k
  · simp only [turnOver?, Option.some.injEq] at ht
    rw [← ht]
    simp only [kinds, List.map_cons, List.count_cons, beq_iff_eq]
    split_ifs <;> simpa [kinds] using hj
  · rw [count_of_closes ht j]
    dsimp only
    split_ifs
    · rw [List.length_tail, hj]
    · exact hj

theorem fits_of_turn {c c' : Canvas} {p : Piece} (h : c.add? p = some c')
    {base : List FrameKind} {frames frames' : List Held} (hf : c.Fits (kinds frames))
    (hturn : ∀ t, p.role.turn? = some t → turnOver? base frames t = some frames')
    (hplain : p.role.turn? = none → frames' = frames) : c'.Fits (kinds frames') := by
  rcases hp : p.role.turn? with _ | t
  · intro j
    rw [hplain hp, starts_add? h j, hp]
    exact hf j
  · exact fits_add? h hf hp (hturn t hp)

theorem starts_eq_nil_iff {c : Canvas} {ks : List FrameKind} (h : c.Fits ks) {k : FrameKind} :
    c.starts k = [] ↔ k ∉ ks := by
  rw [← List.length_eq_zero_iff, h k, List.count_eq_zero]

theorem add?_onto_of_fits {base c : Canvas} {ks : List FrameKind} {frames : List Held}
    (hb : base.Fits ks) (hf : c.Fits (kinds frames)) {p : Piece}
    (h : ∀ t, p.role.turn? = some t → (turnOver? ks frames t).isSome = true) :
    (base.onto c).add? p = (c.add? p).map base.onto := by
  refine add?_onto base fun k hk hnil => ?_
  rw [starts_eq_nil_iff hf] at hnil
  obtain ⟨frames', h'⟩ := Option.isSome_iff_exists.1 (h _ hk)
  obtain ⟨_, ht, -⟩ | ⟨_, top, below, ht, rfl, -, -⟩ | ⟨_, ht, -, hks, -⟩ :=
    turnOver?_eq_some_iff.1 h' <;> cases ht
  · simp [kinds] at hnil
  · exact (starts_eq_nil_iff hb).2 hks

theorem run_cons (c : Canvas) (p : Piece) (pieces : List Piece) :
    c.run (p :: pieces) = (c.add? p).bind (run · pieces) :=
  List.foldlM_cons

theorem run_append (c : Canvas) (pieces pieces' : List Piece) :
    c.run (pieces ++ pieces') = (c.run pieces).bind (run · pieces') :=
  List.foldlM_append

theorem exists_frames_of_cons {ks : List FrameKind} {p : Piece} {pieces : List Piece}
    {frames frames' : List Held}
    (h : (turns (p :: pieces)).foldlM (turnOver? ks) frames = some frames') : ∃ frames₁,
      (∀ t, p.role.turn? = some t → turnOver? ks frames t = some frames₁) ∧
      (p.role.turn? = none → frames₁ = frames) ∧
      (turns pieces).foldlM (turnOver? ks) frames₁ = some frames' := by
  rw [turns, List.filterMap_cons] at h
  rcases hp : p.role.turn? with _ | t <;> rw [hp] at h
  · exact ⟨frames, by simp, fun _ => rfl, h⟩
  · rw [List.foldlM_cons] at h
    obtain ⟨frames₁, h₁, h⟩ := Option.bind_eq_some_iff.1 h
    exact ⟨frames₁, by simp [h₁], by simp, h⟩

theorem fits_run {ks : List FrameKind} : ∀ {pieces : List Piece} {c c' : Canvas}
    {frames frames' : List Held}, c.Fits (kinds frames) →
      (turns pieces).foldlM (turnOver? ks) frames = some frames' → c.run pieces = some c' →
        c'.Fits (kinds frames')
  | [], c, c', frames, frames', hf, h, hc => by
    cases h
    cases hc
    exact hf
  | p :: pieces, c, c', frames, frames', hf, h, hc => by
    obtain ⟨frames₁, hturn, hnone, h⟩ := exists_frames_of_cons h
    rw [run_cons] at hc
    obtain ⟨c₁, hc₁, hc⟩ := Option.bind_eq_some_iff.1 hc
    exact fits_run (fits_of_turn hc₁ hf hturn hnone) h hc

/-- What pieces do that leave alone the frames of a canvas does not depend on the canvas. -/
theorem run_onto {base : Canvas} {ks : List FrameKind} (hb : base.Fits ks) :
    ∀ {pieces : List Piece} {c : Canvas} {frames frames' : List Held}, c.Fits (kinds frames) →
      (turns pieces).foldlM (turnOver? ks) frames = some frames' →
        (base.onto c).run pieces = (c.run pieces).map base.onto
  | [], c, frames, frames', hf, h => rfl
  | p :: pieces, c, frames, frames', hf, h => by
    obtain ⟨frames₁, hturn, hnone, h⟩ := exists_frames_of_cons h
    have hadd := add?_onto_of_fits hb hf fun t ht => by rw [hturn t ht]; rfl
    rw [run_cons, run_cons, hadd]
    rcases hc : c.add? p with _ | c₁
    · rfl
    · exact run_onto hb (fits_of_turn hc hf hturn hnone) h

end Fits

section Closing

theorem exists_of_turns_eq {pieces : List Piece} {before after : List Turn} {t : Turn}
    (h : turns pieces = before ++ t :: after) : ∃ above p below, pieces = above ++ p :: below ∧
      turns above = before ∧ p.role.turn? = some t ∧ turns below = after := by
  obtain ⟨above, rest, rfl, rfl, hrest⟩ := List.filterMap_eq_append_iff.1 h
  obtain ⟨skipped, p, below, rfl, hs, hp, rfl⟩ := List.filterMap_eq_cons_iff.1 hrest
  refine ⟨above ++ skipped, p, below, by simp, ?_, hp, rfl⟩
  rw [turns, List.filterMap_append, List.filterMap_eq_nil_iff.2 hs, List.append_nil]

theorem turns_append (pieces pieces' : List Piece) :
    turns (pieces ++ pieces') = turns pieces ++ turns pieces' :=
  List.filterMap_append

theorem changeFrom?_byteLength (f : Text → Text) (before body : Text) :
    changeFrom? before.byteLength f (before ++ body) = some (before ++ f body) := by
  have hmin : min before.byteLength (before ++ body).byteLength = before.byteLength := by
    rw [byteLength_append]
    omega
  rw [changeFrom?, hmin, splitAtByte?_append]
  rfl

theorem exists_of_closes {c : Canvas} {p : Piece} {k : FrameKind}
    (hp : p.role.turn? = some (.closes k))
    (h : ∀ start, (c.starts k).head? = some start → c.out.IsBoundary start) :
    ∃ c', c.add? p = some c' := by
  obtain ⟨role, t⟩ := p
  obtain ⟨out, items, quotes⟩ := c
  cases role <;> cases hp
  · rcases quotes with _ | ⟨start, quotes⟩
    · exact ⟨_, rfl⟩
    · obtain ⟨before, body, rfl, rfl⟩ := h start rfl
      simp only [add?, closeQuote?, changeFrom?_byteLength]
      exact ⟨_, rfl⟩
  · rcases items with _ | ⟨⟨start, width⟩, items⟩
    · exact ⟨_, rfl⟩
    · obtain ⟨before, body, rfl, rfl⟩ := h start rfl
      simp only [add?, closeItem?, changeFrom?_byteLength]
      exact ⟨_, rfl⟩

theorem add?_of_opens {c : Canvas} {p : Piece} {k : FrameKind}
    (hp : p.role.turn? = some (.opens k)) :
    ∃ c', c.add? p = some c' ∧ c'.out = c.out ++ p.text := by
  obtain ⟨role, t⟩ := p
  cases role <;> cases hp <;> exact ⟨_, rfl, rfl⟩

theorem add?_of_plain {c : Canvas} {p : Piece} (hp : p.role.turn? = none) :
    c.add? p = some (c.write p.text) := by
  obtain ⟨role, t⟩ := p
  cases role <;> cases hp
  rfl

theorem fits_empty : ({} : Canvas).Fits (kinds []) := by
  intro k
  cases k <;> rfl

/-- A canvas in which pieces have left a frame open without a mark: what came since the frame
opened stands behind what was there when it opened. -/
theorem exists_onto {pieces : List Piece} {top below : List Held} {k : FrameKind} {c : Canvas}
    (h : (turns pieces).foldlM (turnOver? []) [] = some (top ++ ⟨k, false⟩ :: below))
    (hc : run {} pieces = some c) : ∃ base inner : Canvas, c = base.onto inner ∧
      inner.Fits (kinds top) ∧ (base.starts k).head? = some base.out.byteLength := by
  obtain ⟨before, after, hturns, hbefore, hafter⟩ := exists_opened h
  obtain ⟨above, p, rest, rfl, rfl, hp, rfl⟩ := exists_of_turns_eq hturns
  rw [run_append] at hc
  obtain ⟨c₁, hc₁, hc⟩ := Option.bind_eq_some_iff.1 hc
  rw [run_cons] at hc
  obtain ⟨base, hbase, hc⟩ := Option.bind_eq_some_iff.1 hc
  have hfits : base.Fits (k :: kinds below) := by
    have ht : turnOver? [] below (.opens k) = some (⟨k, false⟩ :: below) := rfl
    exact fits_add? hbase (fits_run fits_empty hbefore hc₁) hp ht
  have hrun := run_onto hfits fits_empty hafter
  rw [onto_empty, hc] at hrun
  obtain ⟨inner, hi, rfl⟩ := Option.map_eq_some_iff.1 hrun.symm
  refine ⟨base, inner, rfl, fits_run fits_empty hafter hi, ?_⟩
  obtain ⟨_, hadd, hout⟩ := add?_of_opens (c := c₁) hp
  rw [hbase] at hadd
  cases hadd
  rw [starts_add? hbase k, hp, hout]
  simp

/-- As long as no frame closes that has outlived one that held it, no character is cut. -/
theorem exists_run {pieces : List Piece} {frames : List Held}
    (h : (turns pieces).foldlM (turnOver? []) [] = some frames) :
    ∃ c, run {} pieces = some c ∧ c.Fits (kinds frames) := by
  induction pieces using List.reverseRecOn generalizing frames with
  | nil => exact ⟨{}, rfl, by cases h; exact fits_empty⟩
  | append_singleton pieces p ih =>
    have hall := h
    rw [turns_append, List.foldlM_append] at h
    obtain ⟨frames₀, h₀, ht⟩ := Option.bind_eq_some_iff.1 h
    obtain ⟨c, hc, hf⟩ := ih h₀
    suffices hadd : ∃ c', c.add? p = some c' by
      obtain ⟨c', hadd⟩ := hadd
      have hrun : run {} (pieces ++ [p]) = some c' := by
        rw [run_append, hc]
        simp [hadd, run]
      exact ⟨c', hrun, fits_run fits_empty hall hrun⟩
    rcases hp : p.role.turn? with _ | k | k
    · exact ⟨_, add?_of_plain hp⟩
    · obtain ⟨c', hc', -⟩ := add?_of_opens (c := c) hp
      exact ⟨c', hc'⟩
    · refine exists_of_closes hp fun start hstart => ?_
      have ht : turnOver? [] frames₀ (.closes k) = some frames := by
        simpa [turns, hp] using ht
      obtain ⟨_, he, -⟩ | ⟨_, top, below, he, rfl, hk, -⟩ | ⟨_, he, hk, -, -⟩ :=
        turnOver?_eq_some_iff.1 ht <;> cases he
      · obtain ⟨base, inner, rfl, hinner, hhead⟩ := exists_onto h₀ hc
        rw [starts_onto, (starts_eq_nil_iff hinner).2 hk, List.map_nil, List.nil_append, hhead]
          at hstart
        cases hstart
        exact ⟨base.out, inner.out, rfl, rfl⟩
      · rw [(starts_eq_nil_iff hf).2 hk] at hstart
        cases hstart

end Closing

section Finish

def closings (c : Canvas) : List Piece :=
  List.replicate c.items.length ⟨.closesItem, []⟩ ++
    List.replicate c.quotes.length ⟨.closesQuote, []⟩

theorem closeItems?_eq : ∀ (n : Nat) (c : Canvas),
    closeItems? n c = c.run (List.replicate n ⟨.closesItem, []⟩)
  | 0, c => rfl
  | n + 1, c => by
    have hadd : c.add? ⟨.closesItem, []⟩ = c.closeItem? := by
      simp [add?, write]
    rw [List.replicate_succ, run_cons, hadd, closeItems?]
    congr 1
    funext c'
    exact closeItems?_eq n c'

theorem closeQuotes?_eq : ∀ (n : Nat) (c : Canvas),
    closeQuotes? n c = c.run (List.replicate n ⟨.closesQuote, []⟩)
  | 0, c => rfl
  | n + 1, c => by
    have hadd : c.add? ⟨.closesQuote, []⟩ = c.closeQuote? := by
      simp [add?, write]
    rw [List.replicate_succ, run_cons, hadd, closeQuotes?]
    congr 1
    funext c'
    exact closeQuotes?_eq n c'

theorem quotes_run_closesItem : ∀ {n : Nat} {c c' : Canvas},
    c.run (List.replicate n ⟨.closesItem, []⟩) = some c' → c'.quotes = c.quotes
  | 0, c, c', h => by
    cases h
    rfl
  | n + 1, c, c', h => by
    rw [List.replicate_succ, run_cons] at h
    obtain ⟨c₁, h₁, h⟩ := Option.bind_eq_some_iff.1 h
    rw [quotes_run_closesItem h]
    exact starts_add? h₁ .quote

theorem finish?_eq (c : Canvas) : c.finish? = (c.run c.closings).map (·.out) := by
  rw [finish?, closings, run_append, closeItems?_eq]
  rcases hc : c.run (List.replicate c.items.length ⟨.closesItem, []⟩) with _ | c'
  · rfl
  · rw [Option.bind_some, Option.bind_some, closeQuotes?_eq, quotes_run_closesItem hc]

theorem closings_eq {c : Canvas} {ks : List FrameKind} (h : c.Fits ks) :
    c.closings = (unwinding ks).map fun t => ⟨t.role, []⟩ := by
  have hi : c.items.length = ks.count .item := by simpa [starts] using h .item
  have hq : c.quotes.length = ks.count .quote := h .quote
  rw [closings, unwinding, hi, hq, List.map_append, List.map_replicate, List.map_replicate]
  rfl

theorem turns_closings {c : Canvas} {ks : List FrameKind} (h : c.Fits ks) :
    turns c.closings = unwinding ks := by
  rw [closings_eq h, turns, List.filterMap_map]
  rw [show (fun p : Piece => p.role.turn?) ∘ (fun t : Turn => ⟨t.role, []⟩) = some from
    funext turn?_role, List.filterMap_some]

theorem exists_finish {pieces : List Piece} (h : isNested (turns pieces) = true) :
    ∃ c out, draw? pieces = some c ∧ c.finish? = some out := by
  obtain ⟨frames, hframes, hu⟩ := isNested_iff.1 h
  obtain ⟨frames', hu⟩ := Option.isSome_iff_exists.1 hu
  obtain ⟨c, hc, hf⟩ := exists_run hframes
  have hall : (turns (pieces ++ c.closings)).foldlM (turnOver? []) [] = some frames' := by
    rw [turns_append, turns_closings hf, List.foldlM_append, hframes]
    exact hu
  obtain ⟨c', hc', -⟩ := exists_run hall
  rw [run_append, hc, Option.bind_some] at hc'
  exact ⟨c, c'.out, hc, by rw [finish?_eq, hc', Option.map_some]⟩

end Finish

end Canvas

end TidyMark.Render
