import Mathlib.Tactic.SplitIfs
import TidyMark.Proofs.Calls
import TidyMark.Tidy

/-!
# Lists and their items

An item belongs to the innermost list that is open around it. `directItems` takes the items of one
list out of the calls behind its opening, and `behindList` what comes when it has closed. While the
list is open its frame is on the stack of lists, below the frames of the lists inside it, and counts
its own items only (`head?_lists_of_directItems`). The items of an ordered list are therefore
numbered from one, whatever is inside them, and have one delimiter (`written_directItems`).
-/

namespace TidyMark

/-- What a token does to the lists that are open. -/
inductive ListTurn where
  | opens (ordered : Bool)
  | closes
  | item
deriving DecidableEq

/-- The construct that a list is. -/
def Construct.list (ordered : Bool) : Construct :=
  if ordered then .orderedList else .bulletList

def Kind.listTurn? : Kind → Option ListTurn
  | .opening .bulletList => some (.opens false)
  | .opening .orderedList => some (.opens true)
  | .closing .bulletList | .closing .orderedList => some .closes
  | .opening .listItem => some .item
  | _ => none

section Kinds

variable {k : Kind}

theorem listTurn?_eq_opens_iff {ordered : Bool} :
    k.listTurn? = some (.opens ordered) ↔ k = .opening (.list ordered) := by
  cases ordered <;> rcases k with (_ | _) | (_ | _) | _ | _ <;> simp [Kind.listTurn?, Construct.list]

theorem listTurn?_eq_closes_iff :
    k.listTurn? = some .closes ↔ ∃ ordered, k = .closing (.list ordered) := by
  rcases k with (_ | _) | (_ | _) | _ | _ <;> simp [Kind.listTurn?, Construct.list]

theorem listTurn?_eq_item_iff : k.listTurn? = some .item ↔ k = .opening .listItem := by
  rcases k with (_ | _) | (_ | _) | _ | _ <;> simp [Kind.listTurn?]

end Kinds

namespace Render

/-- The items of the list in which `depth` other lists are open before these calls. -/
def directItems : Nat → List Call → List Call
  | _, [] => []
  | depth, c :: cs =>
    match c.kind.listTurn?, depth with
    | some (.opens _), _ => directItems (depth + 1) cs
    | some .closes, 0 => []
    | some .closes, depth + 1 => directItems depth cs
    | some .item, 0 => c :: directItems 0 cs
    | _, _ => directItems depth cs

/-- The calls behind the end of the list in which `depth` other lists are open before. -/
def behindList : Nat → List Call → List Call
  | _, [] => []
  | depth, c :: cs =>
    match c.kind.listTurn?, depth with
    | some (.opens _), _ => behindList (depth + 1) cs
    | some .closes, 0 => cs
    | some .closes, depth + 1 => behindList depth cs
    | _, _ => behindList depth cs

/-- The frame of a list when `n` more of its items have begun. -/
def ListFrame.after (f : ListFrame) (n : Nat) : ListFrame :=
  if f.ordered then { f with next := f.next + n } else f

/-- The frame that a list begins with. -/
def Call.frame (c : Call) (ordered : Bool) : ListFrame :=
  ⟨ordered, 1, c.sight.token.level,
    match c.state.closedList with
    | some closed =>
      if preceding? c.sight.before == some (.closing (.list ordered)) && closed.ordered == ordered &&
          closed.level == c.sight.token.level then closed.shift + 1
      else 0
    | none => 0⟩

section Frames

variable {f : ListFrame} {m n : Nat}

@[simp]
theorem after_zero : f.after 0 = f := by
  unfold ListFrame.after
  split_ifs <;> rfl

theorem after_after : (f.after m).after n = f.after (m + n) := by
  unfold ListFrame.after
  split_ifs <;> simp_all [Nat.add_assoc]

@[simp]
theorem ordered_after : (f.after n).ordered = f.ordered := by
  unfold ListFrame.after
  split_ifs <;> rfl

@[simp]
theorem level_after : (f.after n).level = f.level := by
  unfold ListFrame.after
  split_ifs <;> rfl

@[simp]
theorem shift_after : (f.after n).shift = f.shift := by
  unfold ListFrame.after
  split_ifs <;> rfl

theorem next_after (h : f.ordered = true) : (f.after n).next = f.next + n := by
  rw [ListFrame.after, if_pos h]

end Frames

section Turns

variable {setting : Setting} {c : Call}

theorem lists_next_of_opens {ordered : Bool} (h : c.kind.listTurn? = some (.opens ordered)) :
    (c.next setting).lists = c.frame ordered :: c.state.lists := by
  have hk : c.sight.token.kind = .opening (.list ordered) := listTurn?_eq_opens_iff.1 h
  rw [Call.next, rule, hk]
  cases ordered <;> rfl

theorem lists_next_of_closes (h : c.kind.listTurn? = some .closes) :
    (c.next setting).lists = c.state.lists.tail ∧
      (c.next setting).closedList = c.state.lists.head? := by
  obtain ⟨ordered, hk : c.sight.token.kind = _⟩ := listTurn?_eq_closes_iff.1 h
  rw [Call.next, rule, hk]
  cases ordered <;> exact ⟨rfl, rfl⟩

theorem lists_next_of_item (h : c.kind.listTurn? = some .item) :
    (c.next setting).lists = c.state.lists.modifyHead (·.after 1) := by
  have hk : c.sight.token.kind = .opening .listItem := listTurn?_eq_item_iff.1 h
  rw [Call.next, rule, hk]
  dsimp only [openRule, listItemOpen]
  cases hl : c.state.lists with
  | nil => exact hl
  | cons f frames =>
    rw [List.modifyHead_cons, ListFrame.after]
    cases hf : f.ordered <;> simp [hl, hf]

theorem lists_linkOpen (state : State) (s : Sight) : (linkOpen state s).1.lists = state.lists := by
  obtain ⟨before, ⟨kind, content, children, level, href, src, title, alt, align, headingLevel, tight,
    block, params, id, subId⟩, after, openLinks⟩ := s
  dsimp only [linkOpen]
  split_ifs <;> rfl

theorem lists_linkClose (state : State) : (linkClose state).1.lists = state.lists := by
  unfold linkClose
  split <;> rfl

theorem lists_image (state : State) (s : Sight) : (image state s).1.lists = state.lists := by
  obtain ⟨before, ⟨kind, content, children, level, href, src, title, alt, align, headingLevel, tight,
    block, params, id, subId⟩, after, openLinks⟩ := s
  dsimp only [image]
  split <;> rfl

theorem lists_next_of_none (h : c.kind.listTurn? = none) :
    (c.next setting).lists = c.state.lists := by
  unfold Call.next rule
  unfold Call.kind at h
  cases hk : c.sight.token.kind with
  | opening k =>
    cases k with
    | bulletList | orderedList | listItem => rw [hk] at h; cases h
    | link => exact lists_linkOpen _ _
    | _ => rfl
  | closing k =>
    cases k with
    | bulletList | orderedList => rw [hk] at h; cases h
    | link => exact lists_linkClose _
    | _ => rfl
  | leaf l =>
    cases l with
    | image => exact lists_image _ _
    | _ => rfl
  | unknown name => rfl

end Turns

section Running

variable {setting : Setting} {state state' : State} {cs : List Call}

/-- Each item of a list finds the frame of the list on top of the stack, with the items before it
counted. `inner` are the frames of the lists that are open in it. -/
theorem head?_lists_of_directItems (h : Runs setting state cs state') :
    ∀ (inner outer : List ListFrame) (frame : ListFrame), state.lists = inner ++ frame :: outer →
      ∀ (i : Nat) (item : Call), (directItems inner.length cs)[i]? = some item →
        item.kind = .opening .listItem ∧ item.state.lists.head? = some (frame.after i) := by
  induction h with
  | nil =>
    intro inner outer frame _ i item hitem
    simp [directItems] at hitem
  | @cons c cs state state' hstate _ ih =>
    subst hstate
    intro inner outer frame hlists i item hitem
    rcases hturn : c.kind.listTurn? with _ | ordered | _ | _
    · simp only [directItems, hturn] at hitem
      exact ih inner outer frame ((lists_next_of_none hturn).trans hlists) i item hitem
    · simp only [directItems, hturn] at hitem
      refine ih (c.frame ordered :: inner) outer frame ?_ i item hitem
      rw [lists_next_of_opens hturn, hlists, List.cons_append]
    · cases inner with
      | nil => simp [directItems, hturn] at hitem
      | cons f inner =>
        simp only [List.length_cons, directItems, hturn] at hitem
        refine ih inner outer frame ?_ i item hitem
        rw [(lists_next_of_closes hturn).1, hlists]
        rfl
    · cases inner with
      | nil =>
        rw [List.nil_append] at hlists
        simp only [List.length_nil, directItems, hturn] at hitem
        cases i with
        | zero =>
          obtain rfl : c = item := by simpa using hitem
          exact ⟨listTurn?_eq_item_iff.1 hturn, by rw [hlists, after_zero]; rfl⟩
        | succ i =>
          have hnext : (c.next setting).lists = [] ++ frame.after 1 :: outer := by
            rw [lists_next_of_item hturn, hlists]
            rfl
          obtain ⟨hk, hhead⟩ := ih [] outer (frame.after 1) hnext i item (by simpa using hitem)
          rw [after_after, Nat.add_comm] at hhead
          exact ⟨hk, hhead⟩
      | cons f inner =>
        simp only [List.length_cons, directItems, hturn] at hitem
        refine ih (f.after 1 :: inner) outer frame ?_ i item hitem
        rw [lists_next_of_item hturn, hlists]
        rfl

end Running

section Markers

variable {setting : Setting} {c : Call} {f : ListFrame}

def ListFrame.delimiter (f : ListFrame) : Char :=
  if f.shift % 2 == 0 then '.' else ')'

theorem delimiter_mem (f : ListFrame) : f.delimiter ∈ ['.', ')'] := by
  unfold ListFrame.delimiter
  split_ifs <;> simp

@[simp]
theorem delimiter_after (n : Nat) : (f.after n).delimiter = f.delimiter := by
  rw [ListFrame.delimiter, shift_after, ListFrame.delimiter]

theorem written_of_ordered (hk : c.kind = .opening .listItem) (hf : c.state.lists.head? = some f)
    (ho : f.ordered = true) : c.written setting = Text.ofNat f.next ++ [f.delimiter, ' '] := by
  obtain ⟨frames, hlists⟩ := List.head?_eq_some_iff.1 hf
  have hk : c.sight.token.kind = .opening .listItem := hk
  rw [Call.written, rule, hk]
  simp only [openRule, listItemOpen, hlists, ho, if_true, ListFrame.delimiter]

/-- In whatever lists and items stand inside its items, an ordered list numbers them from one, all
with the same delimiter. -/
theorem written_directItems {tokens : List Token} {opening : Call} {rest : List Call}
    (h : opening :: rest <:+ callsAll setting tokens)
    (hk : opening.kind = .opening .orderedList) :
    ∃ delimiter ∈ ['.', ')'], ∀ (i : Nat) (item : Call), (directItems 0 rest)[i]? = some item →
      item.written setting = Text.ofNat (i + 1) ++ [delimiter, ' '] := by
  obtain ⟨state', hrun⟩ := exists_runs_callsAll setting tokens
  have hopens : opening.kind.listTurn? = some (.opens true) := listTurn?_eq_opens_iff.2 hk
  have hlists : (opening.next setting).lists = [] ++ opening.frame true :: opening.state.lists :=
    lists_next_of_opens hopens
  refine ⟨(opening.frame true).delimiter, delimiter_mem _, fun i item hitem => ?_⟩
  obtain ⟨hkind, hhead⟩ := head?_lists_of_directItems (hrun.of_suffix h) _ _ _ hlists i item hitem
  have hordered : (opening.frame true).ordered = true := rfl
  rw [written_of_ordered hkind hhead (by rw [ordered_after, hordered]), next_after hordered,
    delimiter_after, Nat.add_comm i]
  rfl

/-- An item that holds an ordered list and a list of bullets, and one that holds nothing. -/
theorem written_directItems_mixed :
    ∃ opening rest, opening :: rest <:+ callsAll (.ofOptions {})
        (tokenize "1. a\n   1. b\n   2. c\n\n   * d\n3.\n7. e") ∧
      opening.kind = .opening .orderedList ∧ (directItems 0 rest).length = 3 ∧
      ∃ delimiter ∈ ['.', ')'], ∀ (i : Nat) (item : Call), (directItems 0 rest)[i]? = some item →
        item.written (.ofOptions {}) = Text.ofNat (i + 1) ++ [delimiter, ' '] := by
  obtain ⟨opening, rest, hcalls⟩ : ∃ opening rest, callsAll (.ofOptions {})
      (tokenize "1. a\n   1. b\n   2. c\n\n   * d\n3.\n7. e") = opening :: rest :=
    List.exists_cons_of_ne_nil (List.ne_nil_of_length_pos (by decide +kernel))
  have hkind : (callsAll (.ofOptions {})
      (tokenize "1. a\n   1. b\n   2. c\n\n   * d\n3.\n7. e")).head?.map (·.kind) =
        some (.opening .orderedList) := by decide +kernel
  have hitems : (directItems 0 (callsAll (.ofOptions {})
      (tokenize "1. a\n   1. b\n   2. c\n\n   * d\n3.\n7. e")).tail).length = 3 := by
    decide +kernel
  have hsuffix : opening :: rest <:+ callsAll (.ofOptions {})
      (tokenize "1. a\n   1. b\n   2. c\n\n   * d\n3.\n7. e") := by rw [hcalls]
  rw [hcalls] at hkind hitems
  have hk : opening.kind = .opening .orderedList := Option.some.inj hkind
  exact ⟨opening, rest, hsuffix, hk, hitems, written_directItems hsuffix hk⟩

end Markers

end Render

end TidyMark
