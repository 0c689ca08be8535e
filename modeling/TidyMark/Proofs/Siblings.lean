import TidyMark.Proofs.Grammar
import TidyMark.Proofs.InlineKinds
import TidyMark.Proofs.ItemMarkers

/-!
# Lists directly behind lists

In the stream of a document an item stands directly in a list, one level further in (`isShelved`).
The calls of the rules keep to this (`ranked_calls`): the items of one list all have one level, and
what comes directly behind a list sees its end before it. A list there finds the frame of the list
before it, which has been closed last, and is shifted by one more. The bullets of the two are apart
at every depth, those of bylines included, and so are the delimiters of two ordered lists
(`sign_ne_of_behindList`).
-/

namespace TidyMark.Render

open Token Markdown

def isList (c : Construct) : Bool :=
  c == .bulletList || c == .orderedList

/-- Whether tokens close what is open before them, the innermost of `opened` first, and each item
among them stands directly in a list. -/
def isShelved (opened : List Construct) : List Token → Bool
  | [] => true
  | t :: rest =>
    match t.kind, opened with
    | .opening c, _ => t.level == some opened.length &&
        (c != .listItem || opened.head?.any isList) && isShelved (c :: opened) rest
    | .closing c, d :: outer => c == d && isShelved outer rest
    | .closing _, [] => false
    | .leaf _, _ | .unknown _, _ => isShelved opened rest

section Shelves

variable {opened : List Construct} {before ts : List Token}

/-- The items among the constructs that are open stand in lists, and so does what comes behind the
beginning of a list or the end of an item. -/
structure Standing (opened : List Construct) (before : List Token) : Prop where
  behind : isBehind [.opening .bulletList, .opening .orderedList, .closing .listItem] before = true →
    opened.head?.any isList = true
  items : ∀ outer, .listItem :: outer <:+ opened → outer.head?.any isList = true

theorem Standing.opening {t : Token} {c : Construct} (h : Standing opened before)
    (hk : t.kind = .opening c) (hfollows : follows before t = true) :
    (c = .listItem → opened.head?.any isList = true) ∧ Standing (c :: opened) (t :: before) := by
  have hitem : c = .listItem → opened.head?.any isList = true := by
    rintro rfl
    rw [follows, hk] at hfollows
    exact h.behind hfollows
  refine ⟨hitem, fun hb => ?_, fun outer hs => ?_⟩
  · rw [isBehind_cons, hk] at hb
    cases c <;> first | rfl | exact absurd hb (by decide)
  · rcases List.suffix_cons_iff.1 hs with heq | hs
    · obtain ⟨rfl, rfl⟩ := List.cons.inj heq
      exact hitem rfl
    · exact h.items outer hs

theorem Standing.closing {t : Token} {c : Construct} (h : Standing (c :: opened) before)
    (hk : t.kind = .closing c) : Standing opened (t :: before) := by
  refine ⟨fun hb => h.items opened ?_, fun outer hs => h.items outer (hs.trans (List.suffix_cons _ _))⟩
  rw [isBehind_cons, hk] at hb
  obtain rfl : c = .listItem := by simpa using hb
  exact List.suffix_refl _

theorem Standing.leaf {t : Token} {l : Leaf} (h : Standing opened before) (hk : t.kind = .leaf l) :
    Standing opened (t :: before) :=
  ⟨fun hb => by simp [hk] at hb, h.items⟩

theorem isShelved_of_isAlong (hbracketed : isBracketed some opened ts = true)
    (halong : isAlong follows before ts = true) (h : Standing opened before) :
    isShelved opened ts = true := by
  induction ts generalizing opened before with
  | nil => rfl
  | cons t ts ih =>
    rw [isAlong, Bool.and_eq_true] at halong
    obtain ⟨hfollows, halong⟩ := halong
    rcases hk : t.kind with c | c | l | name
    · rw [isBracketed_opening hk, Bool.and_eq_true] at hbracketed
      obtain ⟨hitem, hnext⟩ := h.opening hk hfollows
      have hstands : (c != .listItem || opened.head?.any isList) = true := by
        by_cases hc : c = .listItem
        · rw [hitem hc, Bool.or_true]
        · rw [bne_iff_ne.2 hc, Bool.true_or]
      simp only [isShelved, hk, hbracketed.1, hstands, ih hbracketed.2 halong hnext, Bool.and_self]
    · cases opened with
      | nil => simp [isBracketed, hk] at hbracketed
      | cons d outer =>
        simp only [isBracketed, hk, Bool.and_eq_true] at hbracketed
        obtain ⟨⟨hc, -⟩, hbracketed⟩ := hbracketed
        obtain rfl : c = d := eq_of_beq hc
        simp only [isShelved, hk, beq_self_eq_true, ih hbracketed halong (h.closing hk),
          Bool.and_self]
    · rw [isBracketed_leaf hk, Bool.and_eq_true] at hbracketed
      simpa only [isShelved, hk] using ih hbracketed.2 halong (h.leaf hk)
    · simp [follows, hk] at hfollows

theorem exists_isShelved_tail {t : Token} (h : isShelved opened (t :: ts) = true) :
    ∃ opened', isShelved opened' ts = true := by
  rcases hk : t.kind with c | c | l | name
  · simp only [isShelved, hk, Bool.and_eq_true] at h
    exact ⟨_, h.2⟩
  · cases opened with
    | nil => simp [isShelved, hk] at h
    | cons d outer =>
      simp only [isShelved, hk, Bool.and_eq_true] at h
      exact ⟨_, h.2⟩
  · simp only [isShelved, hk] at h
    exact ⟨_, h⟩
  · simp only [isShelved, hk] at h
    exact ⟨_, h⟩

theorem isShelved_ofDocument (d : Document) : isShelved [] (ofDocument d) = true :=
  isShelved_of_isAlong (isBracketed_ofDocument d).1 (isAlong_ofDocument d)
    ⟨nofun, fun _ hs => by simp at hs⟩

end Shelves

section Silence

variable {setting : Setting} {depth : Nat} {cs ds : List Call}

theorem directItems_append_of_silent (h : ∀ c ∈ cs, c.kind.listTurn? = none) :
    directItems depth (cs ++ ds) = directItems depth ds := by
  induction cs with
  | nil => rfl
  | cons c cs ih =>
    obtain ⟨hc, hcs⟩ := List.forall_mem_cons.1 h
    simp only [List.cons_append, directItems, hc, ih hcs]

theorem behindList_append_of_silent (h : ∀ c ∈ cs, c.kind.listTurn? = none) :
    behindList depth (cs ++ ds) = behindList depth ds := by
  induction cs with
  | nil => rfl
  | cons c cs ih =>
    obtain ⟨hc, hcs⟩ := List.forall_mem_cons.1 h
    simp only [List.cons_append, behindList, hc, ih hcs]

/-- What begins with a call that tells about lists does not begin among silent ones. -/
theorem suffix_of_silent {c : Call} {rest : List Call} (h : ∀ x ∈ cs, x.kind.listTurn? = none)
    (hc : c.kind.listTurn? ≠ none) (hs : c :: rest <:+ cs ++ ds) : c :: rest <:+ ds := by
  induction cs with
  | nil => exact hs
  | cons x cs ih =>
    obtain ⟨hx, hcs⟩ := List.forall_mem_cons.1 h
    rcases List.suffix_cons_iff.1 hs with heq | hs
    · exact absurd ((List.cons.inj heq).1 ▸ hx) hc
    · exact ih hcs hs

theorem behindList_suffix (depth : Nat) (cs : List Call) : behindList depth cs <:+ cs := by
  induction cs generalizing depth with
  | nil => exact List.suffix_refl _
  | cons c cs ih =>
    have hcs : ∀ n, behindList n cs <:+ c :: cs := fun n => (ih n).trans (List.suffix_cons _ _)
    rcases hturn : c.kind.listTurn? with _ | ordered | _ | _
    · simpa only [behindList, hturn] using hcs depth
    · simpa only [behindList, hturn] using hcs (depth + 1)
    · cases depth with
      | zero => simpa only [behindList, hturn] using List.suffix_cons c cs
      | succ depth => simpa only [behindList, hturn] using hcs depth
    · simpa only [behindList, hturn] using hcs depth

theorem listTurn?_of_isInline {k : Kind} (h : k.isInline = true) :
    k.listTurn? = none ∧ k ≠ .leaf .inline := by
  rcases k with (_ | _) | (_ | _) | (_ | _) | _ <;> simp_all [Kind.isInline, Kind.listTurn?]

/-- Inline content neither opens nor closes lists. -/
theorem silent_calls {tokens : List Token} (h : ∀ t ∈ tokens, t.kind.isInline = true)
    (state : State) (before : List Token) (openLinks : Nat) (takes : Bool) :
    ∀ c ∈ calls setting state before openLinks takes tokens, c.kind.listTurn? = none := by
  induction tokens generalizing state before openLinks takes with
  | nil =>
    rw [calls_nil]
    exact nofun
  | cons t after ih =>
    obtain ⟨ht, hafter⟩ := List.forall_mem_cons.1 h
    obtain ⟨hturn, hne⟩ := listTurn?_of_isInline ht
    obtain ⟨c, hc, hcalls⟩ := calls_cons_leaf setting state before after openLinks takes hne
    have hown : c.kind.listTurn? = none := by rw [hc, Call.kind, kind_settle, hturn]
    rcases hcalls with ⟨name, -, hcalls⟩ | ⟨-, hcalls⟩
    · rw [hcalls]
      exact List.forall_mem_singleton.2 hown
    · rw [hcalls]
      exact List.forall_mem_cons.2 ⟨hown, ih hafter _ _ _ _⟩

theorem level_settle (takes : Bool) (t : Token) (after : List Token) :
    (settle takes t after).level = t.level := by
  have hfragment : (withoutFragment t).level = t.level := by
    unfold withoutFragment
    split_ifs
    · split <;> rfl
    · rfl
  unfold settle
  split
  · rfl
  · rfl
  · split_ifs
    · exact hfragment
    · rfl

/-- A token is called for first, then what is in it, which tells nothing about lists, and then what
comes behind it unless the walk stops there. -/
theorem exists_calls_cons {t : Token} (ht : t.HoldsInline) (state : State)
    (before after : List Token) (openLinks : Nat) (takes : Bool) :
    ∃ c within behind, calls setting state before openLinks takes (t :: after) =
        c :: (within ++ behind) ∧
      c.sight.before = before ∧ c.kind = t.kind ∧ c.sight.token.level = t.level ∧
      (∀ x ∈ within, x.kind.listTurn? = none) ∧ (t.kind ≠ .leaf .inline → within = []) ∧
      (behind = [] ∨ ∃ state' u openLinks' takes', u.kind = t.kind ∧
        behind = calls setting state' (u :: before) openLinks' takes' after) := by
  by_cases hk : t.kind = .leaf .inline
  · refine ⟨_, _, _, calls_cons_inline hk rfl, rfl, rfl, rfl, silent_calls ht _ _ _ _,
      fun hne => absurd hk hne, ?_⟩
    split_ifs
    · exact .inl rfl
    · refine .inr ⟨_, _, _, _, ?_, rfl⟩
      rfl
  · obtain ⟨c, hc, hcalls⟩ := calls_cons_leaf setting state before after openLinks takes hk
    have hkind : c.kind = t.kind := by rw [hc, Call.kind, kind_settle]
    have hlevel : c.sight.token.level = t.level := by rw [hc, level_settle]
    have hbefore : c.sight.before = before := by rw [hc]
    rcases hcalls with ⟨name, -, hcalls⟩ | ⟨-, hcalls⟩
    · exact ⟨c, [], [], hcalls, hbefore, hkind, hlevel, List.forall_mem_nil _, fun _ => rfl,
        .inl rfl⟩
    · exact ⟨c, [], _, hcalls, hbefore, hkind, hlevel, List.forall_mem_nil _, fun _ => rfl,
        .inr ⟨_, _, _, _, hkind, rfl⟩⟩

end Silence

/-- The items of a list that stands inside `level` constructs have one level, and what comes behind
it sees its end. -/
structure Ranked (ordered : Bool) (level depth : Nat) (cs : List Call) : Prop where
  items : ∀ item ∈ directItems depth cs, item.sight.token.level = some (level + 1)
  behind : ∀ next rest, behindList depth cs = next :: rest →
    preceding? next.sight.before = some (.closing (.list ordered)) ∧
      ∀ c, next.kind = .opening c → next.sight.token.level = some level

section Ranks

variable {setting : Setting} {ordered : Bool} {level depth : Nat} {tokens : List Token}
  {c : Call} {cs within : List Call}

theorem Ranked.nil : Ranked ordered level depth [] :=
  ⟨nofun, nofun⟩

theorem Ranked.of_eq {depth' : Nat} {ds : List Call} (h : Ranked ordered level depth' ds)
    (hitems : directItems depth cs = directItems depth' ds)
    (hbehind : behindList depth cs = behindList depth' ds) : Ranked ordered level depth cs :=
  ⟨hitems ▸ h.items, hbehind ▸ h.behind⟩

theorem Ranked.silent (hturn : c.kind.listTurn? = none)
    (hwithin : ∀ x ∈ within, x.kind.listTurn? = none) (h : Ranked ordered level depth cs) :
    Ranked ordered level depth (c :: (within ++ cs)) :=
  h.of_eq (by simp only [directItems, hturn, directItems_append_of_silent hwithin])
    (by simp only [behindList, hturn, behindList_append_of_silent hwithin])

theorem Ranked.opens {o : Bool} (hturn : c.kind.listTurn? = some (.opens o))
    (h : Ranked ordered level (depth + 1) cs) : Ranked ordered level depth (c :: cs) :=
  h.of_eq (by simp only [directItems, hturn]) (by simp only [behindList, hturn])

/-- The end of a list in the list. -/
theorem Ranked.closesInner (hturn : c.kind.listTurn? = some .closes)
    (h : Ranked ordered level depth cs) : Ranked ordered level (depth + 1) (c :: cs) :=
  h.of_eq (by simp only [directItems, hturn]) (by simp only [behindList, hturn])

/-- The end of the list itself. -/
theorem Ranked.closes (hturn : c.kind.listTurn? = some .closes)
    (h : ∀ next rest, cs = next :: rest →
      preceding? next.sight.before = some (.closing (.list ordered)) ∧
        ∀ c, next.kind = .opening c → next.sight.token.level = some level) :
    Ranked ordered level 0 (c :: cs) := by
  refine ⟨by simp [directItems, hturn], fun next rest hnext => h next rest ?_⟩
  simpa only [behindList, hturn] using hnext

theorem Ranked.item (hturn : c.kind.listTurn? = some .item)
    (hlevel : c.sight.token.level = some (level + 1)) (h : Ranked ordered level 0 cs) :
    Ranked ordered level 0 (c :: cs) := by
  refine ⟨?_, by simpa only [behindList, hturn] using h.behind⟩
  simp only [directItems, hturn]
  exact List.forall_mem_cons.2 ⟨hlevel, h.items⟩

/-- An item of a list in the list. -/
theorem Ranked.innerItem (hturn : c.kind.listTurn? = some .item)
    (h : Ranked ordered level (depth + 1) cs) : Ranked ordered level (depth + 1) (c :: cs) :=
  h.of_eq (by simp only [directItems, hturn]) (by simp only [behindList, hturn])

theorem isList_list (ordered : Bool) : isList (.list ordered) = true := by
  cases ordered <;> rfl

theorem isList_of_listTurn?_eq_none {c : Construct}
    (h : (Kind.opening c).listTurn? = none ∨ (Kind.closing c).listTurn? = none) :
    isList c = false := by
  cases c <;> first | rfl | simp [Kind.listTurn?] at h

/-- A token that is of no list and of no item leaves as many lists open as there were. -/
theorem exists_isShelved_of_silent {t : Token} {inner outer : List Construct}
    (hturn : t.kind.listTurn? = none)
    (h : isShelved (inner ++ .list ordered :: outer) (t :: tokens) = true) :
    ∃ inner', isShelved (inner' ++ .list ordered :: outer) tokens = true ∧
      inner'.countP isList = inner.countP isList := by
  rcases hk : t.kind with c | c | l | name <;> rw [hk] at hturn
  · simp only [isShelved, hk, Bool.and_eq_true] at h
    exact ⟨c :: inner, h.2, by simp [isList_of_listTurn?_eq_none (.inl hturn)]⟩
  · have hlist := isList_of_listTurn?_eq_none (.inr hturn)
    cases inner with
    | nil =>
      simp only [List.nil_append, isShelved, hk, Bool.and_eq_true, beq_iff_eq] at h
      rw [h.1, isList_list] at hlist
      cases hlist
    | cons d inner =>
      simp only [List.cons_append, isShelved, hk, Bool.and_eq_true, beq_iff_eq] at h
      exact ⟨inner, h.2, by simp [← h.1, hlist]⟩
  · simp only [isShelved, hk] at h
    exact ⟨inner, h, rfl⟩
  · simp only [isShelved, hk] at h
    exact ⟨inner, h, rfl⟩

/-- What comes directly behind the end of a list. -/
theorem ranked_end {outer : List Construct} {u : Token} (hu : u.kind = .closing (.list ordered))
    (hs : isShelved outer tokens = true) (hinline : ∀ t ∈ tokens, t.HoldsInline) {state : State}
    {before : List Token} {openLinks : Nat} {takes : Bool} {next : Call} {rest : List Call}
    (h : calls setting state (u :: before) openLinks takes tokens = next :: rest) :
    preceding? next.sight.before = some (.closing (.list ordered)) ∧
      ∀ c, next.kind = .opening c → next.sight.token.level = some outer.length := by
  cases tokens with
  | nil => simp [calls_nil] at h
  | cons t after =>
    obtain ⟨c, within, behind, hcalls, hbefore, hkind, hlevel, -⟩ :=
      exists_calls_cons (hinline t List.mem_cons_self) state (u :: before) after openLinks takes
    obtain rfl : c = next := (List.cons.inj (hcalls.symm.trans h)).1
    refine ⟨by rw [hbefore, ← hu]; rfl, fun k hk => ?_⟩
    simp only [isShelved, hkind.symm.trans hk, Bool.and_eq_true, beq_iff_eq] at hs
    rw [hlevel, hs.1.1]

/-- The calls behind the opening of a list: `inner` are the constructs that are open in it. -/
theorem ranked_calls (outer : List Construct) : ∀ (inner : List Construct) (state : State)
    (before : List Token) (openLinks : Nat) (takes : Bool),
    isShelved (inner ++ .list ordered :: outer) tokens = true → (∀ t ∈ tokens, t.HoldsInline) →
      Ranked ordered outer.length (inner.countP isList)
        (calls setting state before openLinks takes tokens) := by
  induction tokens with
  | nil =>
    intro inner state before openLinks takes _ _
    rw [calls_nil]
    exact .nil
  | cons t after ih =>
    intro inner state before openLinks takes hshelved hinline
    obtain ⟨ht, hafter⟩ := List.forall_mem_cons.1 hinline
    obtain ⟨c, within, behind, hcalls, -, hkind, hlevel, hwithin, hown, hbehind⟩ :=
      exists_calls_cons ht state before after openLinks takes
    have hrest : ∀ inner, isShelved (inner ++ .list ordered :: outer) after = true →
        Ranked ordered outer.length (inner.countP isList) behind := by
      intro inner hs
      rcases hbehind with rfl | ⟨_, _, _, _, -, rfl⟩
      · exact .nil
      · exact ih _ _ _ _ _ hs hafter
    rw [hcalls]
    rcases hturn : c.kind.listTurn? with _ | o | _ | _
    · obtain ⟨inner', hs, hcount⟩ := exists_isShelved_of_silent (hkind ▸ hturn) hshelved
      exact .silent hturn hwithin (hcount ▸ hrest inner' hs)
    · have hk : t.kind = .opening (.list o) := hkind ▸ listTurn?_eq_opens_iff.1 hturn
      obtain rfl := hown (by simp [hk])
      simp only [isShelved, hk, Bool.and_eq_true] at hshelved
      have hr := hrest (.list o :: inner) hshelved.2
      rw [List.countP_cons_of_pos (isList_list o)] at hr
      exact hr.opens hturn
    · obtain ⟨o, hk⟩ := listTurn?_eq_closes_iff.1 hturn
      rw [hkind] at hk
      obtain rfl := hown (by simp [hk])
      cases inner with
      | nil =>
        simp only [List.nil_append, isShelved, hk, Bool.and_eq_true, beq_iff_eq] at hshelved
        refine .closes hturn fun next rest hnext => ?_
        rcases hbehind with rfl | ⟨_, u, _, _, hu, rfl⟩
        · cases hnext
        · exact ranked_end (hu.trans (hshelved.1 ▸ hk)) hshelved.2 hafter hnext
      | cons d inner =>
        simp only [List.cons_append, isShelved, hk, Bool.and_eq_true, beq_iff_eq] at hshelved
        rw [List.countP_cons_of_pos (hshelved.1 ▸ isList_list o)]
        exact (hrest inner hshelved.2).closesInner hturn
    · have hk : t.kind = .opening .listItem := hkind ▸ listTurn?_eq_item_iff.1 hturn
      obtain rfl := hown (by simp [hk])
      simp only [isShelved, hk, Bool.and_eq_true, beq_iff_eq] at hshelved
      have hr := hrest (.listItem :: inner) hshelved.2
      rw [List.countP_cons_of_neg (by decide)] at hr
      cases inner with
      | nil =>
        refine .item hturn ?_ hr
        rw [hlevel, hshelved.1.1, List.nil_append, List.length_cons]
      | cons d inner =>
        have hd : isList d = true := by simpa using hshelved.1.2
        rw [List.countP_cons_of_pos hd] at hr ⊢
        exact hr.innerItem hturn

/-- A list of a document, wherever its opening is called for. -/
theorem exists_ranked {opening : Call} {rest : List Call}
    (hk : opening.kind = .opening (.list ordered)) : ∀ (opened : List Construct) (state : State)
    (before : List Token) (openLinks : Nat) (takes : Bool), isShelved opened tokens = true →
      (∀ t ∈ tokens, t.HoldsInline) →
      opening :: rest <:+ calls setting state before openLinks takes tokens →
      ∃ level, opening.sight.token.level = some level ∧ Ranked ordered level 0 rest := by
  induction tokens with
  | nil =>
    intro opened state before openLinks takes _ _ hsuffix
    simp [calls_nil] at hsuffix
  | cons t after ih =>
    intro opened state before openLinks takes hshelved hinline hsuffix
    obtain ⟨ht, hafter⟩ := List.forall_mem_cons.1 hinline
    obtain ⟨c, within, behind, hcalls, -, hkind, hlevel, hwithin, hown, hbehind⟩ :=
      exists_calls_cons ht state before after openLinks takes
    rw [hcalls] at hsuffix
    rcases List.suffix_cons_iff.1 hsuffix with heq | hsuffix
    · obtain ⟨rfl, rfl⟩ := List.cons.inj heq
      rw [hkind] at hk
      obtain rfl := hown (by simp [hk])
      simp only [isShelved, hk, Bool.and_eq_true, beq_iff_eq] at hshelved
      refine ⟨opened.length, hlevel.trans hshelved.1.1, ?_⟩
      rcases hbehind with rfl | ⟨_, _, _, _, -, rfl⟩
      · exact .nil
      · exact ranked_calls opened [] _ _ _ _ hshelved.2 hafter
    · have hsuffix := suffix_of_silent hwithin
        (by rw [listTurn?_eq_opens_iff.2 hk]; exact nofun) hsuffix
      obtain ⟨opened', hshelved⟩ := exists_isShelved_tail hshelved
      rcases hbehind with rfl | ⟨_, _, _, _, -, rfl⟩
      · simp at hsuffix
      · exact ih opened' _ _ _ _ hshelved hafter hsuffix

end Ranks

section Shifts

variable {setting : Setting} {state state' : State} {cs : List Call}

/-- The frame of a list is the one closed last where its closing has been called for. -/
theorem closedList_of_behindList (h : Runs setting state cs state') :
    ∀ (inner outer : List ListFrame) (frame : ListFrame), state.lists = inner ++ frame :: outer →
      ∀ (next : Call) (rest : List Call), behindList inner.length cs = next :: rest →
        ∃ n, next.state.closedList = some (frame.after n) := by
  induction h with
  | nil =>
    intro inner outer frame _ next rest hnext
    simp [behindList] at hnext
  | @cons c cs state state' hstate hrun ih =>
    subst hstate
    intro inner outer frame hlists next rest hnext
    rcases hturn : c.kind.listTurn? with _ | ordered | _ | _
    · simp only [behindList, hturn] at hnext
      exact ih inner outer frame ((lists_next_of_none hturn).trans hlists) next rest hnext
    · simp only [behindList, hturn] at hnext
      refine ih (c.frame ordered :: inner) outer frame ?_ next rest hnext
      rw [lists_next_of_opens hturn, hlists, List.cons_append]
    · cases inner with
      | nil =>
        simp only [List.length_nil, behindList, hturn] at hnext
        subst hnext
        cases hrun with
        | cons hstate _ =>
          refine ⟨0, ?_⟩
          rw [hstate, (lists_next_of_closes hturn).2, hlists, after_zero]
          rfl
      | cons f inner =>
        simp only [List.length_cons, behindList, hturn] at hnext
        refine ih inner outer frame ?_ next rest hnext
        rw [(lists_next_of_closes hturn).1, hlists]
        rfl
    · cases inner with
      | nil =>
        simp only [List.length_nil, behindList, hturn] at hnext
        obtain ⟨n, hn⟩ := ih [] outer (frame.after 1)
          (by rw [lists_next_of_item hturn, hlists]; rfl) next rest hnext
        exact ⟨1 + n, by rw [hn, after_after]⟩
      | cons f inner =>
        simp only [List.length_cons, behindList, hturn] at hnext
        refine ih (f.after 1 :: inner) outer frame ?_ next rest hnext
        rw [lists_next_of_item hturn, hlists]
        rfl

end Shifts

section Signs

variable {setting : Setting}

/-- What the marker of an item has apart from its ordinal: the bullet or the delimiter. -/
def Call.sign (setting : Setting) (c : Call) : Char :=
  (c.written setting).dropLast.getLastD ' '

theorem delimiter_ne {f g : ListFrame} (h : g.shift = f.shift + 1) : f.delimiter ≠ g.delimiter := by
  unfold ListFrame.delimiter
  rcases Nat.mod_two_eq_zero_or_one f.shift with hf | hf <;> simp [h, Nat.add_mod, hf]

theorem bulletsAt_disjoint (n : Nat) : ∀ b ∈ bulletsAt n, b ∉ bulletsAt (n + 1) := by
  have hn : n % 4 < 4 := Nat.mod_lt n (by decide)
  unfold bulletsAt
  rw [Nat.add_mod]
  interval_cases n % 4 <;> simp

theorem sign_of_ordered {c : Call} {f : ListFrame} (hk : c.kind = .opening .listItem)
    (hf : c.state.lists.head? = some f) (ho : f.ordered = true) : c.sign setting = f.delimiter := by
  rw [Call.sign, written_of_ordered hk hf ho, List.append_cons, List.dropLast_concat,
    List.getLastD_concat]

theorem sign_of_bullets {c : Call} {f : ListFrame} (hk : c.kind = .opening .listItem)
    (hf : c.state.lists.head? = some f) (ho : f.ordered = false) :
    c.sign setting ∈ bulletsAt (visualLevel c.sight.token.level + f.shift) := by
  have hordinal : c.isOrdinal = false := by simp [Call.isOrdinal, hf, ho]
  have hshift : c.shift = f.shift := by simp [Call.shift, hf]
  rw [Call.sign, written_of_bullets hk hordinal, hshift]
  exact bullet_mem setting.options c.sight f.shift

/-- A list that begins directly behind another one of its kind is shifted by one more. -/
theorem shift_frame {opening : Call} {ordered : Bool} {closed : ListFrame}
    (hclosed : opening.state.closedList = some closed) (ho : closed.ordered = ordered)
    (hbefore : preceding? opening.sight.before = some (.closing (.list ordered)))
    (hlevel : closed.level = opening.sight.token.level) :
    (opening.frame ordered).shift = closed.shift + 1 := by
  simp [Call.frame, hclosed, ho, hbefore, hlevel]

/-- No item of a list has the bullet or the delimiter of an item of the list of the same kind that
stands directly behind it, whether the items are bylines and whatever is inside them. -/
theorem sign_ne_of_behindList {source : Text} {ordered : Bool} {opening opening' : Call}
    {rest rest' : List Call} (h : opening :: rest <:+ callsAll setting (tokenize source))
    (hk : opening.kind = .opening (.list ordered))
    (hbehind : behindList 0 rest = opening' :: rest')
    (hk' : opening'.kind = .opening (.list ordered)) :
    ∀ a ∈ directItems 0 rest, ∀ b ∈ directItems 0 rest', a.sign setting ≠ b.sign setting := by
  obtain ⟨state', hrun⟩ := exists_runs_callsAll setting (tokenize source)
  have hshelved := isShelved_ofDocument (Document.ofText source)
  have hinline := holdsInline_ofDocument (Document.ofText source)
  have h' : opening' :: rest' <:+ callsAll setting (tokenize source) :=
    (hbehind ▸ behindList_suffix 0 rest).trans ((List.suffix_cons _ _).trans h)
  obtain ⟨level, hlevel, hranked⟩ := exists_ranked hk [] {} [] 0 false hshelved hinline h
  obtain ⟨level', hlevel', hranked'⟩ := exists_ranked hk' [] {} [] 0 false hshelved hinline h'
  obtain ⟨hpreceding, hopening⟩ := hranked.behind _ _ hbehind
  obtain rfl : level' = level := Option.some.inj (hlevel'.symm.trans (hopening _ hk'))
  -- The frames of the two lists
  have hlists := @lists_next_of_opens setting _ _ (listTurn?_eq_opens_iff.2 hk)
  have hlists' := @lists_next_of_opens setting _ _ (listTurn?_eq_opens_iff.2 hk')
  obtain ⟨n, hclosed⟩ := closedList_of_behindList (hrun.of_suffix h) [] _ _ hlists _ _ hbehind
  have hshift : (opening'.frame ordered).shift = (opening.frame ordered).shift + 1 := by
    rw [shift_frame hclosed (by rw [ordered_after]; rfl) hpreceding
      (by rw [level_after, hlevel']; exact hlevel), shift_after]
  intro a ha b hb
  obtain ⟨i, hi⟩ := List.mem_iff_getElem?.1 ha
  obtain ⟨j, hj⟩ := List.mem_iff_getElem?.1 hb
  obtain ⟨hka, hheada⟩ := head?_lists_of_directItems (hrun.of_suffix h) [] _ _ hlists i a hi
  obtain ⟨hkb, hheadb⟩ := head?_lists_of_directItems (hrun.of_suffix h') [] _ _ hlists' j b hj
  cases ordered with
  | true =>
    rw [sign_of_ordered hka hheada (by rw [ordered_after]; rfl),
      sign_of_ordered hkb hheadb (by rw [ordered_after]; rfl), delimiter_after, delimiter_after]
    exact delimiter_ne hshift
  | false =>
    have hsigna := @sign_of_bullets setting _ _ hka hheada (by rw [ordered_after]; rfl)
    have hsignb := @sign_of_bullets setting _ _ hkb hheadb (by rw [ordered_after]; rfl)
    rw [hranked.items a ha, shift_after] at hsigna
    rw [hranked'.items b hb, shift_after, hshift, ← Nat.add_assoc] at hsignb
    exact fun heq => bulletsAt_disjoint _ _ hsigna (heq ▸ hsignb)

/-- A byline and an item that holds a list, before a list with a byline of its own. -/
theorem sign_ne_of_behindList_bylines :
    ∃ opening rest opening' rest', opening :: rest <:+ callsAll (.ofOptions { username := some "me" })
        (tokenize "* [a](https://github.com/me)\n* b\n  1. c\n\n+ d\n  * e\n+ [f](https://github.com/me)") ∧
      opening.kind = .opening .bulletList ∧ behindList 0 rest = opening' :: rest' ∧
      opening'.kind = .opening .bulletList ∧
      (directItems 0 rest).map (·.sign (.ofOptions { username := some "me" })) = ['+', '*'] ∧
      (directItems 0 rest').map (·.sign (.ofOptions { username := some "me" })) = ['-', '-'] ∧
      ∀ a ∈ directItems 0 rest, ∀ b ∈ directItems 0 rest',
        a.sign (.ofOptions { username := some "me" }) ≠
          b.sign (.ofOptions { username := some "me" }) := by
  generalize hcs : callsAll (.ofOptions { username := some "me" })
    (tokenize "* [a](https://github.com/me)\n* b\n  1. c\n\n+ d\n  * e\n+ [f](https://github.com/me)") =
      cs
  have hrun : cs.head?.map (·.kind) = some (.opening .bulletList) ∧
      (behindList 0 cs.tail).head?.map (·.kind) = some (.opening .bulletList) ∧
      (directItems 0 cs.tail).map (·.sign (.ofOptions { username := some "me" })) = ['+', '*'] ∧
      (directItems 0 (behindList 0 cs.tail).tail).map
        (·.sign (.ofOptions { username := some "me" })) = ['-', '-'] := by
    rw [← hcs]
    decide +kernel
  obtain ⟨hkind, hkind', hsigns, hsigns'⟩ := hrun
  obtain ⟨opening, hopening, hk⟩ := Option.map_eq_some_iff.1 hkind
  obtain ⟨rest, rfl⟩ := List.head?_eq_some_iff.1 hopening
  obtain ⟨opening', hopening', hk'⟩ := Option.map_eq_some_iff.1 hkind'
  obtain ⟨rest', hbehind⟩ := List.head?_eq_some_iff.1 hopening'
  rw [List.tail_cons] at hbehind hsigns hsigns'
  rw [hbehind] at hsigns'
  exact ⟨opening, rest, opening', rest', List.suffix_refl _, hk, hbehind, hk', hsigns, hsigns',
    @sign_ne_of_behindList _ _ false _ _ _ _ ⟨[], hcs.symm⟩ hk hbehind hk'⟩

end Signs

end TidyMark.Render
