import Mathlib.Data.List.Basic
import TidyMark.Proofs.Plan

/-!
# The grammar of token streams

What may stand directly before a token is little (`follows`), and the stream of a document keeps to
it throughout, with its quotes and items balanced (`isAlong_ofDocument`, `isBalanced_ofDocument`).
The proof goes over the tree of the document: the tokens of blocks, of items, of rows and so on are
`Part`s, which may stand one behind another and between an opening and a closing token.
-/

namespace TidyMark.Render

open Token Markdown

/-- Whether blocks may begin directly behind a token that opens something. -/
def holdsBlocks (t : Token) : Bool :=
  match t.kind with
  | .opening .blockquote | .opening .listItem | .opening .descriptionDetails
  | .opening .footnote => true
  | _ => false

/-- Whether a token is the last one of a block. -/
def endsBlock (t : Token) : Bool :=
  match t.kind with
  | .closing .paragraph | .closing .heading | .closing .blockquote | .closing .bulletList
  | .closing .orderedList | .closing .table | .closing .descriptionList
  | .leaf .fence | .leaf .code | .leaf .htmlBlock | .leaf .rule => true
  | _ => false

/-- Whether a block may begin behind these tokens, the nearest of which is the first. -/
def startsBlock (before : List Token) : Bool :=
  before.head?.all fun p => holdsBlocks p || endsBlock p

/-- Whether a token of one of these kinds stands directly before. -/
def isBehind (kinds : List Kind) (before : List Token) : Bool :=
  (preceding? before).any fun k => kinds.contains k

/-- Whether a token may stand behind these tokens, the nearest of which is the first. -/
def follows (before : List Token) (t : Token) : Bool :=
  match t.kind with
  | .opening .listItem | .closing .bulletList | .closing .orderedList =>
    isBehind [.opening .bulletList, .opening .orderedList, .closing .listItem] before
  | k => !isBehind [.closing .listItem] before &&
    match k with
    | .opening .heading | .opening .table | .leaf .rule | .leaf .htmlBlock => startsBlock before
    | .leaf .code => t.block
    | .closing .listItem => before.head?.any fun p => p.kind == .opening .listItem || endsBlock p
    | .opening .tableHead => isBehind [.opening .table] before
    | .opening .tableBody => isBehind [.closing .tableHead] before
    | .opening .tableRow =>
      isBehind [.opening .tableHead, .opening .tableBody, .closing .tableRow] before
    | .opening .dataCell =>
      !isBehind [.opening .tableRow] before || !isBehind [.opening .tableHead] before.tail
    | .closing .tableHead => isBehind [.closing .tableRow] before
    | .closing .tableBody => isBehind [.opening .tableBody, .closing .tableRow] before
    | .closing .table => isBehind [.closing .tableHead, .closing .tableBody] before
    | .opening .descriptionDetails =>
      isBehind [.opening .descriptionList, .closing .descriptionTerm,
        .closing .descriptionDetails] before
    | .opening .footnote => isBehind [.opening .footnoteBlock, .closing .footnote] before
    | .opening .paragraph | .closing .paragraph | .closing .heading | .opening .blockquote
    | .closing .blockquote | .opening .bulletList | .opening .orderedList | .closing .tableRow
    | .opening .headerCell | .closing .headerCell | .closing .dataCell | .opening .footnoteBlock
    | .closing .footnoteBlock | .closing .footnote | .opening .descriptionList
    | .closing .descriptionList | .opening .descriptionTerm | .closing .descriptionTerm
    | .closing .descriptionDetails | .leaf .inline | .leaf .fence | .leaf .footnoteAnchor => true
    | _ => false

/-- Whether something holds of each token and the tokens before it. -/
def isAlong (p : List Token → Token → Bool) (before : List Token) : List Token → Bool
  | [] => true
  | t :: rest => p before t && isAlong p (t :: before) rest

theorem isAlong_append (p : List Token → Token → Bool) (before ts us : List Token) :
    isAlong p before (ts ++ us) = (isAlong p before ts && isAlong p (ts.reverse ++ before) us) := by
  induction ts generalizing before with
  | nil => rfl
  | cons t ts ih => simp [isAlong, ih, Bool.and_assoc]

/-- The grammar knows no other kinds than those of the vocabulary. -/
theorem ne_unknown_of_isAlong {before tokens : List Token}
    (h : isAlong follows before tokens = true) :
    ∀ t ∈ tokens, ∀ name, t.kind ≠ .unknown name := by
  induction tokens generalizing before with
  | nil => exact nofun
  | cons t tokens ih =>
    rw [isAlong, Bool.and_eq_true] at h
    refine List.forall_mem_cons.2 ⟨fun name hk => ?_, ih h.2⟩
    simp [follows, hk] at h

theorem frameTurns_append (ts us : List Token) :
    frameTurns (ts ++ us) = frameTurns ts ++ frameTurns us :=
  List.filterMap_append

/-- Tokens that keep to the grammar behind certain tokens, with nothing left open, and the last of
which is a certain one. -/
structure Part (first : List Token → Bool) (last : Token → Bool) (tokens : List Token) : Prop where
  along : ∀ before, first before = true → isAlong follows before tokens = true
  ends : ∀ t ∈ tokens.getLast?, last t = true
  closed : ∀ frames rest, isBalanced frames (frameTurns tokens ++ rest) = isBalanced frames rest

section Parts

variable {first first' : List Token → Bool} {last last' : Token → Bool} {ts us : List Token}

theorem Part.nil : Part first last [] :=
  ⟨fun _ _ => rfl, fun _ h => (by cases h), fun _ _ => rfl⟩

theorem Part.single {t : Token} (hfollows : ∀ before, first before = true → follows before t = true)
    (hlast : last t = true) (hturn : (Role.ofKind t.kind).turn? = none) : Part first last [t] where
  along before h := by simp [isAlong, hfollows before h]
  ends t' h := by
    cases h
    exact hlast
  closed frames rest := by simp [frameTurns, hturn]

theorem Part.append (h : ∀ t before, last t = true → first (t :: before) = true)
    (hts : Part first last ts) (hus : Part first last us) : Part first last (ts ++ us) where
  along before hb := by
    rw [isAlong_append, hts.along before hb, Bool.true_and]
    refine hus.along _ ?_
    rcases ts.eq_nil_or_concat with rfl | ⟨ts, t, rfl⟩
    · exact hb
    · rw [List.concat_eq_append, List.reverse_concat]
      exact h t _ (hts.ends t (by simp))
  ends t ht := by
    rcases us.eq_nil_or_concat with rfl | ⟨us, u, rfl⟩
    · rw [List.append_nil] at ht
      exact hts.ends t ht
    · rw [List.getLast?_append_of_ne_nil _ (by simp)] at ht
      exact hus.ends t ht
  closed frames rest := by
    rw [frameTurns_append, List.append_assoc, hts.closed, hus.closed]

/-- Whether two tokens open and close a frame, or neither turns anything. -/
def arePair (opening closing : Token) : Bool :=
  match (Role.ofKind opening.kind).turn?, (Role.ofKind closing.kind).turn? with
  | some (.opens k), some (.closes k') => k == k'
  | none, none => true
  | _, _ => false

/-- A part between an opening and a closing token. -/
theorem Part.enclosed {opening closing : Token} (h : Part first' last' ts)
    (hopen : ∀ before, first before = true → follows before opening = true)
    (hfirst : ∀ before, first before = true → first' (opening :: before) = true)
    (hempty : ts = [] → ∀ before, follows (opening :: before) closing = true)
    (hclose : ∀ t before, last' t = true → follows (t :: before) closing = true)
    (hlast : last closing = true) (hpair : arePair opening closing = true) :
    Part first last (opening :: (ts ++ [closing])) where
  along before hb := by
    rw [isAlong, hopen before hb, Bool.true_and, isAlong_append, h.along _ (hfirst before hb),
      Bool.true_and, isAlong, isAlong, Bool.and_true]
    rcases ts.eq_nil_or_concat with rfl | ⟨ts, t, rfl⟩
    · exact hempty rfl before
    · rw [List.concat_eq_append, List.reverse_concat]
      exact hclose t _ (h.ends t (by simp))
  ends t ht := by
    rw [← List.cons_append, List.getLast?_concat] at ht
    cases ht
    exact hlast
  closed frames rest := by
    have hcons : ∀ (t : Token) (us : List Token),
        frameTurns (t :: us) = (Role.ofKind t.kind).turn?.toList ++ frameTurns us := by
      intro t us
      rw [frameTurns, List.filterMap_cons, ← frameTurns]
      cases (Role.ofKind t.kind).turn? <;> rfl
    rw [hcons, frameTurns_append, hcons, List.append_assoc, List.append_assoc]
    unfold arePair at hpair
    split at hpair
    · next k k' hk hk' =>
      obtain rfl := eq_of_beq hpair
      simp only [hk, hk', Option.toList_some, List.singleton_append, isBalanced]
      rw [h.closed]
      simp [isBalanced, frameTurns]
    · next hk hk' =>
      rw [hk, hk', Option.toList_none, List.nil_append, h.closed]
      rfl
    · cases hpair

theorem Part.flatMap {α : Type} {f : α → List Token}
    (h : ∀ t before, last t = true → first (t :: before) = true)
    (hf : ∀ x, Part first last (f x)) (xs : List α) : Part first last (xs.flatMap f) := by
  induction xs with
  | nil => exact .nil
  | cons x xs ih => exact .append h (hf x) ih

/-- Two parts of different kinds, the second of which may stand behind the first. -/
theorem Part.join (hts : Part first last ts) (hus : Part first' last' us) (hne : ts ≠ [])
    (hne' : us ≠ []) (h : ∀ t before, last t = true → first' (t :: before) = true) :
    Part first last' (ts ++ us) where
  along before hb := by
    rw [isAlong_append, hts.along before hb, Bool.true_and]
    refine hus.along _ ?_
    rcases ts.eq_nil_or_concat with rfl | ⟨ts, t, rfl⟩
    · exact absurd rfl hne
    · rw [List.concat_eq_append, List.reverse_concat]
      exact h t _ (hts.ends t (by simp))
  ends t ht := by
    rw [List.getLast?_append_of_ne_nil _ hne'] at ht
    exact hus.ends t ht
  closed frames rest := by
    rw [frameTurns_append, List.append_assoc, hts.closed, hus.closed]

theorem Part.mono (h : Part first last ts) (hfirst : ∀ before, first' before = true → first before = true)
    (hlast : ∀ t, last t = true → last' t = true) : Part first' last' ts :=
  ⟨fun before hb => h.along before (hfirst before hb), fun t ht => hlast t (h.ends t ht), h.closed⟩

end Parts

section Kinds

@[simp] theorem isBehind_cons (kinds : List Kind) (t : Token) (before : List Token) :
    isBehind kinds (t :: before) = kinds.contains t.kind :=
  rfl

@[simp] theorem startsBlock_cons (t : Token) (before : List Token) :
    startsBlock (t :: before) = (holdsBlocks t || endsBlock t) :=
  rfl

/-- Whether no item has just ended. -/
def offItem (before : List Token) : Bool :=
  !isBehind [.closing .listItem] before

def isOf (kinds : List Kind) (t : Token) : Bool :=
  kinds.contains t.kind

theorem offItem_of_isBehind {kinds : List Kind} (h : Kind.closing .listItem ∉ kinds)
    {before : List Token} (hb : isBehind kinds before = true) : offItem before = true := by
  rcases before with _ | ⟨t, before⟩
  · cases hb
  · have ht : t.kind ∈ kinds := by simpa using hb
    have hne : t.kind ≠ .closing .listItem := fun he => h (he ▸ ht)
    simp [offItem, hne]

theorem ne_of_endsBlock {t : Token} (h : endsBlock t = true) : t.kind ≠ .closing .listItem := by
  intro hk
  simp [endsBlock, hk] at h

theorem offItem_of_startsBlock {before : List Token} (h : startsBlock before = true) :
    offItem before = true := by
  rcases before with _ | ⟨t, before⟩
  · rfl
  · by_cases hk : t.kind = .closing .listItem
    · simp [holdsBlocks, endsBlock, hk] at h
    · simp [offItem, hk]

end Kinds

section Blocks

variable (depth : Nat)

theorem part_inlineAt (xs : List Inline) : Part offItem (isOf [.leaf .inline]) (inlineAt depth xs) :=
  .single (fun before h => by simpa [follows, leafAt, Token.inline, offItem] using h) rfl rfl

theorem part_paragraphAt (tight : Bool) (xs : List Inline) :
    Part offItem endsBlock (paragraphAt depth tight xs) :=
  .enclosed (part_inlineAt _ xs) (fun before h => by simpa [follows, offItem] using h)
    (fun _ _ => rfl) (fun h => by simp [inlineAt] at h)
    (fun t before h => by
      have ht : t.kind = .leaf .inline := by simpa [isOf] using h
      simp [follows, ht])
    rfl rfl

theorem part_block {t : Token} (hfollows : ∀ before, startsBlock before = true → follows before t = true)
    (hlast : endsBlock t = true) (hturn : (Role.ofKind t.kind).turn? = none) :
    Part startsBlock endsBlock [t] :=
  .single hfollows hlast hturn

theorem part_headerCell (align : Option Align) (xs : List Inline) :
    Part offItem (isOf [.closing .headerCell]) (cellAt depth .headerCell align xs) :=
  .enclosed (part_inlineAt _ xs) (fun before h => by simpa [follows, offItem] using h)
    (fun _ _ => rfl) (fun h => by simp [inlineAt] at h)
    (fun t before h => by
      have ht : t.kind = .leaf .inline := by simpa [isOf] using h
      simp [follows, ht])
    rfl rfl

/-- Whether a cell of the body of a table may stand behind these tokens. -/
def startsCell (before : List Token) : Bool :=
  isBehind [.closing .dataCell] before ||
    isBehind [.opening .tableRow] before && !isBehind [.opening .tableHead] before.tail

theorem part_dataCell (align : Option Align) (xs : List Inline) :
    Part startsCell (isOf [.closing .dataCell]) (cellAt depth .dataCell align xs) :=
  .enclosed (part_inlineAt _ xs)
    (fun before h => by
      rcases before with _ | ⟨t, before⟩
      · cases h
      · have ht : t.kind = .closing .dataCell ∨
            t.kind = .opening .tableRow ∧ isBehind [.opening .tableHead] before = false := by
          simpa [startsCell] using h
        rcases ht with ht | ⟨ht, hb⟩
        · simp [follows, ht]
        · simp [follows, ht, hb])
    (fun _ _ => rfl) (fun h => by simp [inlineAt] at h)
    (fun t before h => by
      have ht : t.kind = .leaf .inline := by simpa [isOf] using h
      simp [follows, ht])
    rfl rfl

theorem part_rowAt {cell : Construct} (aligns : List (Option Align)) (row : List (List Inline))
    {first first' : List Token → Bool} {last' : Token → Bool}
    (hcell : ∀ align xs, Part first' last' (cellAt (depth + 1) cell align xs))
    (hfirst : ∀ before, first before = true →
      isBehind [.opening .tableHead, .opening .tableBody, .closing .tableRow] before = true)
    (hfirst' : ∀ t before, first before = true → t.kind = .opening .tableRow →
      first' (t :: before) = true)
    (hnext : ∀ t before, last' t = true → first' (t :: before) = true ∧
      t.kind ≠ .closing .listItem) :
    Part first (isOf [.closing .tableRow]) (rowAt depth cell aligns row) := by
  refine .enclosed (.flatMap (fun t before h => (hnext t before h).1) ?_ _) ?_
    (fun before h => hfirst' _ before h rfl) (fun _ _ => rfl) ?_ rfl rfl
  · exact fun ⟨xs, i⟩ => hcell _ xs
  · intro before h
    have hoff := offItem_of_isBehind (by decide) (hfirst before h)
    simp only [offItem] at hoff
    simp [follows, hoff, hfirst before h]
  · intro t before h
    have ht := (hnext t before h).2
    simp [follows, ht]

theorem kind_of_isOf {k : Kind} {t : Token} (h : isOf [k] t = true) : t.kind = k := by
  simpa [isOf] using h

theorem isBehind_mono {kinds kinds' : List Kind} (h : kinds ⊆ kinds') {before : List Token}
    (hb : isBehind kinds before = true) : isBehind kinds' before = true := by
  rcases before with _ | ⟨t, before⟩
  · cases hb
  · rw [isBehind_cons, List.contains_iff_mem] at hb ⊢
    exact h hb

theorem part_headerRow (aligns : List (Option Align)) (row : List (List Inline)) :
    Part (isBehind [.opening .tableHead]) (isOf [.closing .tableRow])
      (rowAt depth .headerCell aligns row) := by
  refine part_rowAt depth aligns row (part_headerCell _) (fun _ => isBehind_mono (by simp)) ?_ ?_
  · intro t before _ ht
    simp [offItem, ht]
  · intro t before ht
    simp [offItem, kind_of_isOf ht]

theorem part_dataRow (aligns : List (Option Align)) (row : List (List Inline)) :
    Part (isBehind [.opening .tableBody, .closing .tableRow]) (isOf [.closing .tableRow])
      (rowAt depth .dataCell aligns row) := by
  refine part_rowAt depth aligns row (part_dataCell _) (fun _ => isBehind_mono (by simp)) ?_ ?_
  · intro t before hb ht
    rcases before with _ | ⟨u, before⟩
    · cases hb
    · have hu : u.kind = .opening .tableBody ∨ u.kind = .closing .tableRow := by simpa using hb
      rcases hu with hu | hu <;> simp [startsCell, ht, hu]
  · intro t before ht
    simp [startsCell, kind_of_isOf ht]

theorem part_tableHead (aligns : List (Option Align)) (header : List (List Inline)) :
    Part (isBehind [.opening .table]) (isOf [.closing .tableHead])
      (enclose depth .tableHead {} (rowAt (depth + 1) .headerCell aligns header)) := by
  refine .enclosed (part_headerRow _ aligns header) (fun before h => ?_) (fun _ _ => rfl) ?_ ?_ rfl
    rfl
  · have hoff := offItem_of_isBehind (by decide) h
    simp only [offItem] at hoff
    simp [follows, hoff, h]
  · intro h
    simp [rowAt, enclose] at h
  · intro t before ht
    simp [follows, kind_of_isOf ht]

theorem part_tableBody (aligns : List (Option Align)) (rows : List (List (List Inline))) :
    Part (isBehind [.closing .tableHead]) (isOf [.closing .tableBody])
      (enclose depth .tableBody {} (rows.flatMap (rowAt (depth + 1) .dataCell aligns))) := by
  refine .enclosed (.flatMap ?_ (part_dataRow _ aligns) rows) (fun before h => ?_) (fun _ _ => rfl)
    (fun _ _ => rfl) ?_ rfl rfl
  · intro t before ht
    simp [kind_of_isOf ht]
  · have hoff := offItem_of_isBehind (by decide) h
    simp only [offItem] at hoff
    simp [follows, hoff, h]
  · intro t before ht
    simp [follows, kind_of_isOf ht]

theorem part_tableAt (aligns : List (Option Align)) (header : List (List Inline))
    (rows : List (List (List Inline))) :
    Part startsBlock endsBlock (tableAt depth aligns header rows) := by
  have hinside : Part (isBehind [.opening .table]) (isOf [.closing .tableHead, .closing .tableBody])
      (enclose (depth + 1) .tableHead {} (rowAt (depth + 2) .headerCell aligns header) ++
        if rows.isEmpty then []
        else enclose (depth + 1) .tableBody {}
          (rows.flatMap (rowAt (depth + 2) .dataCell aligns))) := by
    have hhead := part_tableHead (depth + 1) aligns header
    split_ifs
    · rw [List.append_nil]
      exact hhead.mono (fun _ h => h) fun t ht => by simp [isOf, kind_of_isOf ht]
    · refine (hhead.join (part_tableBody (depth + 1) aligns rows) (by simp [enclose])
        (by simp [enclose]) fun t before ht => ?_).mono (fun _ h => h) fun t ht => ?_
      · simp [kind_of_isOf ht]
      · simp [isOf, kind_of_isOf ht]
  refine .enclosed hinside (fun before h => ?_) (fun _ _ => rfl) ?_ ?_ rfl rfl
  · have hoff := offItem_of_startsBlock h
    simp only [offItem] at hoff
    simp [follows, hoff, h]
  · intro h
    simp [enclose] at h
  · intro t before ht
    have ht : t.kind = .closing .tableHead ∨ t.kind = .closing .tableBody := by
      simpa [isOf] using ht
    rcases ht with ht | ht <;> simp [follows, ht]

mutual

theorem part_ofBlock (depth : Nat) (tight : Bool) :
    ∀ b : Block (List Inline), Part startsBlock endsBlock (ofBlock depth tight b)
  | .paragraph xs => by
    rw [ofBlock]
    exact (part_paragraphAt depth tight xs).mono (fun _ => offItem_of_startsBlock) fun _ h => h
  | .heading level xs => by
    rw [ofBlock]
    refine .enclosed (part_inlineAt _ xs) (fun before h => ?_) (fun _ _ => rfl)
      (fun h => by simp [inlineAt] at h) (fun t before h => ?_) rfl rfl
    · have hoff := offItem_of_startsBlock h
      simp only [offItem] at hoff
      simp [follows, hoff, h]
    · simp [follows, kind_of_isOf h]
  | .quote body => by
    rw [ofBlock]
    refine .enclosed (part_ofBlocks (depth + 1) false body) (fun before h => ?_) (fun _ _ => rfl)
      (fun _ _ => rfl) (fun t before h => ?_) rfl rfl
    · simpa [follows, offItem] using offItem_of_startsBlock h
    · simp [follows, ne_of_endsBlock h]
  | .list kind tight items => by
    rw [ofBlock]
    refine .enclosed (part_ofItems (depth + 1) tight items) (fun before h => ?_) (fun before h => ?_)
      (fun _ before => ?_) (fun t before h => ?_) ?_ ?_
    · cases kind <;> simpa [follows, offItem, listConstruct] using offItem_of_startsBlock h
    · cases kind <;> rfl
    · cases kind <;> rfl
    · cases kind <;> simp [follows, listConstruct, kind_of_isOf h]
    · cases kind <;> rfl
    · cases kind <;> rfl
  | .fence info literal => by
    rw [ofBlock]
    exact part_block (fun before h => by
      simpa [follows, leafAt, offItem] using offItem_of_startsBlock h) rfl rfl
  | .indented literal => by
    rw [ofBlock]
    exact part_block (fun before h => by
      simpa [follows, leafAt, offItem] using offItem_of_startsBlock h) rfl rfl
  | .html literal => by
    rw [ofBlock]
    refine part_block (fun before h => ?_) rfl rfl
    have hoff := offItem_of_startsBlock h
    simp only [offItem] at hoff
    simp [follows, leafAt, hoff, h]
  | .rule => by
    rw [ofBlock]
    refine part_block (fun before h => ?_) rfl rfl
    have hoff := offItem_of_startsBlock h
    simp only [offItem] at hoff
    simp [follows, leafAt, ofKind, hoff, h]
  | .table aligns header rows => by
    rw [ofBlock]
    exact part_tableAt depth aligns header rows
  | .footnote name body => by
    rw [ofBlock]
    exact .nil
  | .descriptions items => by
    rw [ofBlock]
    refine .enclosed (part_ofDescriptions (depth + 1) items) (fun before h => ?_) (fun _ _ => rfl)
      (fun _ _ => rfl) (fun t before h => ?_) rfl rfl
    · simpa [follows, offItem] using offItem_of_startsBlock h
    · simp [follows, kind_of_isOf h]

theorem part_ofBlocks (depth : Nat) (tight : Bool) :
    ∀ bs : List (Block (List Inline)), Part startsBlock endsBlock (ofBlocks depth tight bs)
  | [] => by
    rw [ofBlocks]
    exact .nil
  | b :: bs => by
    rw [ofBlocks]
    exact .append (fun t before h => by simp [h]) (part_ofBlock depth tight b)
      (part_ofBlocks depth tight bs)

theorem part_ofItems (depth : Nat) (tight : Bool) : ∀ items : List (Item (List Inline)),
    Part (isBehind [.opening .bulletList, .opening .orderedList, .closing .listItem])
      (isOf [.closing .listItem]) (ofItems depth tight items)
  | [] => by
    rw [ofItems]
    exact .nil
  | .mk body :: items => by
    rw [ofItems]
    refine .append (fun t before h => by simp [kind_of_isOf h]) ?_ (part_ofItems depth tight items)
    refine .enclosed (part_ofBlocks (depth + 1) tight body) (fun before h => ?_) (fun _ _ => rfl)
      (fun _ _ => rfl) (fun t before h => ?_) rfl rfl
    · simpa [follows] using h
    · simp [follows, ne_of_endsBlock h, h]

theorem part_ofDescriptions (depth : Nat) : ∀ items : List (Description (List Inline)),
    Part (isBehind [.opening .descriptionList, .closing .descriptionDetails])
      (isOf [.closing .descriptionDetails]) (ofDescriptions depth items)
  | [] => by
    rw [ofDescriptions]
    exact .nil
  | .mk tight term details :: items => by
    unfold ofDescriptions
    refine .append (fun t before h => by simp [kind_of_isOf h]) ?_ (part_ofDescriptions depth items)
    have hdetails : Part (isBehind [.opening .descriptionList, .closing .descriptionTerm,
        .closing .descriptionDetails]) (isOf [.closing .descriptionDetails])
        (enclose depth .descriptionDetails {} (ofBlocks (depth + 1) true details)) := by
      refine .enclosed (part_ofBlocks (depth + 1) true details) (fun before h => ?_)
        (fun _ _ => rfl) (fun _ _ => rfl) (fun t before h => ?_) rfl rfl
      · have hoff := offItem_of_isBehind (by decide) h
        simp only [offItem] at hoff
        simp [follows, hoff, h]
      · simp [follows, ne_of_endsBlock h]
    rcases term with _ | xs
    · exact hdetails.mono (fun _ => isBehind_mono (by simp)) fun _ h => h
    · have hterm : Part (isBehind [.opening .descriptionList, .closing .descriptionDetails])
          (isOf [.closing .descriptionTerm])
          (enclose depth .descriptionTerm {} (paragraphAt (depth + 1) true xs)) := by
        refine .enclosed (part_paragraphAt (depth + 1) true xs) (fun before h => ?_)
          (fun _ _ => rfl) (fun _ _ => rfl) (fun t before h => ?_) rfl rfl
        · have hoff := offItem_of_isBehind (by decide) h
          simp only [offItem] at hoff
          simp [follows, hoff]
        · simp [follows, ne_of_endsBlock h]
      exact hterm.join hdetails (by simp [enclose]) (by simp [enclose]) fun t before h => by
        simp [kind_of_isOf h]

end

end Blocks

section Childless

/-- A token without its children, which the grammar does not look at. -/
def childless (t : Token) : Token :=
  { t with children := [] }

theorem isBehind_childless (kinds : List Kind) (before : List Token) :
    isBehind kinds (before.map childless) = isBehind kinds before := by
  cases before <;> rfl

theorem follows_childless (before : List Token) (t : Token) :
    follows (before.map childless) (childless t) = follows before t := by
  have hstarts : startsBlock (before.map childless) = startsBlock before := by
    cases before <;> rfl
  have hlast : ((before.map childless).head?.any fun p => p.kind == .opening .listItem || endsBlock p) =
      before.head?.any fun p => p.kind == .opening .listItem || endsBlock p := by
    cases before <;> rfl
  have htail : isBehind [.opening .tableHead] (before.map childless).tail =
      isBehind [.opening .tableHead] before.tail := by
    rw [← List.map_tail, isBehind_childless]
  simp only [follows, isBehind_childless, hstarts, hlast, htail]
  rfl

theorem isAlong_childless (before ts : List Token) :
    isAlong follows (before.map childless) (ts.map childless) = isAlong follows before ts := by
  induction ts generalizing before with
  | nil => rfl
  | cons t ts ih =>
    have h := ih (t :: before)
    rw [List.map_cons] at h
    rw [List.map_cons, isAlong, isAlong, follows_childless, h]

theorem frameTurns_childless (ts : List Token) : frameTurns (ts.map childless) = frameTurns ts := by
  rw [frameTurns, List.filterMap_map]
  rfl

theorem Part.of_childless {first : List Token → Bool} {ts us : List Token} (h : Part first endsBlock ts)
    (he : us.map childless = ts.map childless) : Part first endsBlock us where
  along before hb := by
    rw [← isAlong_childless, he, isAlong_childless]
    exact h.along before hb
  ends t ht := by
    have hlast : (ts.map childless).getLast? = some (childless t) := by
      rw [← he, List.getLast?_map, ht]
      rfl
    rw [List.getLast?_map, Option.map_eq_some_iff] at hlast
    obtain ⟨u, hu, hut⟩ := hlast
    have hblock : endsBlock (childless u) = endsBlock (childless t) := by rw [hut]
    exact hblock.symm.trans (h.ends u hu)
  closed frames rest := by
    rw [← frameTurns_childless, he, frameTurns_childless]
    exact h.closed frames rest

theorem childless_anchorFirst? (anchor : Token) : ∀ {ts us : List Token},
    anchorFirst? anchor ts = some us → us.map childless = ts.map childless
  | [], us, h => by cases h
  | t :: ts, us, h => by
    rw [anchorFirst?] at h
    split_ifs at h
    · cases h
      rfl
    · obtain ⟨us, hus, rfl⟩ := Option.map_eq_some_iff.1 h
      rw [List.map_cons, List.map_cons, childless_anchorFirst? anchor hus]

theorem part_withAnchor (depth id : Nat) {body : List Token} (h : Part startsBlock endsBlock body) :
    Part startsBlock (fun t => endsBlock t || isOf [.leaf .footnoteAnchor] t)
      (withAnchor depth id body) := by
  unfold withAnchor
  dsimp only
  split
  · next reversed hr =>
    refine (h.of_childless ?_).mono (fun _ h => h) fun t ht => by simp [ht]
    rw [List.map_reverse, childless_anchorFirst? _ hr, List.map_reverse, List.reverse_reverse]
  · have hanchor : Part offItem (isOf [.leaf .footnoteAnchor])
        [leafAt depth { kind := .leaf .footnoteAnchor, id }] :=
      .single (fun before h => by simpa [follows, leafAt, offItem] using h) rfl rfl
    have hlast : ∀ t, isOf [.leaf .footnoteAnchor] t = true →
        (endsBlock t || isOf [.leaf .footnoteAnchor] t) = true := fun t ht => by simp [ht]
    by_cases hne : body = []
    · rw [hne]
      exact hanchor.mono (fun _ => offItem_of_startsBlock) hlast
    · exact (h.join hanchor hne (by simp) fun t before ht =>
        offItem_of_startsBlock (by simp [ht])).mono (fun _ h => h) hlast

end Childless

section Documents

theorem part_ofNote (depth : Nat) (note : Note) (id : Nat) :
    Part (isBehind [.opening .footnoteBlock, .closing .footnote]) (isOf [.closing .footnote])
      (ofNote depth note id) := by
  refine .enclosed (part_withAnchor (depth + 1) id (part_ofBlocks (depth + 1) true note.body))
    (fun before h => ?_) (fun _ _ => rfl) (fun _ _ => rfl) (fun t before h => ?_) rfl rfl
  · have hoff := offItem_of_isBehind (by decide) h
    simp only [offItem] at hoff
    simp [follows, hoff, h]
  · rcases Bool.or_eq_true_iff.1 h with h | h
    · simp [follows, ne_of_endsBlock h]
    · simp [follows, kind_of_isOf h]

theorem part_ofNotes (notes : List Note) :
    Part startsBlock (isOf [.closing .footnoteBlock]) (ofNotes notes) := by
  unfold ofNotes
  split_ifs
  · exact .nil
  · refine .enclosed (.flatMap ?_ (fun x : Note × Nat => part_ofNote 1 x.1 x.2) _)
      (fun before h => ?_) (fun _ _ => rfl) (fun _ _ => rfl) (fun t before h => ?_) rfl rfl
    · intro t before h
      simp [kind_of_isOf h]
    · simpa [follows, offItem] using offItem_of_startsBlock h
    · simp [follows, kind_of_isOf h]

/-- Every token of a document stands where it may. -/
theorem isAlong_ofDocument (d : Document) : isAlong follows [] (ofDocument d) = true := by
  have hbody := part_ofBlocks 0 false d.body
  rw [ofDocument, isAlong_append, hbody.along [] rfl, Bool.true_and, List.append_nil]
  refine (part_ofNotes d.notes).along _ ?_
  rcases hlast : (ofBlocks 0 false d.body).reverse with _ | ⟨t, ts⟩
  · rfl
  · have hends := hbody.ends t (by simp [← List.head?_reverse, hlast])
    simp [hends]

theorem isBalanced_ofDocument (d : Document) :
    isBalanced [] (frameTurns (ofDocument d)) = true := by
  have h := (part_ofBlocks 0 false d.body).closed [] (frameTurns (ofNotes d.notes))
  have hnotes := (part_ofNotes d.notes).closed [] []
  rw [List.append_nil] at hnotes
  rw [ofDocument, frameTurns_append, h, hnotes]
  rfl

end Documents

end TidyMark.Render
