import TidyMark.Proofs.InlineWalk

/-!
# The grid of a table

The bars of a table are written by twelve rules, each of which looks at its neighbours and at what
the rules before it have left in the state. Together they write a grid: a row for the header, a row
for how the columns are aligned and a row for each row of the body, whatever has been rendered
before, and every cell as its content is written by itself (`written_tableAt`).

A stretch of tokens is argued about by what it writes and by where the walk goes on behind it
(`WritesFrom`): one lemma for a token, one for a cell, and from them the cells of a row, the rows
and the table. Cells of the header and of the body differ in where their bars stand, so what is said
of them is said with the kind of the cell as a parameter (`lead`, `tail`).
-/

namespace TidyMark.Render

open Token Markdown

/-- A row of a grid. -/
def gridRow (cells : List Text) : Text :=
  "| " ++ Text.join " | " cells ++ " |\n"

/-- The part of a table in which a row of header cells or of data cells stands. -/
def rowInside (cell : Construct) : Inside :=
  { table := true, head := cell == .headerCell, row := true }

/-- The part of a table in which the content of a cell stands. -/
def cellInside (cell : Construct) : Inside :=
  { rowInside cell with headerCell := cell == .headerCell }

/-- What cells come to, each by itself. -/
def cellTexts (setting : Setting) (cell : Construct) (row : List (List Inline)) : List Text :=
  row.map (cellText setting (cellInside cell))

/-- How the column at each cell of the header is aligned. -/
def columns (aligns : List (Option Align)) (header : List (List Inline)) : List (Option Align) :=
  header.zipIdx.map fun (_, i) => (aligns[i]?).join

/-- A table as a grid, with the blank line behind it. -/
def grid (setting : Setting) (aligns : List (Option Align)) (header : List (List Inline))
    (rows : List (List (List Inline))) : Text :=
  gridRow (cellTexts setting .headerCell header) ++
    gridRow ((columns aligns header).map alignMarker) ++
    rows.flatMap (fun row => gridRow (cellTexts setting .dataCell row)) ++ ['\n']

/-- Where a walk goes on: the state and the tokens before. -/
abbrev Place := State × List Token

/-- Whether the walk gives each of these tokens a piece, with this text in all, and goes on with
those after them at another place. -/
def WritesFrom (setting : Setting) (openLinks : Nat) (takes : Bool) (tokens after : List Token)
    (p : Place) (written : Text) (q : Place) : Prop :=
  ∃ pieces : List Piece, pieces.length = tokens.length ∧ pieces.flatMap (·.text) = written ∧
    (walk setting p.1 p.2 openLinks takes (tokens ++ after)).pieces =
      pieces ++ (walk setting q.1 q.2 openLinks false after).pieces

section Stretches

variable {setting : Setting} {openLinks : Nat} {takes : Bool} {tokens tokens' after : List Token}
  {p q r : Place} {written written' : Text} {state state' state'' : State} {before : List Token}

theorem writesFrom_nil : WritesFrom setting openLinks false [] after p [] p :=
  ⟨[], rfl, rfl, rfl⟩

theorem WritesFrom.append
    (h : WritesFrom setting openLinks takes tokens (tokens' ++ after) p written q)
    (h' : WritesFrom setting openLinks false tokens' after q written' r) :
    WritesFrom setting openLinks takes (tokens ++ tokens') after p (written ++ written') r := by
  obtain ⟨pieces, hlength, htext, hwalk⟩ := h
  obtain ⟨pieces', hlength', htext', hwalk'⟩ := h'
  refine ⟨pieces ++ pieces', ?_, ?_, ?_⟩
  · rw [List.length_append, List.length_append, hlength, hlength']
  · rw [List.flatMap_append, htext, htext']
  · rw [List.append_assoc, hwalk, hwalk', List.append_assoc]

theorem writesFrom_token {t : Token} {c : Construct}
    (hk : t.kind = .opening c ∨ t.kind = .closing c) (hc : c ≠ .link)
    (h : rule setting state ⟨before, t, after, openLinks⟩ = (state', written)) :
    WritesFrom setting openLinks takes [t] after (state, before) written (state', t :: before) :=
  ⟨[⟨.ofKind t.kind, written⟩], rfl, List.append_nil _, pieces_walk_cons hk hc h⟩

/-- Enclosed tokens write what they write between what the enclosing ones do. -/
theorem writesFrom_enclose {depth : Nat} {c : Construct} (hc : c ≠ .link) {w w' : Text}
    {opening closing : Token} (hopening : opening = { kind := .opening c, level := some depth })
    (hclosing : closing = { kind := .closing c, level := some depth })
    (hopen : rule setting state ⟨before, opening, tokens ++ closing :: after, openLinks⟩ =
      (state', w))
    (h : WritesFrom setting openLinks false tokens (closing :: after) (state', opening :: before)
      written q)
    (hclose : rule setting q.1 ⟨q.2, closing, after, openLinks⟩ = (state'', w')) :
    WritesFrom setting openLinks takes (enclose depth c {} tokens) after (state, before)
      (w ++ (written ++ w')) (state'', closing :: q.2) := by
  have hwhole : enclose depth c {} tokens = [opening] ++ (tokens ++ [closing]) := by
    rw [hopening, hclosing]
    rfl
  have hend : WritesFrom setting openLinks false [closing] after q w' (state'', closing :: q.2) :=
    writesFrom_token (.inr (by rw [hclosing])) hc hclose
  rw [hwhole]
  refine WritesFrom.append (writesFrom_token (.inl (by rw [hopening])) hc ?_) (h.append hend)
  rw [List.append_assoc]
  exact hopen

end Stretches

section Cells

variable {setting : Setting} {openLinks : Nat} {after before : List Token} {state : State}
  {cell : Construct} {aligns : List (Option Align)} {depth : Nat}

/-- What stands before the content of a cell. Header cells have their bars behind them. -/
def lead (cell : Construct) (before : List Token) : Text :=
  if cell == .headerCell then []
  else if preceding? before == some (.opening .tableRow) then "| " else " | "

/-- What stands behind the content of a cell. -/
def tail (cell : Construct) (after : List Token) : Text :=
  cellEnd (if cell == .headerCell then " | " else []) after

/-- The cells of the header say how the columns are aligned. -/
def recorded (cell : Construct) (known new : List (Option Align)) : List (Option Align) :=
  if cell == .headerCell then known ++ new else known

theorem writesFrom_inlineAt (depth : Nat) (xs : List Inline) :
    ∃ q : Place, q.1.inside = state.inside ∧ q.1.aligns = state.aligns ∧
      WritesFrom setting openLinks false (inlineAt depth xs) after (state, before)
        (cellText setting state.inside xs) q := by
  obtain ⟨hwritten, hinside, haligns, hstop⟩ := @walk_cell setting state xs
  let t : Token := leafAt depth (Token.inline (ofInlines [] xs))
  let t' : Token := { t with children := (walk setting state [] 0 false t.children).tokens }
  have hwalk := @walk_cons_inline setting state before after openLinks false t rfl _ _ rfl hstop rfl
  refine ⟨((walk setting state [] 0 false t.children).state, t' :: before), hinside, haligns,
    [⟨.plain, cellText setting state.inside xs⟩], rfl, List.append_nil _, ?_⟩
  rw [← hwritten]
  exact congrArg Walk.pieces hwalk

theorem writesFrom_cell (hcell : cell = .headerCell ∨ cell = .dataCell)
    (hinside : state.inside = rowInside cell) (align : Option Align) (xs : List Inline) :
    ∃ q : Place, (q.1.inside = rowInside cell ∧
        q.1.aligns = recorded cell state.aligns [align] ∧
        preceding? q.2 = some (.closing cell)) ∧
      WritesFrom setting openLinks false (cellAt depth cell align xs) after (state, before)
        (lead cell before ++ (cellText setting (cellInside cell) xs ++ tail cell after)) q := by
  let opening : Token := { kind := .opening cell, level := some depth, align }
  let closing : Token := { kind := .closing cell, level := some depth }
  have hlink : cell ≠ .link := by rcases hcell with rfl | rfl <;> decide
  -- the opening token notes the alignment of a header cell, and that its content begins
  obtain ⟨state', hopen, hinside', haligns'⟩ : ∃ state',
      rule setting state ⟨before, opening, inlineAt (depth + 1) xs ++ closing :: after, openLinks⟩ =
        (state', lead cell before) ∧
      state'.inside = cellInside cell ∧ state'.aligns = recorded cell state.aligns [align] := by
    rcases hcell with rfl | rfl
    · refine ⟨_, rfl, ?_, ?_⟩
      · simp only [hinside]
        rfl
      · simp only [hinside]
        rfl
    · exact ⟨state, rfl, hinside, rfl⟩
  obtain ⟨q, hq, haligns, hcontent⟩ := @writesFrom_inlineAt setting openLinks (closing :: after)
    (opening :: before) state' (depth + 1) xs
  rw [hinside'] at hq hcontent
  obtain ⟨state'', hclose, hinside'', haligns''⟩ : ∃ state'',
      rule setting q.1 ⟨q.2, closing, after, openLinks⟩ = (state'', tail cell after) ∧
      state''.inside = rowInside cell ∧ state''.aligns = q.1.aligns := by
    rcases hcell with rfl | rfl
    · refine ⟨_, rfl, ?_, rfl⟩
      simp only [hq]
      rfl
    · exact ⟨q.1, rfl, hq, rfl⟩
  refine ⟨(state'', closing :: q.2), ⟨hinside'', haligns''.trans (haligns.trans haligns'), rfl⟩, ?_⟩
  have hwhole : cellAt depth cell align xs =
      [opening] ++ (inlineAt (depth + 1) xs ++ [closing]) := rfl
  rw [hwhole]
  refine WritesFrom.append (writesFrom_token (.inl rfl) hlink ?_)
    (hcontent.append (writesFrom_token (.inr rfl) hlink hclose))
  rw [List.append_assoc]
  exact hopen

/-- Between two cells stands one bar, whichever of them writes it. -/
theorem tail_append_lead (hcell : cell = .headerCell ∨ cell = .dataCell)
    (hafter : following? after = some (.opening cell))
    (hbefore : preceding? before = some (.closing cell)) :
    tail cell after ++ lead cell before = " | " := by
  unfold tail cellEnd lead
  rw [hafter, hbefore]
  rcases hcell with rfl | rfl <;> rfl

theorem tail_of_rowEnd (h : following? after = some (.closing .tableRow)) :
    tail cell after = " |" := by
  unfold tail cellEnd
  rw [h]
  rfl

theorem writesFrom_cells (hcell : cell = .headerCell ∨ cell = .dataCell)
    (hafter : following? after = some (.closing .tableRow)) {cells : List (List Inline × Nat)}
    (hne : cells ≠ []) (hinside : state.inside = rowInside cell) :
    ∃ q : Place, (q.1.inside = rowInside cell ∧
        q.1.aligns = recorded cell state.aligns (cells.map fun (_, i) => (aligns[i]?).join)) ∧
      WritesFrom setting openLinks false
        (cells.flatMap fun (xs, i) => cellAt depth cell (aligns[i]?.join) xs) after (state, before)
        (lead cell before ++ (Text.join " | " (cellTexts setting cell (cells.map Prod.fst)) ++ " |"))
        q := by
  induction cells generalizing state before with
  | nil => exact absurd rfl hne
  | cons x cells ih =>
    obtain ⟨xs, i⟩ := x
    cases cells with
    | nil =>
      obtain ⟨q, ⟨hq, haligns, -⟩, hwrites⟩ := @writesFrom_cell setting openLinks after before
        state cell depth hcell hinside (aligns[i]?.join) xs
      rw [tail_of_rowEnd hafter] at hwrites
      refine ⟨q, ⟨hq, haligns⟩, ?_⟩
      rw [List.flatMap_cons, List.flatMap_nil, List.append_nil]
      exact hwrites
    | cons y cells =>
      set rest := (y :: cells).flatMap fun (xs, i) => cellAt depth cell (aligns[i]?.join) xs
        with hrest
      obtain ⟨q, ⟨hq, haligns, hlast⟩, hwrites⟩ := @writesFrom_cell setting openLinks
        (rest ++ after) before state cell depth hcell hinside (aligns[i]?.join) xs
      obtain ⟨r, ⟨hr, haligns'⟩, hwrites'⟩ := @ih q.2 q.1 (List.cons_ne_nil _ _) hq
      refine ⟨r, ⟨hr, ?_⟩, ?_⟩
      · rw [haligns', haligns]
        unfold recorded
        split_ifs
        · simp
        · rfl
      · have hnext : following? (rest ++ after) = some (.opening cell) := rfl
        have hbar := tail_append_lead hcell hnext hlast
        have htext := hwrites.append hwrites'
        simp only [List.append_assoc] at htext
        rw [← List.append_assoc (tail cell _), hbar] at htext
        rw [List.flatMap_cons, List.map_cons, List.map_cons, cellTexts, List.map_cons, List.map_cons,
          Text.join]
        simpa only [List.append_assoc, cellTexts, List.map_cons] using htext

end Cells

section Rows

variable {setting : Setting} {openLinks : Nat} {after before : List Token} {state : State}
  {cell : Construct} {aligns : List (Option Align)}

/-- The part of a table in which a row stands. -/
def tableInside (cell : Construct) : Inside :=
  { table := true, head := cell == .headerCell }

theorem writesFrom_rowAt (hcell : cell = .headerCell ∨ cell = .dataCell) (depth : Nat)
    {row : List (List Inline)} (hne : row ≠ []) (hinside : state.inside = tableInside cell) :
    ∃ q : Place, (q.1.inside = tableInside cell ∧
        q.1.aligns = recorded cell state.aligns (columns aligns row)) ∧
      WritesFrom setting openLinks false (rowAt depth cell aligns row) after (state, before)
        ((if cell == .headerCell then [] else "| ".toList) ++
          (Text.join " | " (cellTexts setting cell row) ++ " |\n")) q := by
  let opening : Token := { kind := .opening .tableRow, level := some depth }
  let closing : Token := { kind := .closing .tableRow, level := some depth }
  let state' : State := { state with inside := { state.inside with row := true } }
  have hinside' : state'.inside = rowInside cell := by
    simp only [state', hinside]
    rfl
  obtain ⟨q, ⟨hq, haligns'⟩, hcells⟩ := @writesFrom_cells setting openLinks (closing :: after)
    (opening :: before) state' cell aligns (depth + 1) hcell rfl row.zipIdx
    (by simpa using hne) hinside'
  let state'' : State := { q.1 with inside := { q.1.inside with row := false } }
  have hopen : ∀ after, rule setting state ⟨before, opening, after, openLinks⟩ = (state', []) :=
    fun _ => rfl
  have hclose : rule setting q.1 ⟨q.2, closing, after, openLinks⟩ = (state'', ['\n']) := rfl
  refine ⟨(state'', closing :: q.2), ⟨?_, haligns'⟩, ?_⟩
  · simp only [state'', hq]
    rfl
  · have hrow : WritesFrom setting openLinks false _ after (state, before) _ _ :=
      writesFrom_enclose (c := .tableRow) (by decide) rfl rfl (hopen _) hcells hclose
    have htext : lead cell (opening :: before) =
        if cell == .headerCell then [] else "| ".toList := rfl
    rw [List.zipIdx_map_fst, List.nil_append, htext, List.append_assoc, List.append_assoc] at hrow
    exact hrow

theorem writesFrom_rows (depth : Nat) {rows : List (List (List Inline))}
    (hne : ∀ row ∈ rows, row ≠ []) (hinside : state.inside = tableInside .dataCell) :
    ∃ q : Place, (q.1.inside = tableInside .dataCell ∧ q.1.aligns = state.aligns) ∧
      WritesFrom setting openLinks false (rows.flatMap (rowAt depth .dataCell aligns)) after
        (state, before) (rows.flatMap fun row => gridRow (cellTexts setting .dataCell row)) q := by
  induction rows generalizing state before with
  | nil => exact ⟨(state, before), ⟨hinside, rfl⟩, writesFrom_nil⟩
  | cons row rows ih =>
    obtain ⟨hrow, hrows⟩ := List.forall_mem_cons.1 hne
    obtain ⟨q, ⟨hq, haligns⟩, hwrites⟩ := @writesFrom_rowAt setting openLinks
      (rows.flatMap (rowAt depth .dataCell aligns) ++ after) before state .dataCell aligns
      (.inr rfl) depth row hrow hinside
    obtain ⟨r, ⟨hr, haligns'⟩, hwrites'⟩ := @ih q.2 q.1 hrows hq
    refine ⟨r, ⟨hr, haligns'.trans haligns⟩, ?_⟩
    rw [List.flatMap_cons, List.flatMap_cons]
    exact hwrites.append hwrites'

end Rows

section Tables

variable {setting : Setting} {openLinks : Nat} {after before : List Token} {state : State}
  {aligns : List (Option Align)}

/-- The header. How the columns are aligned is written behind it unless the body does that. -/
theorem writesFrom_tableHead (depth : Nat) {header : List (List Inline)} (hne : header ≠ [])
    (hinside : state.inside = { table := true }) (haligns : state.aligns = []) :
    ∃ q : Place, (q.1.inside = { table := true } ∧ q.1.aligns = columns aligns header) ∧
      WritesFrom setting openLinks false
        (enclose depth .tableHead {} (rowAt (depth + 1) .headerCell aligns header)) after
        (state, before) (gridRow (cellTexts setting .headerCell header) ++
          if following? after == some (.opening .tableBody) then []
          else alignmentRow (columns aligns header)) q := by
  let opening : Token := { kind := .opening .tableHead, level := some depth }
  let closing : Token := { kind := .closing .tableHead, level := some depth }
  let state' : State := { state with inside := { state.inside with head := true } }
  have hinside' : state'.inside = tableInside .headerCell := by
    simp only [state', hinside]
    rfl
  obtain ⟨q, ⟨hq, hcolumns⟩, hrow⟩ := @writesFrom_rowAt setting openLinks (closing :: after)
    (opening :: before) state' .headerCell aligns (.inl rfl) (depth + 1) header hne hinside'
  have hknown : q.1.aligns = columns aligns header := by
    rw [hcolumns]
    simp only [state', haligns]
    rfl
  let state'' : State := { q.1 with inside := { q.1.inside with head := false } }
  have hopen : ∀ after, rule setting state ⟨before, opening, after, openLinks⟩ =
      (state', "| ".toList) := fun _ => rfl
  have hclose : rule setting q.1 ⟨q.2, closing, after, openLinks⟩ = (state'',
      if following? after == some (.opening .tableBody) then [] else alignmentRow q.1.aligns) := rfl
  rw [hknown] at hclose
  refine ⟨(state'', closing :: q.2), ⟨?_, hknown⟩, ?_⟩
  · simp only [state'', hq]
    rfl
  · have hhead : WritesFrom setting openLinks false _ after (state, before) _ _ :=
      writesFrom_enclose (c := .tableHead) (by decide) rfl rfl (hopen _) hrow hclose
    rw [if_pos (by rfl), List.nil_append, ← List.append_assoc] at hhead
    rw [gridRow, List.append_assoc "| ".toList]
    exact hhead

/-- The body, before which it is written how the columns are aligned. -/
theorem writesFrom_tableBody (depth : Nat) {rows : List (List (List Inline))}
    (hne : ∀ row ∈ rows, row ≠ []) (hinside : state.inside = { table := true }) :
    ∃ q : Place, q.1.inside = { table := true } ∧
      WritesFrom setting openLinks false
        (enclose depth .tableBody {} (rows.flatMap (rowAt (depth + 1) .dataCell aligns))) after
        (state, before) (alignmentRow state.aligns ++
          rows.flatMap fun row => gridRow (cellTexts setting .dataCell row)) q := by
  let opening : Token := { kind := .opening .tableBody, level := some depth }
  let closing : Token := { kind := .closing .tableBody, level := some depth }
  obtain ⟨q, ⟨hq, -⟩, hrows⟩ := @writesFrom_rows setting openLinks (closing :: after)
    (opening :: before) state aligns (depth + 1) rows hne hinside
  have hopen : ∀ after, rule setting state ⟨before, opening, after, openLinks⟩ =
      (state, alignmentRow state.aligns) := fun _ => rfl
  have hclose : rule setting q.1 ⟨q.2, closing, after, openLinks⟩ = (q.1, []) := rfl
  refine ⟨(q.1, closing :: q.2), hq, ?_⟩
  have hbody : WritesFrom setting openLinks false _ after (state, before) _ _ :=
    writesFrom_enclose (c := .tableBody) (by decide) rfl rfl (hopen _) hrows hclose
  rw [List.append_nil] at hbody
  exact hbody

/-- The header and the body, if there is one. -/
theorem writesFrom_inTable (depth : Nat) {header : List (List Inline)}
    {rows : List (List (List Inline))} (hheader : header ≠ []) (hrows : ∀ row ∈ rows, row ≠ [])
    (hinside : state.inside = { table := true }) (haligns : state.aligns = [])
    (hafter : following? after = some (.closing .table)) :
    ∃ q : Place, WritesFrom setting openLinks false
      (enclose depth .tableHead {} (rowAt (depth + 1) .headerCell aligns header) ++
        if rows.isEmpty then []
        else enclose depth .tableBody {} (rows.flatMap (rowAt (depth + 1) .dataCell aligns)))
      after (state, before) (gridRow (cellTexts setting .headerCell header) ++
        (alignmentRow (columns aligns header) ++
          rows.flatMap fun row => gridRow (cellTexts setting .dataCell row))) q := by
  cases rows with
  | nil =>
    obtain ⟨q, -, hhead⟩ := @writesFrom_tableHead setting openLinks after before state aligns depth
      header hheader hinside haligns
    refine ⟨q, ?_⟩
    rw [hafter, if_neg (by decide)] at hhead
    rw [List.isEmpty_nil, if_pos rfl, List.append_nil, List.flatMap_nil, List.append_nil]
    exact hhead
  | cons row rows =>
    set body := enclose depth .tableBody {}
      ((row :: rows).flatMap (rowAt (depth + 1) .dataCell aligns)) with hbody
    obtain ⟨q, ⟨hq, hcolumns⟩, hhead⟩ := @writesFrom_tableHead setting openLinks (body ++ after)
      before state aligns depth header hheader hinside haligns
    obtain ⟨r, -, hwrites⟩ := @writesFrom_tableBody setting openLinks after q.2 q.1 aligns depth
      (row :: rows) hrows hq
    refine ⟨r, ?_⟩
    have hnext : following? (body ++ after) = some (.opening .tableBody) := rfl
    rw [hnext, if_pos (by rfl), List.append_nil] at hhead
    rw [hcolumns] at hwrites
    rw [List.isEmpty_cons, if_neg Bool.false_ne_true]
    exact hhead.append hwrites

/-- The rules of a table write its grid, whatever has been rendered before it: each token of the
table writes a piece, the pieces together are the grid, and the walk goes on behind the table. What
the cells come to may even have line breaks. -/
theorem written_tableAt (setting : Setting) (state : State) (before after : List Token)
    (openLinks : Nat) (takes : Bool) (depth : Nat) (aligns : List (Option Align))
    {header : List (List Inline)} {rows : List (List (List Inline))} (hheader : header ≠ [])
    (hrows : ∀ row ∈ rows, row.length = header.length) :
    ∃ (pieces : List Piece) (state' : State) (before' : List Token),
      (walk setting state before openLinks takes (tableAt depth aligns header rows ++ after)).pieces =
          pieces ++ (walk setting state' before' openLinks false after).pieces ∧
        pieces.length = (tableAt depth aligns header rows).length ∧
        pieces.flatMap (·.text) = grid setting aligns header rows := by
  have hne : ∀ row ∈ rows, row ≠ [] := fun row hrow =>
    List.ne_nil_of_length_pos (hrows row hrow ▸ List.length_pos_iff.2 hheader)
  let opening : Token := { kind := .opening .table, level := some depth }
  let closing : Token := { kind := .closing .table, level := some depth }
  let state' : State := { state with aligns := [], inside := { table := true } }
  obtain ⟨q, hinside⟩ := @writesFrom_inTable setting openLinks (closing :: after)
    (opening :: before) state' aligns (depth + 1) header rows hheader hne rfl rfl rfl
  have hopen : ∀ after, rule setting state ⟨before, opening, after, openLinks⟩ = (state', []) :=
    fun _ => rfl
  have hclose : rule setting q.1 ⟨q.2, closing, after, openLinks⟩ =
      ({ q.1 with inside := {} }, ['\n']) := rfl
  have htable : WritesFrom setting openLinks takes _ after (state, before) _ _ :=
    writesFrom_enclose (c := .table) (by decide) rfl rfl (hopen _) hinside hclose
  obtain ⟨pieces, hlength, htext, hwalk⟩ := htable
  refine ⟨pieces, _, _, hwalk, hlength, ?_⟩
  rw [htext, grid, List.nil_append]
  simp only [List.append_assoc]
  rfl

/-- A table of two columns behind one whose only column is aligned to the right. -/
theorem written_tableAt_behind_table :
    let state := (walkAll (.ofOptions {}) (tableAt 0 [some .right] [[.text "x"]] [])).state
    let header : List (List Inline) := [[.text "a"], [.strong [.text "b|c"]]]
    let rows : List (List (List Inline)) := [[[.code "d"], []]]
    let tokens := tableAt 0 [none, some .center] header rows
    header ≠ [] ∧ (∀ row ∈ rows, row.length = header.length) ∧
      grid (.ofOptions {}) [none, some .center] header rows =
        "| a | **b\\|c** |\n| --- | :---: |\n| `d` |  |\n\n".toList ∧
      ∃ (pieces : List Piece) (state' : State) (before' : List Token),
        (walk (.ofOptions {}) state [] 0 false (tokens ++ [])).pieces =
            pieces ++ (walk (.ofOptions {}) state' before' 0 false []).pieces ∧
          pieces.length = tokens.length ∧
          pieces.flatMap (·.text) = grid (.ofOptions {}) [none, some .center] header rows :=
  ⟨nofun, by decide, by decide, written_tableAt _ _ _ _ _ _ _ _ nofun (by decide)⟩

end Tables

end TidyMark.Render
