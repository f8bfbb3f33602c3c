import DevicetreeFormat.Proofs.Table.FixedPoint
import Mathlib.Algebra.BigOperators.Group.Finset.Basic
import Mathlib.Data.Finset.Lattice.Fold
import Mathlib.Order.Lattice.Nat

/-!
# The columns of a binding table

A grid is cut into rows, measured by columns and written row by row, and all three
agree on where a cell stands: each column to the left of it takes its longest cell
and three spaces, whatever the row holds there. So a column begins at the same
position in every line, and what is not a cell is a space. Taking the blanks off
the end of a line takes nothing from a cell, because no binding ends in a blank.
-/

namespace DevicetreeFormat.Table

set_option autoImplicit false

open Text

/-- The cell of a grid in a row and a column, blank outside of the grid. -/
def cellAt (grid : List String) (rowSize row column : Nat) : String :=
  grid[row * rowSize + column]?.getD ""

/-- The length of the longest cell of a column. -/
def columnSpan (grid : List String) (rowSize rowCount column : Nat) : Nat :=
  (Finset.range rowCount).sup fun row => (cellAt grid rowSize row column).toList.length

/-- Where a column begins behind the indentation. -/
def columnStart (width : Nat → Nat) (column : Nat) : Nat :=
  ∑ before ∈ Finset.range column, (width before + 3)

/-- A line that shows each cell of a row from the start of its column on. -/
structure Aligned (indentation : String) (width : Nat → Nat) (row : List String)
    (line : String) : Prop where
  shown : ∀ column cell, row[column]? = some cell → ∀ index < cell.toList.length,
    line.toList[indentation.toList.length + columnStart width column + index]? = cell.toList[index]?
  -- Outside of the cells and behind the indentation there are spaces.
  spaces : ∀ position c, indentation.toList.length ≤ position → line.toList[position]? = some c →
    (∀ column cell, row[column]? = some cell →
      position < indentation.toList.length + columnStart width column ∨
        indentation.toList.length + columnStart width column + cell.toList.length ≤ position) → c = ' '
  stripped : ∀ c ∈ line.toList.getLast?, isBlank c = false

/-! ### Rows and columns of a grid -/

theorem pieces_eq_rows {α : Type} {size : Nat} (sized : 0 < size) (count : Nat) {items : List α}
    (whole : items.length = count * size) :
    pieces size items = (List.range count).map fun row => (items.drop (row * size)).take size := by
  induction count generalizing items with
  | zero =>
      have empty : items = [] := List.eq_nil_of_length_eq_zero (by omega)
      rw [empty, pieces_nil]
      rfl
  | succ count induction =>
      have filled : items ≠ [] := by
        rintro rfl
        rw [List.length_nil, Nat.succ_mul] at whole
        omega
      have rest : (items.drop size).length = count * size := by
        rw [List.length_drop, whole, Nat.succ_mul]
        omega
      rw [pieces_of_ne_nil sized filled, induction rest, List.range_succ_eq_map, List.map_cons,
        List.map_map, Nat.zero_mul, List.drop_zero]
      congr 1
      apply List.map_congr_left
      intro row _
      rw [List.drop_drop, Function.comp_apply, Nat.succ_mul, Nat.add_comm size]

section

variable {grid : List String} {rowSize rowCount : Nat} (whole : grid.length = rowCount * rowSize)

include whole

theorem row_eq_cells {row : Nat} (inside : row < rowCount) :
    (grid.drop (row * rowSize)).take rowSize = (List.range rowSize).map (cellAt grid rowSize row) := by
  have bounded : row * rowSize + rowSize ≤ grid.length := by
    rw [whole, ← Nat.succ_mul]
    exact Nat.mul_le_mul_right rowSize inside
  apply List.ext_getElem?
  intro column
  rw [List.getElem?_take, List.getElem?_map]
  by_cases short : column < rowSize
  · have found := List.getElem?_eq_getElem (l := grid) (i := row * rowSize + column) (by omega)
    rw [if_pos short, List.getElem?_range short, List.getElem?_drop, Option.map_some, cellAt, found]
    rfl
  · rw [if_neg short, List.getElem?_eq_none (by simpa using short)]
    rfl

theorem pieces_eq_cells (sized : 0 < rowSize) :
    pieces rowSize grid =
      (List.range rowCount).map fun row => (List.range rowSize).map (cellAt grid rowSize row) := by
  rw [pieces_eq_rows sized rowCount whole]
  apply List.map_congr_left
  intro row member
  exact row_eq_cells whole (List.mem_range.mp member)

theorem column_eq_cells {index : Nat} (inside : index < rowSize) :
    column grid rowSize index = (List.range rowCount).map fun row => cellAt grid rowSize row index := by
  have cell : ∀ row, ((List.range rowSize).map (cellAt grid rowSize row))[index]? =
      some (cellAt grid rowSize row index) := by
    intro row
    rw [List.getElem?_map, List.getElem?_range inside, Option.map_some]
  rw [column, pieces_eq_cells whole (by omega), List.filterMap_map, ← List.filterMap_eq_map]
  apply List.filterMap_congr
  intro row _
  exact cell row

end

theorem widest_eq_sup (count : Nat) (cell : Nat → String) :
    widest ((List.range count).map cell) =
      (Finset.range count).sup fun row => (cell row).toList.length := by
  apply Nat.le_antisymm
  · rw [widest]
    cases measured : (((List.range count).map cell).map fun cell => cell.toList.length).max? with
    | none => exact Nat.zero_le _
    | some width =>
        obtain ⟨entry, member, same⟩ := List.mem_map.mp (List.max?_mem measured)
        obtain ⟨row, inside, rfl⟩ := List.mem_map.mp member
        rw [Option.getD_some, ← same]
        exact Finset.le_sup (f := fun row => (cell row).toList.length)
          (Finset.mem_range.mpr (List.mem_range.mp inside))
  · apply Finset.sup_le
    intro row inside
    apply le_widest
    exact List.mem_map.mpr ⟨row, List.mem_range.mpr (Finset.mem_range.mp inside), rfl⟩

theorem widths_eq_spans {grid : List String} {rowSize rowCount : Nat}
    (whole : grid.length = rowCount * rowSize) :
    widths grid rowSize = (List.range rowSize).map (columnSpan grid rowSize rowCount) := by
  apply List.map_congr_left
  intro index member
  rw [column_eq_cells whole (List.mem_range.mp member), widest_eq_sup, columnSpan]

theorem cell_at_fits (grid : List String) (rowSize : Nat) {rowCount row : Nat}
    (inside : row < rowCount) (column : Nat) :
    (cellAt grid rowSize row column).toList.length ≤ columnSpan grid rowSize rowCount column :=
  Finset.le_sup (f := fun row => (cellAt grid rowSize row column).toList.length)
    (Finset.mem_range.mpr inside)

/-! ### The cells of a line -/

/-- What is written behind the indentation, before blanks are taken off its end. -/
def rowBody (columns : List Nat) (row : List String) : List Char :=
  (String.join (List.zipWith paddedCell row.dropLast columns) ++ row.getLastD "").toList

theorem row_text_toList (columns : List Nat) (indentation : String) (row : List String) :
    (rowText columns indentation row).toList =
      dropBack isBlank (indentation.toList ++ rowBody columns row) := by
  rw [rowText, stripBack, String.toList_ofList, String.append_assoc, String.toList_append, rowBody]

theorem row_body_cons (width : Nat) (columns : List Nat) (cell next : String) (rest : List String) :
    rowBody (width :: columns) (cell :: next :: rest) =
      (paddedCell cell width).toList ++ rowBody columns (next :: rest) := by
  simp [rowBody]

theorem padded_cell_toList (cell : String) (width : Nat) :
    (paddedCell cell width).toList =
      cell.toList ++ List.replicate (width + 3 - cell.toList.length) ' ' := by
  rw [paddedCell, padRight, String.toList_append, String.toList_ofList]
  rfl

theorem padded_cell_length {cell : String} {width : Nat} (fits : cell.toList.length ≤ width) :
    (paddedCell cell width).toList.length = width + 3 := by
  rw [padded_cell_toList, List.length_append, List.length_replicate]
  omega

theorem column_start_succ (width : Nat → Nat) (column : Nat) :
    columnStart width (column + 1) =
      width 0 + 3 + columnStart (fun later => width (later + 1)) column := by
  rw [columnStart, Finset.sum_range_succ', Nat.add_comm]
  rfl

theorem range_columns (width : Nat → Nat) (first : String) (rest : List String) :
    (List.range (first :: rest).length).map width =
      width 0 :: (List.range rest.length).map fun later => width (later + 1) := by
  rw [List.length_cons, List.range_succ_eq_map, List.map_cons, List.map_map]
  rfl

section

variable {row : List String} {width : Nat → Nat}
  (fits : ∀ column cell, row[column]? = some cell → cell.toList.length ≤ width column)

include fits

theorem row_body_shown {column index : Nat} {cell : String} (found : row[column]? = some cell)
    (inside : index < cell.toList.length) :
    (rowBody ((List.range row.length).map width) row)[columnStart width column + index]? =
      cell.toList[index]? := by
  induction row generalizing width column with
  | nil => cases found
  | cons first rest induction =>
      have bounded := fits 0 first rfl
      cases rest with
      | nil =>
          cases column with
          | zero =>
              cases found
              simp [rowBody, columnStart]
          | succ column => cases found
      | cons next others =>
          have padded := padded_cell_length bounded
          rw [range_columns, row_body_cons]
          cases column with
          | zero =>
              cases found
              have start : columnStart width 0 + index = index := by simp [columnStart]
              rw [start, List.getElem?_append_left (by omega), padded_cell_toList,
                List.getElem?_append_left inside]
          | succ column =>
              have later := induction (fun column => fits (column + 1)) found
              have behind : columnStart width (column + 1) + index - (width 0 + 3) =
                  columnStart (fun later => width (later + 1)) column + index := by
                rw [column_start_succ]
                omega
              rw [List.getElem?_append_right (by rw [padded, column_start_succ]; omega), padded, behind,
                later]

theorem row_body_spaces {position : Nat} {c : Char}
    (found : (rowBody ((List.range row.length).map width) row)[position]? = some c)
    (outside : ∀ column cell, row[column]? = some cell →
      position < columnStart width column ∨
        columnStart width column + cell.toList.length ≤ position) : c = ' ' := by
  induction row generalizing width position with
  | nil => cases found
  | cons first rest induction =>
      have bounded := fits 0 first rfl
      have past : first.toList.length ≤ position := by
        have here := outside 0 first rfl
        simp only [columnStart, Finset.range_zero, Finset.sum_empty] at here
        omega
      cases rest with
      | nil =>
          simp only [rowBody, List.dropLast_singleton, List.zipWith_nil_left, String.join_nil,
            String.empty_append, List.getLastD_cons, List.getLastD_nil] at found
          rw [List.getElem?_eq_none past] at found
          cases found
      | cons next others =>
          have padded := padded_cell_length bounded
          rw [range_columns, row_body_cons] at found
          by_cases short : position < width 0 + 3
          · rw [List.getElem?_append_left (by omega), padded_cell_toList,
              List.getElem?_append_right past] at found
            exact (List.mem_replicate.mp (List.mem_of_getElem? found)).2
          · rw [List.getElem?_append_right (by omega), padded] at found
            apply induction (fun column => fits (column + 1)) found
            intro column cell later
            have there := outside (column + 1) cell later
            rw [column_start_succ] at there
            omega

end

/-! ### The end of a line -/

/-- A cell of a table is blank or ends in ink. -/
theorem grid_of_last {cells : List Cell} {layout : Layout} {cell : String}
    (member : cell ∈ gridOf cells layout) (filled : cell ≠ "") :
    ∃ front c, cell.toList = front ++ [c] ∧ isBlank c = false := by
  obtain ⟨group, grouped, rfl⟩ := List.mem_map.mp ((mem_place_bindings member).resolve_left filled)
  have nonempty : group ≠ [] := by
    rintro rfl
    exact (group_tokens_is_cut (bindingTokens cells)).1 [] grouped
  obtain ⟨words, last, rfl⟩ := List.eq_nil_or_concat group |>.resolve_left nonempty
  rw [List.concat_eq_append] at grouped ⊢
  have token : last ∈ bindingTokens cells := by
    rw [← group_tokens_whole (bindingTokens cells)]
    exact List.mem_flatten.mpr ⟨_, grouped, by simp⟩
  obtain ⟨listed, shown⟩ := List.mem_filter.mp token
  obtain ⟨entry, _, rfl⟩ := List.mem_map.mp listed
  obtain ⟨front, c, shape, inked⟩ := strip_last entry.text (by simpa [Cell.token] using shown)
  obtain ⟨lead, joined⟩ := intercalate_last " " words entry.token
  refine ⟨lead ++ front, c, ?_, inked⟩
  rw [joined, Cell.token, shape, List.append_assoc]

theorem drop_back_getElem? {characters : List Char} {position : Nat}
    (short : position < (dropBack isBlank characters).length) :
    (dropBack isBlank characters)[position]? = characters[position]? := by
  obtain ⟨trail, split⟩ := drop_back_begins isBlank characters
  conv_rhs => rw [← split]
  rw [List.getElem?_append_left short]

/-- Ink stands before the blanks that are taken off. -/
theorem lt_drop_back_of_ink {characters : List Char} {position : Nat} {c : Char}
    (found : characters[position]? = some c) (inked : isBlank c = false) :
    position < (dropBack isBlank characters).length := by
  obtain ⟨trail, split, faded⟩ := exists_drop_back isBlank characters
  rw [split] at found
  by_contra past
  rw [List.getElem?_append_right (by omega)] at found
  rw [faded c (List.mem_of_getElem? found)] at inked
  cases inked

section

variable {indentation : String} {row : List String} {width : Nat → Nat}

/-- The position of a character behind the indentation. -/
theorem getElem?_body (indentation : String) (columns : List Nat) (position : Nat) :
    (indentation.toList ++ rowBody columns row)[indentation.toList.length + position]? =
      (rowBody columns row)[position]? := by
  rw [List.getElem?_append_right (by omega), Nat.add_sub_cancel_left]

variable (fits : ∀ column cell, row[column]? = some cell → cell.toList.length ≤ width column)

include fits

theorem row_text_shown
    (ends : ∀ cell ∈ row, cell ≠ "" → ∃ front c, cell.toList = front ++ [c] ∧ isBlank c = false)
    {column index : Nat} {cell : String} (found : row[column]? = some cell)
    (inside : index < cell.toList.length) :
    (rowText ((List.range row.length).map width) indentation row).toList[
        indentation.toList.length + columnStart width column + index]? = cell.toList[index]? := by
  have filled : cell ≠ "" := by
    rintro rfl
    simp at inside
  -- the last character of the cell is ink, so the whole cell is kept
  obtain ⟨front, c, shape, inked⟩ := ends cell (List.mem_of_getElem? found) filled
  have size : cell.toList.length = front.length + 1 := by
    rw [shape, List.length_append, List.length_singleton]
  have last : cell.toList[front.length]? = some c := by simp [shape]
  have final : (rowBody ((List.range row.length).map width) row)[
      columnStart width column + front.length]? = some c :=
    last ▸ row_body_shown fits found (by omega)
  rw [← getElem?_body indentation] at final
  have room := lt_drop_back_of_ink final inked
  rw [row_text_toList, drop_back_getElem? (by omega), Nat.add_assoc, getElem?_body,
    row_body_shown fits found inside]

theorem row_text_spaces {position : Nat} {c : Char} (behind : indentation.toList.length ≤ position)
    (found : (rowText ((List.range row.length).map width) indentation row).toList[position]? = some c)
    (outside : ∀ column cell, row[column]? = some cell →
      position < indentation.toList.length + columnStart width column ∨
        indentation.toList.length + columnStart width column + cell.toList.length ≤ position) :
    c = ' ' := by
  rw [row_text_toList] at found
  rw [drop_back_getElem? (List.getElem?_eq_some_iff.mp found).1, ← Nat.add_sub_cancel' behind,
    getElem?_body] at found
  apply row_body_spaces fits found
  intro column cell here
  have there := outside column cell here
  omega

omit fits in
theorem row_text_stripped (columns : List Nat) :
    ∀ c ∈ (rowText columns indentation row).toList.getLast?, isBlank c = false := by
  intro c last
  obtain ⟨front, shape⟩ := List.getLast?_eq_some_iff.mp last
  rw [row_text_toList] at shape
  exact drop_back_last shape

omit fits in
/-- A line that is not empty goes beyond its indentation. -/
theorem row_text_beyond (blank : ∀ c ∈ indentation.toList, isBlank c = true) {columns : List Nat}
    (filled : rowText columns indentation row ≠ "") :
    ∃ position c, (rowText columns indentation row).toList[position]? = some c ∧
      isBlank c = false ∧ indentation.toList.length ≤ position := by
  obtain ⟨front, c, shape⟩ := List.eq_nil_or_concat _ |>.resolve_left (toList_ne_nil filled)
  rw [List.concat_eq_append] at shape
  have last : c ∈ (rowText columns indentation row).toList.getLast? := by simp [shape]
  have inked := row_text_stripped columns c last
  have found : (rowText columns indentation row).toList[front.length]? = some c := by simp [shape]
  refine ⟨front.length, c, found, inked, ?_⟩
  by_contra early
  rw [row_text_toList] at found
  rw [drop_back_getElem? (List.getElem?_eq_some_iff.mp found).1,
    List.getElem?_append_left (by omega)] at found
  rw [blank c (List.mem_of_getElem? found)] at inked
  cases inked

omit fits in
theorem row_text_indented (blank : ∀ c ∈ indentation.toList, isBlank c = true) {columns : List Nat}
    (filled : rowText columns indentation row ≠ "") :
    indentation.toList <+: (rowText columns indentation row).toList := by
  obtain ⟨position, c, found, _, behind⟩ := row_text_beyond blank filled
  have room := (List.getElem?_eq_some_iff.mp found).1
  rw [row_text_toList] at room ⊢
  exact List.prefix_of_prefix_length_le (List.prefix_append _ _) (drop_back_begins isBlank _) (by omega)

theorem row_text_blank (blank : ∀ c ∈ indentation.toList, isBlank c = true)
    (nothing : ∀ cell ∈ row, cell = "") :
    rowText ((List.range row.length).map width) indentation row = "" := by
  by_contra filled
  obtain ⟨position, c, found, inked, behind⟩ := row_text_beyond blank filled
  have space : c = ' ' := by
    apply row_text_spaces fits behind found
    intro column cell here
    rw [nothing cell (List.mem_of_getElem? here), String.toList_empty, List.length_nil]
    omega
  rw [space] at inked
  cases inked

theorem row_text_aligned (indentation : String)
    (ends : ∀ cell ∈ row, cell ≠ "" → ∃ front c, cell.toList = front ++ [c] ∧ isBlank c = false) :
    Aligned indentation width row (rowText ((List.range row.length).map width) indentation row) where
  shown _ _ found _ inside := row_text_shown fits ends found inside
  spaces _ _ behind found outside := row_text_spaces fits behind found outside
  stripped := row_text_stripped _

end

/-! ### Tables -/

def rowCells (grid : List String) (rowSize row : Nat) : List String :=
  (List.range rowSize).map (cellAt grid rowSize row)

theorem length_row_cells (grid : List String) (rowSize row : Nat) :
    (rowCells grid rowSize row).length = rowSize := by
  rw [rowCells, List.length_map, List.length_range]

theorem row_cells_fits (grid : List String) (rowSize : Nat) {rowCount row column : Nat}
    (inside : row < rowCount) {cell : String} (found : (rowCells grid rowSize row)[column]? = some cell) :
    cell.toList.length ≤ columnSpan grid rowSize rowCount column := by
  rw [rowCells, List.getElem?_map, Option.map_eq_some_iff] at found
  obtain ⟨other, listed, rfl⟩ := found
  obtain ⟨short, same⟩ := List.getElem?_eq_some_iff.mp listed
  rw [List.getElem_range] at same
  rw [← same]
  exact cell_at_fits grid rowSize inside column

theorem row_cells_ends {cells : List Cell} {layout : Layout} {rowSize row : Nat} {cell : String}
    (member : cell ∈ rowCells (gridOf cells layout) rowSize row) (filled : cell ≠ "") :
    ∃ front c, cell.toList = front ++ [c] ∧ isBlank c = false := by
  obtain ⟨column, _, rfl⟩ := List.mem_map.mp member
  rw [cellAt] at filled ⊢
  cases found : (gridOf cells layout)[row * rowSize + column]? with
  | none =>
      rw [found] at filled
      exact absurd rfl filled
  | some cell =>
      rw [found, Option.getD_some] at filled
      exact grid_of_last (List.mem_of_getElem? found) filled

theorem length_grid_of (cells : List Cell) (layout : Layout) :
    (gridOf cells layout).length = layout.rowCount * layout.rowSize := by
  rw [gridOf, place_bindings_length, row_count_mul_row_size]

theorem rows_of_eq (cells : List Cell) (layout : Layout) (indentation : String) :
    rowsOf cells layout indentation = (List.range layout.rowCount).map fun number =>
      rowText ((List.range layout.rowSize).map
          (columnSpan (gridOf cells layout) layout.rowSize layout.rowCount)) indentation
        (rowCells (gridOf cells layout) layout.rowSize number) := by
  have whole := length_grid_of cells layout
  rw [rowsOf, pieces_eq_cells whole (row_size_pos layout), widths_eq_spans whole, List.map_map]
  rfl

/-- **The columns of a binding table are aligned.** A table has as many rows as its
layout. In every row each cell that is not blank stands from the start of its column
on, all else behind the indentation is spaces, and no blank is left at the end. With an
indentation of blanks, a row of blank cells is the empty line and the others begin with
the indentation. -/
theorem render_aligned (cells : List Cell) (layout : Layout) (context : Context) :
    ∃ grid dropped rows width,
      placeBindings layout.cells (collectBindings cells) = (grid, dropped) ∧
      width = columnSpan grid layout.rowSize layout.rowCount ∧
      render cells layout context = .ok ("\n".intercalate ("<" :: commentLines cells context ++
        rows ++ [context.shallower.indentation ++ ">"])) ∧
      rows.length = layout.rowCount ∧
      ∀ number line, rows[number]? = some line →
        formatRow (rowCells grid layout.rowSize number)
          ((List.range layout.rowSize).map fun column => (width column : Int)) context.indentation =
            .ok line ∧
        Aligned context.indentation width (rowCells grid layout.rowSize number) line ∧
        (isIndentUnit context.indentUnit = true →
          (line ≠ "" → context.indentation.toList <+: line.toList) ∧
          ((∀ cell ∈ rowCells grid layout.rowSize number, cell = "") → line = "")) := by
  refine ⟨gridOf cells layout, _, rowsOf cells layout context.indentation, _, rfl, rfl,
    render_eq cells layout context, ?_, ?_⟩
  · rw [rows_of_eq, List.length_map, List.length_range]
  · intro number line found
    rw [rows_of_eq, List.getElem?_map, Option.map_eq_some_iff] at found
    obtain ⟨row, listed, rfl⟩ := found
    obtain ⟨inside, same⟩ := List.getElem?_eq_some_iff.mp listed
    rw [List.getElem_range] at same
    rw [List.length_range] at inside
    subst same
    have size := length_row_cells (gridOf cells layout) layout.rowSize number
    have fits (column : Nat) (cell : String)
        (here : (rowCells (gridOf cells layout) layout.rowSize number)[column]? = some cell) :=
      row_cells_fits (gridOf cells layout) layout.rowSize inside here
    refine ⟨?_, ?_, ?_⟩
    · have filled : rowCells (gridOf cells layout) layout.rowSize number ≠ [] := by
        rw [← List.length_pos_iff, size]
        exact row_size_pos layout
      have enough : (rowCells (gridOf cells layout) layout.rowSize number).length ≤
          ((List.range layout.rowSize).map
            (columnSpan (gridOf cells layout) layout.rowSize layout.rowCount)).length + 1 := by
        simp [size]
      have written := format_row_eq context.indentation filled enough
      rw [List.map_map] at written
      exact written
    · have aligned := row_text_aligned fits context.indentation fun _ member filled =>
        row_cells_ends member filled
      rw [size] at aligned
      exact aligned
    · intro unit
      refine ⟨row_text_indented (blank_indentation unit), fun nothing => ?_⟩
      have empty := row_text_blank fits (blank_indentation unit) nothing
      rw [size] at empty
      exact empty

/-- Three rows of three, the second without a key. -/
def staggeredLayout : Layout where
  name := "staggered"
  cells := [true, true, false, false, false, false, false, true, true]
  rowCount := 3

def staggeredCells : List Cell :=
  [⟨.leftAngle, "<"⟩, ⟨.reference, "&kp"⟩, ⟨.identifier, "A"⟩, ⟨.reference, "&mt"⟩,
   ⟨.identifier, " LSHIFT "⟩, ⟨.callExpression, "LC( B )"⟩, ⟨.reference, "&trans"⟩, ⟨.comment, "/* end */"⟩,
   ⟨.reference, "&none"⟩, ⟨.rightAngle, ">"⟩]

/-- In the table of the staggered layout the second line is empty, and the third has
the cell of its last column behind the tabs and the two wider columns. -/
theorem render_aligned_staggered :
    isIndentUnit cornerContext.indentUnit = true ∧
      ∃ rows, render staggeredCells staggeredLayout cornerContext = .ok ("\n".intercalate
          ("<" :: commentLines staggeredCells cornerContext ++ rows ++
            [cornerContext.shallower.indentation ++ ">"])) ∧
        rows.length = 3 ∧ rows[1]? = some "" ∧
        ∃ line, rows[2]? = some line ∧ line.toList[2 + (5 + 3) + (18 + 3)]? = some '&' := by
  have unit : isIndentUnit cornerContext.indentUnit = true := by decide +kernel
  obtain ⟨grid, dropped, rows, width, placed, measured, table, count, each⟩ :=
    render_aligned staggeredCells staggeredLayout cornerContext
  have cells : grid = ["&kp A", "&mt LSHIFT LC( B )", "", "", "", "", "", "&trans", "&none"] := by
    have known : placeBindings staggeredLayout.cells (collectBindings staggeredCells) =
        (["&kp A", "&mt LSHIFT LC( B )", "", "", "", "", "", "&trans", "&none"], []) := by
      decide +kernel
    rw [known] at placed
    exact (congrArg Prod.fst placed).symm
  have three : rows.length = 3 := count
  subst cells measured
  refine ⟨unit, rows, table, three, ?_, ?_⟩
  · have found := List.getElem?_eq_getElem (l := rows) (i := 1) (by omega)
    rw [found, ((each 1 _ found).2.2 unit).2 (by decide +kernel)]
  · have found := List.getElem?_eq_getElem (l := rows) (i := 2) (by omega)
    exact ⟨_, found, (each 2 _ found).2.1.shown 2 "&none" (by decide +kernel) 0 (by decide +kernel)⟩

end DevicetreeFormat.Table
