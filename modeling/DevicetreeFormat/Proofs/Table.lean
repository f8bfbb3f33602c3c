import DevicetreeFormat.Proofs.Word
import DevicetreeFormat.Table
import Mathlib.Data.List.Basic

/-!
# Binding tables of a layout

Measuring and writing can fail on a grid that no layout produces. The grid that
a layout does produce has full rows and no empty column, so its table always
exists, and `render_eq` says which text it is. The rest of the module follows
what a text reads as through the four steps: grouping, placing, measuring and
writing.
-/

namespace DevicetreeFormat.Table

set_option autoImplicit false

open Text

theorem mapM_ok {α β ε : Type} {f : α → Except ε β} {g : α → β} (items : List α)
    (each : ∀ item ∈ items, f item = .ok (g item)) : items.mapM f = .ok (items.map g) := by
  induction items with
  | nil => rfl
  | cons item rest induction =>
      rw [List.mapM_cons, each item (by simp), induction fun later member => each later (by simp [member])]
      rfl

/-! ### Pieces -/

theorem pieces_of_ne_nil {α : Type} {size : Nat} (sized : 0 < size) {items : List α}
    (filled : items ≠ []) : pieces size items = items.take size :: pieces size (items.drop size) := by
  rw [pieces, if_neg (by omega), if_neg (by simpa using filled)]

theorem pieces_nil {α : Type} (size : Nat) : pieces size ([] : List α) = [] := by
  rw [pieces]
  simp

/-- Induction along the pieces of a list. -/
theorem pieces_induction {α : Type} {size : Nat} (sized : 0 < size) {motive : List α → Prop}
    (nil : motive [])
    (piece : ∀ items, items ≠ [] → motive (items.drop size) → motive items) (items : List α) :
    motive items := by
  induction count : items.length using Nat.strongRecOn generalizing items with
  | ind count induction =>
      cases items with
      | nil => exact nil
      | cons item rest =>
          apply piece _ (List.cons_ne_nil item rest)
          apply induction _ _ _ rfl
          simp only [List.length_drop, List.length_cons] at count ⊢
          omega

theorem pieces_flatten {α : Type} {size : Nat} (sized : 0 < size) (items : List α) :
    (pieces size items).flatten = items := by
  induction items using pieces_induction sized with
  | nil => rw [pieces_nil]; rfl
  | piece items filled induction =>
      rw [pieces_of_ne_nil sized filled, List.flatten_cons, induction, List.take_append_drop]

theorem ne_nil_of_mem_pieces {α : Type} {size : Nat} (sized : 0 < size) {items piece : List α}
    (member : piece ∈ pieces size items) : piece ≠ [] := by
  induction items using pieces_induction sized with
  | nil => simp [pieces_nil] at member
  | piece items filled induction =>
      rw [pieces_of_ne_nil sized filled, List.mem_cons] at member
      rcases member with rfl | later
      · intro empty
        rw [List.take_eq_nil_iff] at empty
        rcases empty with zero | none
        · omega
        · exact filled none
      · exact induction later

theorem length_of_mem_pieces {α : Type} {size : Nat} (sized : 0 < size) {items piece : List α}
    (member : piece ∈ pieces size items) : piece.length ≤ size := by
  induction items using pieces_induction sized with
  | nil => simp [pieces_nil] at member
  | piece items filled induction =>
      rw [pieces_of_ne_nil sized filled, List.mem_cons] at member
      rcases member with rfl | later
      · rw [List.length_take]
        omega
      · exact induction later

theorem mem_of_mem_pieces {α : Type} {size : Nat} (sized : 0 < size) {items piece : List α} {item : α}
    (piecewise : piece ∈ pieces size items) (member : item ∈ piece) : item ∈ items := by
  rw [← pieces_flatten sized items]
  exact List.mem_flatten.mpr ⟨piece, piecewise, member⟩

/-! ### Placing -/

theorem place_bindings_length (cells : List Bool) (bindings : List String) :
    (placeBindings cells bindings).1.length = cells.length := by
  fun_induction placeBindings cells bindings <;> simp_all

/-- What found no key is what is left after one binding per key. -/
theorem place_bindings_dropped (cells : List Bool) (bindings : List String) :
    (placeBindings cells bindings).2 = bindings.drop (cells.count true) := by
  fun_induction placeBindings cells bindings <;> simp_all

theorem mem_place_bindings {keys : List Bool} {bindings : List String} {cell : String}
    (member : cell ∈ (placeBindings keys bindings).1) : cell = "" ∨ cell ∈ bindings := by
  fun_induction placeBindings keys bindings <;> simp_all <;> grind

/-! ### Grouping -/

theorem group_tokens_flatten (group tokens : List String) :
    (groupTokens group tokens).flatten = group.reverse ++ tokens := by
  fun_induction groupTokens group tokens <;> simp_all

/-- Grouping keeps the words and their order. -/
theorem group_tokens_whole (tokens : List String) : (groupTokens [] tokens).flatten = tokens :=
  group_tokens_flatten [] tokens

theorem flatMap_flatten {α β : Type} (lists : List (List α)) (f : α → List β) :
    lists.flatten.flatMap f = lists.flatMap fun list => list.flatMap f := by
  rw [← List.flatMap_id, List.flatMap_assoc]
  rfl

/-! ### Reading through the steps

A reading gives a list for every text and goes through spaces: the ink of a text
is one, and so are its words. -/

section

variable {Item : Type} {read : String → List Item}

theorem place_bindings_read (blank : read "" = []) (cells : List Bool) (bindings : List String) :
    (placeBindings cells bindings).1.flatMap read ++ (placeBindings cells bindings).2.flatMap read =
      bindings.flatMap read := by
  fun_induction placeBindings cells bindings <;> simp_all

theorem binding_tokens_read (blank : read "" = []) (cells : List Cell) :
    (bindingTokens cells).flatMap read =
      (cells.filter fun cell => !cell.isAngle && !cell.isComment).flatMap fun cell => read cell.token := by
  rw [bindingTokens]
  induction cells.filter fun cell => !cell.isAngle && !cell.isComment with
  | nil => rfl
  | cons cell rest induction =>
      rw [List.map_cons, List.flatMap_cons]
      by_cases empty : cell.token = ""
      · rw [List.filter_cons_of_neg (by simp [empty]), induction, empty, blank]
        rfl
      · rw [List.filter_cons_of_pos (by simpa using empty), List.flatMap_cons, induction]

variable (joined : ∀ texts, read (" ".intercalate texts) = texts.flatMap read)

include joined

theorem collect_bindings_read (cells : List Cell) :
    (collectBindings cells).flatMap read = (bindingTokens cells).flatMap read := by
  calc
    (collectBindings cells).flatMap read =
        (groupTokens [] (bindingTokens cells)).flatMap fun group => group.flatMap read := by
      rw [collectBindings, List.flatMap_map]
      simp only [joined]
    _ = (bindingTokens cells).flatMap read := by
      rw [← flatMap_flatten, group_tokens_whole]

/-- What is placed and what is dropped are together what the cells hold that are
neither brackets nor comments. -/
theorem placed_read (cells : List Cell) (keys : List Bool) :
    (placeBindings keys (collectBindings cells)).1.flatMap read ++
        (placeBindings keys (collectBindings cells)).2.flatMap read =
      (cells.filter fun cell => !cell.isAngle && !cell.isComment).flatMap fun cell => read cell.token := by
  have blank : read "" = [] := joined []
  rw [place_bindings_read blank, collect_bindings_read joined, binding_tokens_read blank]

end

/-! ### Measuring -/

theorem row_size_pos (layout : Layout) : 0 < layout.rowSize := by
  have filled : 0 < layout.cells.length := List.length_pos_iff.mpr layout.cells_nonempty
  have divides : layout.rowCount ∣ layout.cells.length := Nat.dvd_of_mod_eq_zero layout.rows_even
  exact Nat.div_pos (Nat.le_of_dvd filled divides) layout.rowCount_pos

theorem row_size_le (layout : Layout) : layout.rowSize ≤ layout.cells.length :=
  Nat.div_le_self _ _

theorem row_count_mul_row_size (layout : Layout) :
    layout.rowCount * layout.rowSize = layout.cells.length :=
  Nat.mul_div_cancel' (Nat.dvd_of_mod_eq_zero layout.rows_even)

def widest (cells : List String) : Nat :=
  ((cells.map fun cell => cell.toList.length).max?).getD 0

def widths (grid : List String) (rowSize : Nat) : List Nat :=
  (List.range rowSize).map fun index => widest (column grid rowSize index)

theorem column_ne_nil {grid : List String} {rowSize index : Nat} (enough : rowSize ≤ grid.length)
    (inside : index < rowSize) : column grid rowSize index ≠ [] := by
  have sized : 0 < rowSize := by omega
  have filled : grid ≠ [] := by
    intro empty
    rw [empty, List.length_nil] at enough
    omega
  have bounded : index < (grid.take rowSize).length := by
    rw [List.length_take]
    omega
  have found := List.getElem?_eq_getElem bounded
  rw [column, pieces_of_ne_nil sized filled, List.filterMap_cons, found]
  exact List.cons_ne_nil _ _

theorem column_width_eq {cells : List String} (filled : cells ≠ []) :
    columnWidth cells = .ok (widest cells) := by
  rw [columnWidth, widest]
  cases measured : (cells.map fun cell => cell.toList.length).max? with
  | none => simp [List.max?_eq_none_iff] at measured; exact absurd measured filled
  | some width => rfl

theorem column_widths_eq {grid : List String} {rowSize : Nat} (enough : rowSize ≤ grid.length) :
    columnWidths grid rowSize = .ok (widths grid rowSize) := by
  rw [columnWidths, if_neg (by omega)]
  apply mapM_ok
  intro index member
  exact column_width_eq (column_ne_nil enough (List.mem_range.mp member))

/-! ### Writing -/

def paddedCell (cell : String) (width : Nat) : String :=
  padRight (width + columnGap) cell

def rowText (columns : List Nat) (indentation : String) (row : List String) : String :=
  stripBack (indentation ++ String.join (List.zipWith paddedCell row.dropLast columns) ++
    row.getLastD "")

theorem pad_cells_eq {cells : List String} {columns : List Nat}
    (enough : cells.length ≤ columns.length) :
    padCells cells (columns.map Int.ofNat) = .ok (List.zipWith paddedCell cells columns) := by
  induction cells generalizing columns with
  | nil => rfl
  | cons cell cells induction =>
      cases columns with
      | nil => simp at enough
      | cons width columns =>
          have padded : (Int.ofNat width + (columnGap : Int)).toNat = width + columnGap := by
            rw [Int.ofNat_eq_natCast]
            omega
          rw [List.map_cons, padCells, induction (by simpa using enough)]
          simp only [List.zipWith_cons_cons, paddedCell, padded]
          rfl

theorem format_row_eq {row : List String} {columns : List Nat} (indentation : String)
    (filled : row ≠ []) (enough : row.length ≤ columns.length + 1) :
    formatRow row (columns.map Int.ofNat) indentation = .ok (rowText columns indentation row) := by
  have padded : row.dropLast.length ≤ columns.length := by
    rw [List.length_dropLast]
    omega
  rw [formatRow, pad_cells_eq padded, rowText, List.getLastD_eq_getLast?,
    List.getLast?_eq_some_getLast filled]
  rfl

theorem format_row_piece {grid row : List String} {rowSize : Nat} (sized : 0 < rowSize)
    (member : row ∈ pieces rowSize grid) (indentation : String) :
    formatRow row ((widths grid rowSize).map Int.ofNat) indentation =
      .ok (rowText (widths grid rowSize) indentation row) := by
  apply format_row_eq _ (ne_nil_of_mem_pieces sized member)
  have bounded := length_of_mem_pieces sized member
  simp only [widths, List.length_map, List.length_range]
  omega

theorem row_lines_eq {grid : List String} {rowSize : Nat} (sized : 0 < rowSize)
    (enough : rowSize ≤ grid.length) (context : Context) :
    rowLines grid rowSize context =
      .ok ((pieces rowSize grid).map (rowText (widths grid rowSize) context.indentation)) := by
  rw [rowLines, column_widths_eq enough]
  apply mapM_ok
  intro row member
  exact format_row_piece sized member context.indentation

def gridOf (cells : List Cell) (layout : Layout) : List String :=
  (placeBindings layout.cells (collectBindings cells)).1

def rowsOf (cells : List Cell) (layout : Layout) (indentation : String) : List String :=
  (pieces layout.rowSize (gridOf cells layout)).map
    (rowText (widths (gridOf cells layout) layout.rowSize) indentation)

/-- The grid has one row at least, so that every column has a cell to measure. -/
theorem row_size_le_grid_of (cells : List Cell) (layout : Layout) :
    layout.rowSize ≤ (gridOf cells layout).length := by
  rw [gridOf, place_bindings_length]
  exact row_size_le layout

theorem row_lines_grid_of (cells : List Cell) (layout : Layout) (context : Context) :
    rowLines (gridOf cells layout) layout.rowSize context =
      .ok (rowsOf cells layout context.indentation) :=
  row_lines_eq (row_size_pos layout) (row_size_le_grid_of cells layout) context

/-- The table of a layout always exists. -/
theorem render_eq (cells : List Cell) (layout : Layout) (context : Context) :
    render cells layout context = .ok ("\n".intercalate ("<" :: commentLines cells context ++
      rowsOf cells layout context.indentation ++ [context.shallower.indentation ++ ">"])) := by
  rw [render, ← gridOf, row_lines_grid_of]
  rfl

theorem row_text_ink {columns : List Nat} {indentation : String} (blank : ink indentation = [])
    {row : List String} (enough : row.length ≤ columns.length + 1) :
    ink (rowText columns indentation row) = row.flatMap ink := by
  have padded : ∀ (cells : List String) (columns : List Nat), cells.length ≤ columns.length →
      (List.zipWith paddedCell cells columns).flatMap ink = cells.flatMap ink := by
    intro cells
    induction cells with
    | nil => intro columns bounded; rfl
    | cons cell cells induction =>
        intro columns bounded
        cases columns with
        | nil => simp at bounded
        | cons width columns =>
            rw [List.zipWith_cons_cons, List.flatMap_cons, List.flatMap_cons, paddedCell, ink_pad_right,
              induction columns (by simpa using bounded)]
  rw [rowText, ink_strip_back, ink_append, ink_append, blank, ink_join, List.nil_append,
    padded _ _ (by rw [List.length_dropLast]; omega)]
  by_cases empty : row = []
  · subst empty
    rfl
  · rw [List.getLastD_eq_getLast?, List.getLast?_eq_some_getLast empty, Option.getD_some]
    have whole := List.dropLast_concat_getLast empty
    calc
      row.dropLast.flatMap ink ++ ink (row.getLast empty) =
          (row.dropLast ++ [row.getLast empty]).flatMap ink := by simp
      _ = row.flatMap ink := by rw [whole]

/-- The rows read as the grid does if every row reads as its cells. -/
theorem rows_of_read {Item : Type} {read : String → List Item} {cells : List Cell} {layout : Layout}
    {indentation : String}
    (each : ∀ row ∈ pieces layout.rowSize (gridOf cells layout),
      read (rowText (widths (gridOf cells layout) layout.rowSize) indentation row) = row.flatMap read) :
    (rowsOf cells layout indentation).flatMap read = (gridOf cells layout).flatMap read := by
  calc
    (rowsOf cells layout indentation).flatMap read =
        (pieces layout.rowSize (gridOf cells layout)).flatMap fun row => row.flatMap read := by
      rw [rowsOf, List.flatMap_map]
      exact List.flatMap_congr each
    _ = (gridOf cells layout).flatMap read := by
      rw [← flatMap_flatten, pieces_flatten (row_size_pos layout)]

theorem rows_of_ink (cells : List Cell) (layout : Layout) {indentation : String}
    (blank : ink indentation = []) :
    (rowsOf cells layout indentation).flatMap ink = (gridOf cells layout).flatMap ink := by
  apply rows_of_read
  intro row member
  apply row_text_ink blank
  have bounded := length_of_mem_pieces (row_size_pos layout) member
  simp only [widths, List.length_map, List.length_range]
  omega

/-- When no binding is left over, the grid has the ink of all binding words. -/
theorem grid_of_ink {cells : List Cell} {layout : Layout}
    (fits : (collectBindings cells).length ≤ layout.keyCount) :
    (gridOf cells layout).flatMap ink =
      (cells.filter fun cell => !cell.isAngle && !cell.isComment).flatMap fun cell => ink cell.text := by
  have placed := placed_read (ink_intercalate (show ink " " = [] from rfl)) cells layout.cells
  have dropped : (placeBindings layout.cells (collectBindings cells)).2 = [] := by
    rw [place_bindings_dropped, List.drop_eq_nil_iff]
    exact fits
  rw [dropped, List.flatMap_nil, List.append_nil] at placed
  simp only [Cell.token, ink_strip] at placed
  exact placed

theorem comment_lines_ink (cells : List Cell) {context : Context}
    (blank : ink context.indentUnit = []) :
    (commentLines cells context).flatMap ink =
      (cells.filter Cell.isComment).flatMap fun cell => ink cell.text := by
  rw [commentLines, List.flatMap_map]
  simp only [ink_append, ink_indentation blank, ink_normal_comment, List.nil_append]

/-! ### The characters of a table -/

section

variable {allowed : Char → Prop} (space : allowed ' ')

include space

theorem grid_of_within {cells : List Cell} (layout : Layout)
    (tokens : ∀ cell ∈ cells, cell.isAngle = false → Within allowed cell.token) :
    ∀ entry ∈ gridOf cells layout, Within allowed entry := by
  intro entry member
  rcases mem_place_bindings member with rfl | bound
  · exact within_empty
  · obtain ⟨group, grouped, rfl⟩ := List.mem_map.mp bound
    have between : Within allowed " " := by simpa [Within] using space
    apply within_intercalate between
    intro token inside
    have listed : token ∈ bindingTokens cells := by
      rw [← group_tokens_whole (bindingTokens cells)]
      exact List.mem_flatten.mpr ⟨group, grouped, inside⟩
    obtain ⟨cell, kept, rfl⟩ := List.mem_map.mp (List.mem_filter.mp listed).1
    obtain ⟨present, plain⟩ := List.mem_filter.mp kept
    rw [Bool.and_eq_true, Bool.not_eq_true'] at plain
    exact tokens cell present plain.1

theorem row_text_within (columns : List Nat) {indentation : String} {row : List String}
    (indented : Within allowed indentation) (each : ∀ cell ∈ row, Within allowed cell) :
    Within allowed (rowText columns indentation row) := by
  apply within_strip_back
  apply within_append (within_append indented (within_join _))
  · rw [List.getLastD_eq_getLast?]
    cases last : row.getLast? with
    | none => exact within_empty
    | some cell => exact each cell (List.mem_of_mem_getLast? last)
  · intro padded member
    obtain ⟨index, bound, rfl⟩ := List.mem_iff_getElem.mp member
    rw [List.getElem_zipWith]
    apply within_pad_right space
    exact each _ ((List.dropLast_sublist row).subset (List.getElem_mem _))

theorem rows_of_within {cells : List Cell} (layout : Layout) {indentation : String}
    (indented : Within allowed indentation)
    (tokens : ∀ cell ∈ cells, cell.isAngle = false → Within allowed cell.token) :
    ∀ line ∈ rowsOf cells layout indentation, Within allowed line := by
  intro line member
  obtain ⟨row, piecewise, rfl⟩ := List.mem_map.mp member
  apply row_text_within space _ indented
  intro entry inside
  exact grid_of_within space layout tokens entry
    (mem_of_mem_pieces (row_size_pos layout) piecewise inside)

end

/-- Cells that stand on a line give rows that stand on a line. -/
theorem rows_of_unbroken {cells : List Cell} (lines : ∀ cell ∈ cells, cell.isAngle = true ∨ OneLine cell.text)
    (layout : Layout) {indentation : String} (indented : '\n' ∉ indentation.toList) :
    ∀ line ∈ rowsOf cells layout indentation, '\n' ∉ line.toList := by
  have tokens : ∀ cell ∈ cells, cell.isAngle = false → Within (· ≠ '\n') cell.token := by
    intro cell inside plain
    rcases lines cell inside with angle | whole
    · rw [plain] at angle
      cases angle
    · exact within_ne_iff.mpr whole.2
  intro line member
  exact within_ne_iff.mp
    (rows_of_within (by decide) layout (within_ne_iff.mpr indented) tokens line member)

end DevicetreeFormat.Table
