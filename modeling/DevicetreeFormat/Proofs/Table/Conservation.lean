import DevicetreeFormat.Printer.Values
import DevicetreeFormat.Proofs.Table.Words

/-!
# Binding tables lose and invent nothing

Every binding goes to the next key or is dropped and reported, every word of the
cell list stands in the rows or in what was dropped, and every comment stands
above the rows. `Conserved` lists these facts about one table, and they hold of
every table, whatever the gaps of the layout and the number of bindings.
-/

namespace DevicetreeFormat.Table

set_option autoImplicit false

open Text

/-- The cells of a grid that lie on keys, or those that lie on gaps, row by row. -/
def cellsOn (isKey : Bool) (keys : List Bool) (grid : List String) : List String :=
  ((keys.zip grid).filter fun place => place.1 == isKey).map Prod.snd

/-- The keys take the bindings in order and stay blank when there are no more. -/
theorem place_bindings_keys (keys : List Bool) (bindings : List String) :
    cellsOn true keys (placeBindings keys bindings).1 =
      bindings.take (keys.count true) ++ List.replicate (keys.count true - bindings.length) "" := by
  fun_induction placeBindings keys bindings <;> simp_all [cellsOn, List.replicate_succ]

theorem place_bindings_gaps (keys : List Bool) (bindings : List String) :
    cellsOn false keys (placeBindings keys bindings).1 = List.replicate (keys.count false) "" := by
  fun_induction placeBindings keys bindings <;> simp_all [cellsOn, List.replicate_succ]

theorem report?_eq (cells : List Cell) (layout : Layout) :
    report? cells layout =
      if layout.keyCount < (collectBindings cells).length then
        some (dropMessage layout ((collectBindings cells).drop layout.keyCount))
      else none := by
  have dropped := place_bindings_dropped layout.cells (collectBindings cells)
  rw [report?, dropped]
  by_cases exceeds : layout.keyCount < (collectBindings cells).length
  · have some : (collectBindings cells).drop layout.keyCount ≠ [] := by
      rw [ne_eq, List.drop_eq_nil_iff]
      omega
    rw [if_pos exceeds, if_neg (by simpa [Layout.keyCount] using some)]
    rfl
  · have none : (collectBindings cells).drop layout.keyCount = [] := by
      rw [List.drop_eq_nil_iff]
      omega
    rw [if_neg exceeds, if_pos (by simpa [Layout.keyCount] using none)]

theorem blank_indentation {context : Context} (unit : isIndentUnit context.indentUnit = true) :
    ∀ c ∈ context.indentation.toList, isBlank c = true := by
  have inkless := ink_indentation (ink_indent_unit unit)
  rw [ink, List.filter_eq_nil_iff] at inkless
  intro c member
  simpa using inkless c member

theorem rows_of_words (cells : List Cell) (layout : Layout) {indentation : String}
    (blank : ∀ c ∈ indentation.toList, isBlank c = true) :
    (rowsOf cells layout indentation).flatMap words = (gridOf cells layout).flatMap words := by
  apply rows_of_read
  intro row member
  exact row_text_words blank (row_fits (row_size_pos layout) member)

/-- What the table of a cell list keeps, for the grid, the dropped bindings and
the rows that it is made of. -/
structure Conserved (cells : List Cell) (layout : Layout) (context : Context)
    (grid dropped rows : List String) : Prop where
  placed : placeBindings layout.cells (collectBindings cells) = (grid, dropped)
  written : rowLines grid layout.rowSize context = .ok rows
  -- The keys hold the first bindings in order, one for each key, then blanks.
  keys : cellsOn true layout.cells grid =
    (collectBindings cells).take layout.keyCount ++
      List.replicate (layout.keyCount - (collectBindings cells).length) ""
  gaps : cellsOn false layout.cells grid = List.replicate (layout.cells.count false) ""
  -- The grid has one cell for every key and gap.
  whole : grid.length = layout.cells.length
  -- The rows and the dropped bindings hold the words of the cell list in order.
  kept : rows.flatMap words ++ dropped.flatMap words =
    (cells.filter fun cell => !cell.isAngle && !cell.isComment).flatMap fun cell => words cell.token
  -- One report if there are more bindings than keys, and none otherwise.
  reports : (report? cells layout).toList =
    if layout.keyCount < (collectBindings cells).length then
      [toString ((collectBindings cells).length - layout.keyCount) ++ " binding(s) exceed the " ++
        toString layout.keyCount ++ " keys of layout '" ++ layout.name.escaped ++
        "' and were not printed: " ++ " ".intercalate dropped]
    else []
  -- The comments stand between the opening bracket and the rows, each once.
  table : render cells layout context = .ok ("\n".intercalate
    ("<" :: (cells.filter Cell.isComment).map (fun cell =>
        context.indentation ++ normalComment cell.text) ++
      rows ++ [context.shallower.indentation ++ ">"]))
  -- Where tables are printed, the reports come first and the table after them.
  printed : context.alignsBindings = true → ∃ table, render cells layout context = .ok table ∧
    Printer.printCells layout cells context =
      (report? cells layout).toList.map .report ++ [.write table]

/-- **A binding table loses and invents nothing**, with any gaps and with too few
or too many bindings for the keys. -/
theorem render_conserves (cells : List Cell) (layout : Layout) (context : Context)
    (unit : isIndentUnit context.indentUnit = true) :
    ∃ grid dropped rows, Conserved cells layout context grid dropped rows := by
  refine ⟨gridOf cells layout, (placeBindings layout.cells (collectBindings cells)).2,
    rowsOf cells layout context.indentation, ?_⟩
  have table := render_eq cells layout context
  have dropped := place_bindings_dropped layout.cells (collectBindings cells)
  constructor
  case placed => rfl
  case written => exact row_lines_grid_of cells layout context
  case keys => exact place_bindings_keys layout.cells (collectBindings cells)
  case gaps => exact place_bindings_gaps layout.cells (collectBindings cells)
  case whole => exact place_bindings_length layout.cells (collectBindings cells)
  case kept =>
    rw [rows_of_words cells layout (blank_indentation unit)]
    exact placed_read words_intercalate cells layout.cells
  case reports =>
    rw [report?_eq, dropped]
    split
    · rw [Option.toList_some, dropMessage, List.length_drop]
      rfl
    · rfl
  case table => exact table
  case printed =>
    intro aligns
    refine ⟨_, table, ?_⟩
    rw [Printer.printCells, if_pos aligns, table]

/-- Two rows of two, with a gap in the first. -/
def cornerLayout : Layout where
  name := "corner"
  cells := [true, false, true, true]
  rowCount := 2

/-- Four bindings and a comment between two of them. -/
def cornerCells : List Cell :=
  [⟨.leftAngle, "<"⟩, ⟨.reference, "&kp"⟩, ⟨.identifier, "A"⟩, ⟨.comment, "//thumb"⟩,
   ⟨.reference, "&trans"⟩, ⟨.reference, "&mt"⟩, ⟨.identifier, "LSHIFT"⟩, ⟨.callExpression, "LC( B )"⟩,
   ⟨.reference, "&none"⟩, ⟨.rightAngle, ">"⟩]

def cornerContext : Context where
  indentUnit := "\t"
  depth := 2
  keymap := true
  bindings := true

theorem render_conserves_corner :
    isIndentUnit cornerContext.indentUnit = true ∧
      cornerLayout.keyCount < (collectBindings cornerCells).length ∧
      ∃ grid dropped rows, Conserved cornerCells cornerLayout cornerContext grid dropped rows := by
  have unit : isIndentUnit cornerContext.indentUnit = true := by decide +kernel
  have exceeds : cornerLayout.keyCount < (collectBindings cornerCells).length := by decide +kernel
  exact ⟨unit, exceeds, render_conserves cornerCells cornerLayout cornerContext unit⟩

end DevicetreeFormat.Table
