import DevicetreeFormat.Proofs.NormalForms
import DevicetreeFormat.Proofs.Table.Conservation
import DevicetreeFormat.Proofs.Table.Cuts

/-!
# Binding tables are fixed points

Words that are read off a table fall into the same bindings again and go to the
same keys. The table of what a table shows is therefore the same table, also when
the first one dropped bindings or left keys blank.
-/

namespace DevicetreeFormat.Table

set_option autoImplicit false

open Text

/-! ### What a table shows -/

/-- Placing looks at no more bindings than there are keys. -/
theorem place_bindings_take (keys : List Bool) (bindings : List String) :
    (placeBindings keys (bindings.take (keys.count true))).1 = (placeBindings keys bindings).1 := by
  fun_induction placeBindings keys bindings <;> simp_all [placeBindings]

/-- Tokens without blanks. Brackets and comments may hold any text. -/
def PlainTokens (cells : List Cell) : Prop :=
  ∀ cell ∈ cells, cell.isAngle = false → cell.isComment = false →
    ∀ c ∈ cell.token.toList, isBlank c = false

theorem plain_tokens_iff (cells : List Cell) :
    (cells.all fun cell => cell.isAngle || cell.isComment ||
      cell.token.toList.all fun c => !isBlank c) = true ↔ PlainTokens cells := by
  rw [List.all_eq_true]
  refine forall_congr' fun cell => forall_congr' fun _ => ?_
  cases cell.isAngle <;> cases cell.isComment <;> simp

instance : DecidablePred PlainTokens := fun cells =>
  decidable_of_iff _ (plain_tokens_iff cells)

/-- The comments of a cell list in their normal form. -/
def normalComments (cells : List Cell) : List Cell :=
  (cells.filter Cell.isComment).map fun cell => ⟨.comment, normalComment cell.text⟩

def wordCells (words : List String) : List Cell :=
  words.map fun word => ⟨.identifier, word⟩

/-- The cell list that a table of the given rows shows: the comments in their
normal form and the words of the rows, between brackets. -/
def shownCells (cells : List Cell) (rows : List String) : List Cell :=
  [⟨.leftAngle, "<"⟩] ++ normalComments cells ++ wordCells (rows.flatMap words) ++ [⟨.rightAngle, ">"⟩]

theorem binding_tokens_plain {cells : List Cell} (plain : PlainTokens cells) :
    ∀ token ∈ bindingTokens cells, token ≠ "" ∧ ∀ c ∈ token.toList, isBlank c = false := by
  intro token member
  obtain ⟨listed, filled⟩ := List.mem_filter.mp member
  obtain ⟨cell, kept, rfl⟩ := List.mem_map.mp listed
  obtain ⟨inside, other⟩ := List.mem_filter.mp kept
  rw [Bool.and_eq_true, Bool.not_eq_true', Bool.not_eq_true'] at other
  exact ⟨by simpa using filled, plain cell inside other.1 other.2⟩

theorem flatMap_words {tokens : List String}
    (plain : ∀ token ∈ tokens, token ≠ "" ∧ ∀ c ∈ token.toList, isBlank c = false) :
    tokens.flatMap words = tokens := by
  induction tokens with
  | nil => rfl
  | cons token rest induction =>
      rw [List.flatMap_cons, words_of_plain (plain token (by simp)).1 (plain token (by simp)).2,
        induction fun other member => plain other (by simp [member])]
      rfl

/-- The grid holds as many of the bindings as there are keys. -/
theorem grid_of_words (cells : List Cell) (layout : Layout) :
    (gridOf cells layout).flatMap words =
      ((collectBindings cells).take layout.keyCount).flatMap words := by
  have placed := place_bindings_read words_empty layout.cells ((collectBindings cells).take layout.keyCount)
  have dropped : (placeBindings layout.cells ((collectBindings cells).take layout.keyCount)).2 = [] := by
    rw [place_bindings_dropped, List.drop_eq_nil_iff, List.length_take]
    exact Nat.min_le_left _ _
  rw [dropped, List.flatMap_nil, List.append_nil] at placed
  rw [gridOf, ← place_bindings_take]
  exact placed

theorem placed_plain {cells : List Cell} (plain : PlainTokens cells) (count : Nat) :
    ∀ token ∈ ((groupTokens [] (bindingTokens cells)).take count).flatten,
      token ≠ "" ∧ ∀ c ∈ token.toList, isBlank c = false := by
  intro token member
  obtain ⟨group, grouped, inside⟩ := List.mem_flatten.mp member
  apply binding_tokens_plain plain
  rw [← group_tokens_whole (bindingTokens cells)]
  exact List.mem_flatten.mpr ⟨group, List.mem_of_mem_take grouped, inside⟩

/-- The words of the rows are the words of the first groups, one for each key. -/
theorem rows_words {cells : List Cell} (plain : PlainTokens cells) (layout : Layout)
    {context : Context} (unit : isIndentUnit context.indentUnit = true) :
    (rowsOf cells layout context.indentation).flatMap words =
      ((groupTokens [] (bindingTokens cells)).take layout.keyCount).flatten := by
  rw [rows_of_words cells layout (blank_indentation unit), grid_of_words, collectBindings, ← List.map_take,
    List.flatMap_map]
  simp only [words_intercalate]
  rw [← flatMap_flatten]
  exact flatMap_words (placed_plain plain layout.keyCount)

theorem binding_tokens_normal_comments (cells : List Cell) : bindingTokens (normalComments cells) = [] := by
  simp [bindingTokens, normalComments, Cell.isComment]

theorem binding_tokens_word_cells {tokens : List String}
    (plain : ∀ token ∈ tokens, token ≠ "" ∧ ∀ c ∈ token.toList, isBlank c = false) :
    bindingTokens (wordCells tokens) = tokens := by
  induction tokens with
  | nil => rfl
  | cons token rest induction =>
      obtain ⟨filled, unblank⟩ := plain token (by simp)
      have single : bindingTokens (wordCells [token]) = [token] := by
        have stripped : Cell.token ⟨.identifier, token⟩ = token := strip_of_plain unblank
        simp [bindingTokens, wordCells, Cell.isAngle, Cell.isComment, stripped, filled]
      have split : wordCells (token :: rest) = wordCells [token] ++ wordCells rest := rfl
      rw [split, binding_tokens_append, single, induction fun other member => plain other (by simp [member])]
      rfl

theorem comment_lines_shown_cells (cells : List Cell) (rows : List String) (context : Context) :
    commentLines (shownCells cells rows) context = commentLines cells context := by
  have none : (wordCells (rows.flatMap words)).filter Cell.isComment = [] := by
    rw [wordCells, List.filter_map, List.map_eq_nil_iff, List.filter_eq_nil_iff]
    simp [Cell.isComment]
  have all : (normalComments cells).filter Cell.isComment = normalComments cells := by
    rw [List.filter_eq_self]
    intro cell member
    obtain ⟨original, _, rfl⟩ := List.mem_map.mp member
    rfl
  rw [commentLines, shownCells, List.filter_append, List.filter_append, List.filter_append, none, all]
  simp [commentLines, normalComments, Cell.isComment, normal_comment_normal_comment]

/-- What a table shows has the bindings that found a key. -/
theorem collect_bindings_shown_cells {cells : List Cell} (plain : PlainTokens cells) (layout : Layout)
    {context : Context} (unit : isIndentUnit context.indentUnit = true) :
    collectBindings (shownCells cells (rowsOf cells layout context.indentation)) =
      (collectBindings cells).take layout.keyCount := by
  have cut := is_cut_take (group_tokens_is_cut (bindingTokens cells)) layout.keyCount
  have tokens : bindingTokens (shownCells cells (rowsOf cells layout context.indentation)) =
      ((groupTokens [] (bindingTokens cells)).take layout.keyCount).flatten := by
    rw [shownCells, binding_tokens_append, binding_tokens_append, binding_tokens_append,
      binding_tokens_normal_comments, rows_words plain layout unit,
      binding_tokens_word_cells (placed_plain plain layout.keyCount)]
    exact List.append_nil _
  rw [collectBindings, tokens, group_tokens_of_is_cut cut, List.map_take]
  rfl

/-- **The table of what a table shows is the same table**, and nothing is dropped
from it. Its rows show the words of as many bindings as there are keys. -/
theorem render_shown_cells (cells : List Cell) (layout : Layout) (context : Context)
    (unit : isIndentUnit context.indentUnit = true) (plain : PlainTokens cells) :
    ∃ rows table,
      rowLines (placeBindings layout.cells (collectBindings cells)).1 layout.rowSize context = .ok rows ∧
      rows.flatMap words = ((groupTokens [] (bindingTokens cells)).take layout.keyCount).flatten ∧
      table = "\n".intercalate ("<" :: commentLines cells context ++ rows ++
        [context.shallower.indentation ++ ">"]) ∧
      render cells layout context = .ok table ∧
      render (shownCells cells rows) layout context = .ok table ∧
      report? (shownCells cells rows) layout = none := by
  have shown := collect_bindings_shown_cells plain layout unit
  have same : gridOf (shownCells cells (rowsOf cells layout context.indentation)) layout =
      gridOf cells layout := by
    rw [gridOf, shown]
    exact place_bindings_take layout.cells (collectBindings cells)
  refine ⟨rowsOf cells layout context.indentation, _, ?_, rows_words plain layout unit, rfl,
    render_eq cells layout context, ?_, ?_⟩
  · exact row_lines_grid_of cells layout context
  · rw [render_eq, comment_lines_shown_cells, rowsOf, same]
    rfl
  · rw [report?_eq, shown, List.length_take, if_neg (by omega)]

/-- Four bindings for three keys, the first without a reference. -/
def overfullCells : List Cell :=
  [⟨.leftAngle, "<"⟩, ⟨.integerLiteral, "1"⟩, ⟨.reference, " &kp "⟩, ⟨.identifier, "A"⟩,
   ⟨.comment, "//  two  keys "⟩, ⟨.reference, "&trans"⟩, ⟨.reference, "&none"⟩, ⟨.rightAngle, ">"⟩]

theorem render_shown_cells_overfull :
    isIndentUnit cornerContext.indentUnit = true ∧ PlainTokens overfullCells ∧
      cornerLayout.keyCount < (collectBindings overfullCells).length ∧
      ∃ rows table,
        rowLines (placeBindings cornerLayout.cells (collectBindings overfullCells)).1
          cornerLayout.rowSize cornerContext = .ok rows ∧
        rows.flatMap words =
          ((groupTokens [] (bindingTokens overfullCells)).take cornerLayout.keyCount).flatten ∧
        table = "\n".intercalate ("<" :: commentLines overfullCells cornerContext ++ rows ++
          [cornerContext.shallower.indentation ++ ">"]) ∧
        render overfullCells cornerLayout cornerContext = .ok table ∧
        render (shownCells overfullCells rows) cornerLayout cornerContext = .ok table ∧
        report? (shownCells overfullCells rows) cornerLayout = none := by
  have unit : isIndentUnit cornerContext.indentUnit = true := by decide +kernel
  have plain : PlainTokens overfullCells := by decide +kernel
  have exceeds : cornerLayout.keyCount < (collectBindings overfullCells).length := by decide +kernel
  exact ⟨unit, plain, exceeds, render_shown_cells overfullCells cornerLayout cornerContext unit plain⟩

end DevicetreeFormat.Table
