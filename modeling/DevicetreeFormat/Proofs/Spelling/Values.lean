import DevicetreeFormat.Proofs.Coherent
import DevicetreeFormat.Proofs.Spelling.Lines
import DevicetreeFormat.Proofs.Table

/-!
# The ink of values

A cell list and a byte string are written between brackets of the printer's own.
A plain cell list keeps everything between its brackets. A binding table leaves
out bindings that find no key and moves comments to the front, so its cell list
has to fit.
-/

namespace DevicetreeFormat.Printer

set_option autoImplicit false

open Text

/-- The flags of a context are among the given ones, and its indentation is
blank. -/
structure Admits (keymap bindings : Bool) (context : Context) : Prop where
  blank : Text.ink context.indentUnit = []
  keymap : context.keymap = true → keymap = true
  bindings : context.bindings = true → bindings = true

theorem admits_deeper {keymap bindings : Bool} {context : Context}
    (admits : Admits keymap bindings context) : Admits keymap bindings context.deeper :=
  ⟨admits.blank, admits.keymap, admits.bindings⟩

theorem write_cells_ink {context : Context} (blank : Text.ink context.indentUnit = [])
    (text : String) (gap : Gap) (tokens : List String) :
    Text.ink (writeCells context text gap tokens) = Text.ink text ++ tokens.flatMap Text.ink := by
  have deeper : Text.ink context.deeper.indentation = [] := ink_indentation blank
  have gaps : ∀ gap : Gap, Text.ink (gap.text context) = [] := by
    intro gap
    cases gap <;> simp [Gap.text, deeper, show Text.ink "\n" = [] from rfl, show Text.ink " " = [] from rfl]
  fun_induction writeCells context text gap tokens with
  | case1 text => simp [ink_indentation blank, show Text.ink "\n" = [] from rfl]
  | case2 text gap other => simp
  | case3 text gap token rest induction =>
      rw [induction, ink_append, ink_append, gaps, List.flatMap_cons]
      simp

theorem cell_token_ink (cell : Cell) : Text.ink (cellToken cell) = Text.ink cell.text := by
  unfold cellToken
  split
  · exact ink_normal_comment cell.text
  · exact ink_token cell

/-- A cell list in its brackets: what stands between them is kept. -/
theorem plain_cells_ink {context : Context} (blank : Text.ink context.indentUnit = [])
    {first last : Cell} {inner : List Cell} (opening : first.isAngle = true)
    (closing : last.isAngle = true) (inside : ∀ cell ∈ inner, cell.isAngle = false) :
    Text.ink (plainCells (first :: (inner ++ [last])) context) =
      '<' :: (inner.flatMap fun cell => Text.ink cell.text) ++ ['>'] := by
  have kept : (first :: (inner ++ [last])).filter (fun cell => !cell.isAngle) = inner := by
    rw [List.filter_cons_of_neg (by simp [opening]), List.filter_append,
      List.filter_eq_self.mpr (by simpa using inside)]
    simp [closing]
  rw [plainCells, kept, ink_append, write_cells_ink blank, List.flatMap_map]
  simp only [cell_token_ink]
  rfl

/-- Comments first and then the other cells: nothing changes when the comments
come first anyway. -/
theorem leading_comments_ink {cells : List Cell} (inside : ∀ cell ∈ cells, cell.isAngle = false)
    (leading : ∀ cell ∈ cells.dropWhile fun cell => cell.isComment || cell.isAngle,
      cell.isComment = false) :
    ((cells.filter Cell.isComment).flatMap fun cell => Text.ink cell.text) ++
      ((cells.filter fun cell => !cell.isAngle && !cell.isComment).flatMap fun cell =>
        Text.ink cell.text) = cells.flatMap fun cell => Text.ink cell.text := by
  induction cells with
  | nil => rfl
  | cons cell rest induction =>
      have straight : cell.isAngle = false := inside cell (by simp)
      have later : ∀ other ∈ rest, other.isAngle = false := fun other member =>
        inside other (by simp [member])
      by_cases comment : cell.isComment = true
      · rw [List.dropWhile_cons_of_pos (by simp [comment])] at leading
        have rest := induction later leading
        rw [List.filter_cons_of_pos comment, List.filter_cons_of_neg (by simp [comment]),
          List.flatMap_cons, List.flatMap_cons, List.append_assoc, rest]
      · -- from the first binding on there is no comment left
        rw [List.dropWhile_cons_of_neg (by simp [comment, straight])] at leading
        have none : (cell :: rest).filter Cell.isComment = [] := by
          rw [List.filter_eq_nil_iff]
          intro other member
          simp [leading other member]
        have all : (cell :: rest).filter (fun cell => !cell.isAngle && !cell.isComment) =
            cell :: rest := by
          rw [List.filter_eq_self]
          intro other member
          simp [leading other member, inside other member]
        rw [none, all]
        rfl

theorem table_ink {context : Context} (blank : Text.ink context.indentUnit = []) {layout : Layout}
    {first last : Cell} {inner : List Cell} (opening : first.kind = .leftAngle)
    (closing : last.kind = .rightAngle) (inside : ∀ cell ∈ inner, cell.isAngle = false)
    (keeps : Table.Keeps layout (first :: (inner ++ [last]))) :
    ∃ table, Table.render (first :: (inner ++ [last])) layout context = .ok table ∧
      Text.ink table = '<' :: (inner.flatMap fun cell => Text.ink cell.text) ++ ['>'] := by
  refine ⟨_, Table.render_eq _ layout context, ?_⟩
  have shallower : Text.ink context.shallower.indentation = [] := ink_indentation blank
  have opened : first.isAngle = true := by simp [Cell.isAngle, opening]
  have closed : last.isAngle = true := by simp [Cell.isAngle, closing]
  have noComment : first.isComment = false ∧ last.isComment = false := by
    simp [Cell.isComment, opening, closing]
  have comments : (first :: (inner ++ [last])).filter Cell.isComment = inner.filter Cell.isComment := by
    simp [noComment]
  have others : (first :: (inner ++ [last])).filter (fun cell => !cell.isAngle && !cell.isComment) =
      inner.filter fun cell => !cell.isAngle && !cell.isComment := by
    simp [opened, closed]
  have leading : ∀ cell ∈ inner.dropWhile fun cell => cell.isComment || cell.isAngle,
      cell.isComment = false := by
    intro cell member
    apply keeps.2 cell
    rw [List.dropWhile_cons_of_pos (by simp [opened]), List.dropWhile_append]
    split
    · next empty => simp [List.isEmpty_iff.mp empty] at member
    · exact List.mem_append_left _ member
  rw [ink_intercalate (show Text.ink "\n" = [] from rfl), List.flatMap_append, List.flatMap_append,
    List.flatMap_cons, Table.comment_lines_ink _ blank,
    Table.rows_of_ink _ _ (ink_indentation blank), Table.grid_of_ink keeps.1, comments, others]
  have ordered := leading_comments_ink inside leading
  simp only [List.append_assoc, List.flatMap_cons, List.flatMap_nil, ink_append, shallower]
  rw [← List.append_assoc (List.flatMap _ (inner.filter Cell.isComment)), ordered]
  rfl

theorem is_angle_eq_false {cell : Cell}
    (neither : cell.kind ≠ .leftAngle ∧ cell.kind ≠ .rightAngle) : cell.isAngle = false := by
  simp [Cell.isAngle, neither]

theorem print_cells_spells {keymap bindings : Bool} {context : Context}
    (admits : Admits keymap bindings context) {layout : Layout} {first last : Cell}
    {inner : List Cell} (opening : first.kind = .leftAngle) (closing : last.kind = .rightAngle)
    (inside : ∀ cell ∈ inner, cell.kind ≠ .leftAngle ∧ cell.kind ≠ .rightAngle)
    (keeps : keymap = true → bindings = true → Table.Keeps layout (first :: (inner ++ [last]))) :
    Spells (printCells layout (first :: (inner ++ [last])) context)
      ('<' :: (inner.flatMap fun cell => Text.ink cell.text) ++ ['>']) := by
  have straight : ∀ cell ∈ inner, cell.isAngle = false := fun cell member =>
    is_angle_eq_false (inside cell member)
  unfold printCells
  split
  · next aligned =>
      rw [Context.alignsBindings, Bool.and_eq_true] at aligned
      have fits := keeps (admits.keymap aligned.1) (admits.bindings aligned.2)
      obtain ⟨table, rendered, inked⟩ := table_ink admits.blank opening closing straight fits
      rw [rendered, ← inked]
      apply spells_lead _ (spells_write table)
      cases Table.report? (first :: (inner ++ [last])) layout with
      | none => exact spells_nil
      | some message => exact ⟨complete_cons rfl complete_nil, rfl⟩
  · have opened : first.isAngle = true := by simp [Cell.isAngle, opening]
    have closed : last.isAngle = true := by simp [Cell.isAngle, closing]
    rw [← plain_cells_ink admits.blank opened closed straight]
    exact spells_write _

theorem render_bytes_ink {context : Context} (blank : Text.ink context.indentUnit = [])
    {digits : List Char} (inked : ∀ c ∈ digits, isBlank c = false) :
    Text.ink (renderBytes digits context) = '[' :: digits ++ [']'] := by
  have deeper : Text.ink context.deeper.indentation = [] := ink_indentation blank
  have whole : ((Table.pieces 2 digits).map String.ofList).flatMap Text.ink = digits := by
    rw [List.flatMap_map]
    simp only [ink_ofList]
    rw [List.flatMap_def, ← List.filter_flatten, Table.pieces_flatten (by decide),
      List.filter_eq_self]
    simpa using inked
  simp only [renderBytes]
  split
  · rw [ink_append, ink_append, ink_intercalate (show Text.ink " " = [] from rfl), whole]
    rfl
  · have lines : ((Table.pieces pairsPerLine ((Table.pieces 2 digits).map String.ofList)).map
        fun line => context.deeper.indentation ++ " ".intercalate line).flatMap Text.ink = digits := by
      rw [List.flatMap_map]
      simp only [ink_append, deeper, List.nil_append, ink_intercalate (show Text.ink " " = [] from rfl)]
      rw [← Table.flatMap_flatten, Table.pieces_flatten (by decide), whole]
    rw [ink_intercalate (show Text.ink "\n" = [] from rfl), List.flatMap_append, List.flatMap_cons,
      lines]
    simp only [List.flatMap_cons, List.flatMap_nil, ink_append, ink_indentation blank]
    rfl

/-- Between two brackets that are all the ink of a text there is none. -/
theorem bracketed_ink {text : String} {opening closing : Char}
    (inked : Text.ink text = [opening, closing]) :
    (((strip text).toList.drop 1).dropLast.filter fun c => !isBlank c) = [] := by
  have filled : strip text ≠ "" := by
    intro empty
    rw [(ink_eq_nil_iff text).mpr empty] at inked
    simp at inked
  obtain ⟨first, rest, front, leading⟩ := strip_first text filled
  obtain ⟨body, last, back, trailing⟩ := strip_last text filled
  rw [← ink_strip, Text.ink, front, List.filter_cons_of_pos (by simp [leading])] at inked
  -- the first and the last character are the brackets, so nothing is left for the middle
  have remaining := (List.cons.inj inked).2
  rcases List.eq_nil_or_concat rest with rfl | ⟨middle, final, rfl⟩
  · simp at remaining
  · rw [front, List.concat_eq_append, ← List.cons_append] at back
    have same : final = last := (List.cons.inj (List.append_inj' back rfl).2).1
    rw [List.concat_eq_append, List.filter_append, same,
      List.filter_cons_of_pos (by simp [trailing]), List.filter_nil] at remaining
    have middleInk : middle.filter (fun c => !isBlank c) = [] := by
      have lengths := congrArg List.length remaining
      simp only [List.length_append, List.length_cons, List.length_nil] at lengths
      exact List.length_eq_zero_iff.mp (by omega)
    rw [front, List.drop_succ_cons, List.drop_zero, List.concat_eq_append, List.dropLast_concat]
    exact middleInk

theorem byte_digits_eq {text : String} {first last : Cell} {inner : List Cell}
    (opening : first.kind = .leftBracket) (closing : last.kind = .rightBracket)
    (inside : ∀ cell ∈ inner, cell.kind ≠ .leftBracket ∧ cell.kind ≠ .rightBracket)
    (plain : ∀ cell ∈ inner, cell.kind ≠ .comment)
    (covered : inner = [] → Text.ink text = ['[', ']']) :
    byteDigits text (first :: (inner ++ [last])) = inner.flatMap fun cell => Text.ink cell.text := by
  have kept : (first :: (inner ++ [last])).filter (fun cell =>
      cell.kind ≠ .leftBracket && cell.kind ≠ .rightBracket && cell.kind ≠ .comment) = inner := by
    rw [List.filter_cons_of_neg (by simp [opening]), List.filter_append, List.filter_eq_self.mpr]
    · simp [closing]
    · intro cell member
      simp [inside cell member, plain cell member]
  simp only [byteDigits]
  rw [kept]
  by_cases empty : inner = []
  · rw [if_pos (by simp [empty]), bracketed_ink (covered empty), empty]
    rfl
  · rw [if_neg (by simpa using empty), List.filter_flatMap]
    simp only [← ink_token]
    rfl

theorem print_bytes_spells {context : Context} (blank : Text.ink context.indentUnit = [])
    {text : String} {first last : Cell} {inner : List Cell}
    (opening : first.kind = .leftBracket) (closing : last.kind = .rightBracket)
    (inside : ∀ cell ∈ inner, cell.kind ≠ .leftBracket ∧ cell.kind ≠ .rightBracket)
    (plain : ∀ cell ∈ inner, cell.kind ≠ .comment)
    (covered : inner = [] → Text.ink text = ['[', ']']) :
    Spells (printBytes text (first :: (inner ++ [last])) context)
      ('[' :: (inner.flatMap fun cell => Text.ink cell.text) ++ [']']) := by
  rw [printBytes, byte_digits_eq opening closing inside plain covered, ← render_bytes_ink blank]
  · exact spells_write _
  · intro c member
    obtain ⟨cell, _, inked⟩ := List.mem_flatMap.mp member
    simpa using (List.mem_filter.mp inked).2

end DevicetreeFormat.Printer
