import DevicetreeFormat.Printer.Values
import DevicetreeFormat.Proofs.Shift.Runs
import DevicetreeFormat.Proofs.Table

/-!
# Values at two depths

A value printed some levels further in is the value with a margin before each of
its lines but the first, which stands on the line of the property. Cell lists,
byte strings and binding tables break their lines in different ways; the last
two are lists of lines, and a line is shifted as a whole.
-/

namespace DevicetreeFormat.Printer

set_option autoImplicit false

open Text

theorem times_add (first second : Nat) (unit : String) :
    times (first + second) unit = times first unit ++ times second unit := by
  rw [← String.toList_inj, times, ← List.replicate_append_replicate]
  simp only [times, String.toList_join, String.toList_append, List.flatMap_append]

/-- Two contexts that differ only in depth, the second by as many levels as
`margin` has. -/
structure Offset (margin : List Char) (near far : Context) : Prop where
  inside : 0 ≤ near.depth
  unit : isIndentUnit near.indentUnit = true
  levels : ∃ levels : Nat, far = near.deeperBy levels ∧ margin = (times levels near.indentUnit).toList

namespace Offset

variable {margin : List Char} {near far : Context} (offset : Offset margin near far)

include offset

theorem indentation : far.indentation.toList = margin ++ near.indentation.toList := by
  obtain ⟨levels, rfl, rfl⟩ := offset.levels
  have depth : (near.depth + levels).toNat = levels + near.depth.toNat := by
    have inside := offset.inside
    omega
  rw [Context.indentation, Context.indentation, Context.deeperBy, depth, times_add,
    String.toList_append]

theorem unbroken : '\n' ∉ near.indentation.toList :=
  indentation_unbroken offset.unit

theorem blank : ∀ c ∈ far.indentation.toList, isBlank c = true := by
  intro c member
  have unit : isIndentUnit far.indentUnit = true := by
    obtain ⟨levels, rfl, _⟩ := offset.levels
    exact offset.unit
  rcases indent_unit_char unit (mem_unit_of_mem_times member) with rfl | rfl <;> rfl

theorem deeper : Offset margin near.deeper far.deeper := by
  obtain ⟨levels, rfl, rfl⟩ := offset.levels
  refine ⟨?_, offset.unit, levels, ?_, rfl⟩
  · have inside := offset.inside
    simp only [Context.deeper, Context.deeperBy]
    omega
  · simp only [Context.deeper, Context.deeperBy, Context.mk.injEq, and_true, true_and]
    omega

theorem shallower (below : 1 ≤ near.depth) : Offset margin near.shallower far.shallower := by
  obtain ⟨levels, rfl, rfl⟩ := offset.levels
  refine ⟨?_, offset.unit, levels, ?_, rfl⟩
  · simp only [Context.shallower, Context.shallowerBy]
    omega
  · simp only [Context.shallower, Context.shallowerBy, Context.deeperBy, Context.mk.injEq, and_true,
      true_and]
    omega

theorem in_keymap : Offset margin near.inKeymap far.inKeymap := by
  obtain ⟨levels, rfl, rfl⟩ := offset.levels
  exact ⟨offset.inside, offset.unit, levels, rfl, rfl⟩

theorem in_bindings : Offset margin near.inBindings far.inBindings := by
  obtain ⟨levels, rfl, rfl⟩ := offset.levels
  exact ⟨offset.inside, offset.unit, levels, rfl, rfl⟩

theorem aligns_bindings : far.alignsBindings = near.alignsBindings := by
  obtain ⟨levels, rfl, rfl⟩ := offset.levels
  rfl

end Offset

/-! ### Cell lists -/

theorem getLast_shift_from (margin : List Char) (fresh : Bool) (text : List Char) :
    (shiftFrom margin fresh text).getLast? = text.getLast? := by
  rcases List.eq_nil_or_concat text with rfl | ⟨rest, c, rfl⟩
  · rfl
  · obtain ⟨shifted, same⟩ := shift_from_concat margin fresh rest c
    rw [List.concat_eq_append, same, List.getLast?_concat, List.getLast?_concat]

section

variable {margin : List Char} {near far : Context} (offset : Offset margin near far)

include offset

/-- A line break, indentation, and a word on the new line. -/
theorem shift_from_new_line {word : List Char} (filled : word ≠ []) (unbroken : '\n' ∉ word) :
    shiftFrom margin false ('\n' :: (near.indentation.toList ++ word)) =
      '\n' :: (far.indentation.toList ++ word) := by
  have whole : '\n' ∉ near.indentation.toList ++ word := by
    rw [List.mem_append, not_or]
    exact ⟨offset.unbroken, unbroken⟩
  rw [shift_from_break, shift_from_fresh margin (by simp [filled]) (head_ne_of_unbroken whole),
    shift_from_unbroken margin whole, offset.indentation, List.append_assoc]

theorem shift_from_cell {text token : String} (gap : Gap) (word : IsWord token)
    (ends : endsFresh false text.toList = false) :
    shiftFrom margin false (text ++ gap.text near ++ token).toList =
      shiftFrom margin false text.toList ++ (gap.text far ++ token).toList := by
  have single : ∀ lead : String, '\n' ∉ lead.toList →
      shiftFrom margin false (lead ++ token).toList = (lead ++ token).toList := by
    intro lead unbroken
    apply shift_from_unbroken
    rw [String.toList_append, List.mem_append, not_or]
    exact ⟨unbroken, word.2⟩
  rw [String.append_assoc, String.toList_append, shift_from_append, ends]
  congr 1
  cases gap with
  | none => exact single "" (by simp)
  | space => exact single " " (by decide)
  | line =>
      have broken := shift_from_new_line offset.deeper word.filled word.2
      simpa [Gap.text] using broken

theorem write_cells_shift {tokens : List String} (words : ∀ token ∈ tokens, IsWord token)
    {text shifted : String} (gap : Gap) (same : shifted.toList = shiftFrom margin false text.toList)
    (ends : endsFresh false text.toList = false) :
    (writeCells far shifted gap tokens ++ ">").toList =
      shiftFrom margin false (writeCells near text gap tokens ++ ">").toList := by
  induction tokens generalizing text shifted gap with
  | nil =>
      cases gap with
      | none | space =>
          rw [writeCells, writeCells, String.toList_append, String.toList_append, shift_from_append,
            ends, same]
          · rfl
          all_goals simp
      | line =>
          have broken := shift_from_new_line offset (List.cons_ne_nil '>' []) (by decide)
          have shape : ∀ (lead : String) (context : Context),
              (lead ++ "\n" ++ context.indentation ++ ">").toList =
                lead.toList ++ '\n' :: (context.indentation.toList ++ ['>']) := by simp
          rw [writeCells, writeCells, shape, shape, shift_from_append, ends, same, broken]
  | cons token rest induction =>
      have word : IsWord token := words token (by simp)
      have paren : endsWith "(" shifted = endsWith "(" text := by
        rw [ends_with_parenthesis, ends_with_parenthesis, same, getLast_shift_from]
      have gaps : gapBefore shifted token gap = gapBefore text token gap := by
        cases gap <;> simp only [gapBefore, paren]
      rw [writeCells, writeCells, gaps]
      apply induction fun later member => words later (by simp [member])
      · rw [shift_from_cell offset _ word ends, String.append_assoc, String.toList_append, same]
      · obtain ⟨body, c, shape⟩ := List.eq_nil_or_concat token.toList |>.resolve_left word.filled
        rw [List.concat_eq_append] at shape
        have other : c ≠ '\n' := by
          rintro rfl
          exact word.2 (by rw [shape]; simp)
        rw [String.toList_append, shape, ← List.append_assoc, ends_fresh_concat]
        exact decide_eq_false other

end

/-! ### Lists of lines -/

/-- A line with `margin` before it, unless it is empty. -/
def shiftLine (margin : List Char) (line : String) : String :=
  if line = "" then "" else String.ofList (margin ++ line.toList)

theorem shift_line_toList (margin : List Char) (line : String) :
    (shiftLine margin line).toList = if line.toList = [] then [] else margin ++ line.toList := by
  rw [shiftLine]
  by_cases empty : line = ""
  · rw [if_pos empty, empty]
    rfl
  · rw [if_neg empty, if_neg (toList_ne_nil empty), String.toList_ofList]

theorem shift_from_whole_lines (margin : List Char) {lines : List String}
    (unbroken : ∀ line ∈ lines, '\n' ∉ line.toList) :
    shiftFrom margin true ("\n".intercalate lines).toList =
      ("\n".intercalate (lines.map (shiftLine margin))).toList := by
  induction lines with
  | nil => rfl
  | cons line rest induction =>
      have here : '\n' ∉ line.toList := unbroken line (by simp)
      have later := induction fun other member => unbroken other (by simp [member])
      cases rest with
      | nil =>
          have whole := shift_from_line margin here []
          rw [shift_from_append, shift_from_break] at whole
          rw [List.map_singleton, String.intercalate_singleton, String.intercalate_singleton,
            shift_line_toList]
          exact List.append_cancel_right whole
      | cons next others =>
          rw [List.map_cons] at later ⊢
          rw [List.map_cons, String.intercalate_cons_cons, String.intercalate_cons_cons,
            String.toList_append, String.toList_append, String.toList_append, String.toList_append,
            ← later, shift_line_toList]
          have whole := shift_from_line margin here ("\n".intercalate (next :: others)).toList
          simpa using whole

/-- The first line stands on a line that has been begun. -/
theorem shift_from_lines (margin : List Char) {first : String} {lines : List String}
    (unbroken : '\n' ∉ first.toList) (others : ∀ line ∈ lines, '\n' ∉ line.toList) :
    shiftFrom margin false ("\n".intercalate (first :: lines)).toList =
      ("\n".intercalate (first :: lines.map (shiftLine margin))).toList := by
  cases lines with
  | nil => simpa using shift_from_unbroken margin unbroken
  | cons second later =>
      have rest := shift_from_whole_lines margin others
      rw [List.map_cons] at rest ⊢
      rw [String.intercalate_cons_cons, String.intercalate_cons_cons, String.append_assoc,
        String.toList_append, shift_from_append, ends_fresh_unbroken unbroken,
        shift_from_unbroken margin unbroken, String.toList_append, String.append_assoc,
        String.toList_append, String.toList_append, ← rest]
      rfl

theorem shift_line_indented {margin : List Char} {near far : Context} (offset : Offset margin near far)
    {text : String} (filled : near.indentation ++ text ≠ "") :
    shiftLine margin (near.indentation ++ text) = far.indentation ++ text := by
  rw [shiftLine, if_neg filled, ← String.toList_inj, String.toList_ofList, String.toList_append,
    String.toList_append, offset.indentation, List.append_assoc]

/-! ### Byte strings -/

theorem byte_digits_unbroken (text : String) (cells : List Cell) : '\n' ∉ byteDigits text cells := by
  intro member
  rw [byteDigits, List.mem_filter] at member
  exact absurd member.2 (by decide)

theorem pairs_unbroken {digits : List Char} (unbroken : '\n' ∉ digits) {pairs : List String}
    (inside : ∀ pair ∈ pairs, pair ∈ (Table.pieces 2 digits).map String.ofList) :
    '\n' ∉ (" ".intercalate pairs).toList := by
  intro member
  rcases mem_intercalate member with space | ⟨pair, present, among⟩
  · exact absurd space (by decide)
  · obtain ⟨piece, piecewise, rfl⟩ := List.mem_map.mp (inside pair present)
    rw [String.toList_ofList] at among
    exact unbroken (Table.mem_of_mem_pieces (by decide) piecewise among)

section

variable {margin : List Char} {near far : Context} (offset : Offset margin near far)

include offset

theorem deeper_indentation_ne : near.deeper.indentation ≠ "" := by
  have inside := offset.inside
  have unit := offset.unit
  have depth : (near.depth + 1).toNat = 1 + near.depth.toNat := by omega
  simp only [isIndentUnit, Bool.and_eq_true, Bool.not_eq_true'] at unit
  intro empty
  rw [Context.indentation, Context.deeper, Context.deeperBy, depth, times_add,
    String.append_eq_empty_iff] at empty
  have single : times 1 near.indentUnit = near.indentUnit := by
    rw [← String.toList_inj]
    simp [times]
  rw [single] at empty
  simp [empty.1] at unit

theorem render_bytes_shift {digits : List Char} (unbroken : '\n' ∉ digits) :
    (renderBytes digits far).toList = shiftFrom margin false (renderBytes digits near).toList := by
  simp only [renderBytes]
  split
  · have pairs : '\n' ∉ (" ".intercalate ((Table.pieces 2 digits).map String.ofList)).toList :=
      pairs_unbroken unbroken fun pair member => member
    rw [shift_from_unbroken]
    rw [String.toList_append, String.toList_append, List.mem_append, List.mem_append, not_or, not_or]
    exact ⟨⟨by decide, pairs⟩, by decide⟩
  · -- a long byte string has every line indented, so no line is empty
    generalize spread : (Table.pieces 2 digits).map String.ofList = pairs
    have lines : ∀ line ∈ Table.pieces pairsPerLine pairs, '\n' ∉ (" ".intercalate line).toList := by
      intro line piecewise
      apply pairs_unbroken unbroken
      intro pair member
      rw [spread]
      exact Table.mem_of_mem_pieces (by decide) piecewise member
    rw [List.cons_append, List.cons_append, shift_from_lines margin (by decide)]
    · have each : ∀ line ∈ Table.pieces pairsPerLine pairs,
          shiftLine margin (near.deeper.indentation ++ " ".intercalate line) =
            far.deeper.indentation ++ " ".intercalate line := by
        intro line member
        apply shift_line_indented offset.deeper
        intro empty
        exact deeper_indentation_ne offset (String.append_eq_empty_iff.mp empty).1
      have closing : shiftLine margin (near.indentation ++ "]") = far.indentation ++ "]" :=
        shift_line_indented offset (by simp)
      rw [List.map_append, List.map_map, List.map_singleton, closing]
      congr 4
      apply List.map_congr_left
      intro line member
      exact (each line member).symm
    · intro line member
      rcases List.mem_append.mp member with early | last
      · obtain ⟨pairLine, piecewise, rfl⟩ := List.mem_map.mp early
        rw [String.toList_append, List.mem_append, not_or]
        exact ⟨offset.deeper.unbroken, lines pairLine piecewise⟩
      · rw [List.mem_singleton.mp last, String.toList_append, List.mem_append, not_or]
        exact ⟨offset.unbroken, by decide⟩

end

/-! ### Binding tables -/

theorem drop_back_append (inClass : Char → Bool) (first second : List Char) :
    dropBack inClass (first ++ second) =
      if dropBack inClass second = [] then dropBack inClass first
      else first ++ dropBack inClass second := by
  rw [dropBack, dropBack, dropBack, List.reverse_append, List.dropWhile_append]
  by_cases empty : second.reverse.dropWhile inClass = []
  · simp [empty]
  · simp [empty]

theorem drop_back_all {inClass : Char → Bool} {characters : List Char}
    (all : ∀ c ∈ characters, inClass c = true) : dropBack inClass characters = [] := by
  have none : characters.filter (fun c => !inClass c) = [] := by
    rw [List.filter_eq_nil_iff]
    intro c member
    simp [all c member]
  rcases List.eq_nil_or_concat (dropBack inClass characters) with empty | ⟨front, last, shape⟩
  · exact empty
  · rw [List.concat_eq_append] at shape
    have kept := filter_drop_back inClass characters
    rw [none, shape, List.filter_append] at kept
    simp [drop_back_last shape] at kept

section

variable {margin : List Char} {near far : Context} (offset : Offset margin near far)

include offset

theorem row_text_shift (columns : List Nat) (row : List String) :
    Table.rowText columns far.indentation row =
      shiftLine margin (Table.rowText columns near.indentation row) := by
  -- a row without cells is stripped of its indentation, and then of the margin too
  have blankMargin : ∀ c ∈ margin, isBlank c = true := fun c member =>
    offset.blank c (by rw [offset.indentation]; exact List.mem_append_left _ member)
  rw [← String.toList_inj, shift_line_toList, Table.rowText, Table.rowText, stripBack, stripBack,
    String.toList_ofList, String.toList_ofList, String.append_assoc, String.append_assoc,
    String.toList_append, offset.indentation, List.append_assoc, drop_back_append isBlank margin,
    drop_back_all blankMargin, ← String.toList_append]

theorem table_shift {cells : List Cell} (layout : Layout) (below : 1 ≤ near.depth)
    (lines : ∀ cell ∈ cells, cell.isAngle = true ∨ OneLine cell.text) :
    ("\n".intercalate ("<" :: (Table.commentLines cells far ++
        Table.rowsOf cells layout far.indentation ++ [far.shallower.indentation ++ ">"]))).toList =
      shiftFrom margin false ("\n".intercalate ("<" :: (Table.commentLines cells near ++
        Table.rowsOf cells layout near.indentation ++ [near.shallower.indentation ++ ">"]))).toList := by
  have comment : ∀ cell ∈ cells.filter Cell.isComment, IsWord (normalComment cell.text) := by
    intro cell member
    obtain ⟨inside, kind⟩ := List.mem_filter.mp member
    rcases lines cell inside with angle | line
    · simp only [Cell.isComment, Cell.isAngle, decide_eq_true_eq, Bool.or_eq_true] at kind angle
      rw [kind] at angle
      rcases angle with left | right
      · cases left
      · cases right
    · exact is_word_normal_comment line
  rw [shift_from_lines margin (by decide)]
  · have comments : (Table.commentLines cells near).map (shiftLine margin) = Table.commentLines cells far := by
      rw [Table.commentLines, Table.commentLines, List.map_map]
      apply List.map_congr_left
      intro cell member
      exact shift_line_indented offset fun empty =>
        (comment cell member).1 (String.append_eq_empty_iff.mp empty).2
    have rows : (Table.rowsOf cells layout near.indentation).map (shiftLine margin) =
        Table.rowsOf cells layout far.indentation := by
      rw [Table.rowsOf, Table.rowsOf, List.map_map]
      apply List.map_congr_left
      intro row member
      rw [Function.comp_apply, ← row_text_shift offset]
    have closing : shiftLine margin (near.shallower.indentation ++ ">") =
        far.shallower.indentation ++ ">" :=
      shift_line_indented (offset.shallower below) (by simp)
    rw [List.map_append, List.map_append, List.map_singleton, comments, rows, closing]
  · intro line member
    rw [List.mem_append, List.mem_append] at member
    rcases member with (commented | row) | last
    · obtain ⟨cell, present, rfl⟩ := List.mem_map.mp commented
      rw [String.toList_append, List.mem_append, not_or]
      exact ⟨offset.unbroken, (comment cell present).2⟩
    · exact Table.rows_of_unbroken lines layout offset.unbroken line row
    · rw [List.mem_singleton.mp last, String.toList_append, List.mem_append, not_or]
      exact ⟨(offset.shallower below).unbroken, by decide⟩

end

/-! ### Printing values -/

theorem write_cells_lead (context : Context) (text : String) (gap : Gap) (tokens : List String) :
    ∃ rest, (writeCells context text gap tokens).toList = text.toList ++ rest := by
  induction tokens generalizing text gap with
  | nil => cases gap <;> simp [writeCells]
  | cons token later induction =>
      rw [writeCells]
      obtain ⟨rest, shape⟩ := induction (text ++ (gapBefore text token gap).text context ++ token)
        (if isLineComment token then .line else .space)
      rw [shape, String.toList_append, String.toList_append, List.append_assoc, List.append_assoc]
      exact ⟨_, rfl⟩

/-- A text that begins and ends with the given characters. -/
def Bracketed (opening closing : Char) (text : String) : Prop :=
  (∃ rest, text.toList = opening :: rest) ∧ ∃ lead, text.toList = lead ++ [closing]

theorem bracketed_lines {opening closing : String} {first last : Char}
    (opens : opening.toList = [first]) (closes : closing.toList = [last]) (indentation : String)
    (lines : List String) :
    Bracketed first last ("\n".intercalate (opening :: (lines ++ [indentation ++ closing]))) := by
  constructor
  · obtain ⟨rest, shape⟩ := intercalate_first "\n" opening (lines ++ [indentation ++ closing])
    rw [shape, opens]
    exact ⟨rest, rfl⟩
  · obtain ⟨lead, shape⟩ := intercalate_last "\n" (opening :: lines) (indentation ++ closing)
    rw [List.cons_append, String.toList_append, ← List.append_assoc, closes] at shape
    exact ⟨_, shape⟩

theorem render_bytes_bracketed (digits : List Char) (context : Context) :
    Bracketed '[' ']' (renderBytes digits context) := by
  simp only [renderBytes]
  split
  · constructor
    · rw [String.append_assoc, String.toList_append]
      exact ⟨_, rfl⟩
    · rw [String.toList_append]
      exact ⟨_, rfl⟩
  · exact bracketed_lines rfl rfl _ _

theorem plain_cells_bracketed (cells : List Cell) (context : Context) :
    Bracketed '<' '>' (plainCells cells context) := by
  obtain ⟨rest, shape⟩ := write_cells_lead context "<" .none
    ((cells.filter fun cell => !cell.isAngle).map cellToken)
  rw [plainCells]
  constructor
  · rw [String.toList_append, shape, List.append_assoc]
    exact ⟨_, rfl⟩
  · rw [String.toList_append]
    exact ⟨_, rfl⟩

theorem carries_bracketed {margin front : List Char} {text other : String} {opening closing : Char}
    (bracketed : Bracketed opening closing text) (marks : opening ≠ '\n' ∧ closing ≠ '\n')
    (shifted : other.toList = shiftFrom margin false text.toList) :
    Carries (OnLine margin front) (AfterToken margin front) [.write text] [.write other] := by
  obtain ⟨⟨rest, begins⟩, lead, ends⟩ := bracketed
  apply carries_value _ _ _ shifted
  · rw [begins]
    simp
  · rw [begins]
    simpa using marks.1
  · rw [ends, ends_fresh_concat]
    exact decide_eq_false marks.2

section

variable {margin front : List Char} {near far : Context} (offset : Offset margin near far)

include offset

theorem print_bytes_carries (text : String) (cells : List Cell) :
    Carries (OnLine margin front) (AfterToken margin front) (printBytes text cells near)
      (printBytes text cells far) :=
  carries_bracketed (render_bytes_bracketed _ _) (by decide)
    (render_bytes_shift offset (byte_digits_unbroken text cells))

theorem print_cells_carries {cells : List Cell} (layout : Layout)
    (below : near.bindings = true → 1 ≤ near.depth)
    (lines : ∀ cell ∈ cells, cell.isAngle = true ∨ OneLine cell.text) :
    Carries (OnLine margin front) (AfterToken margin front) (printCells layout cells near)
      (printCells layout cells far) := by
  rw [printCells, printCells, offset.aligns_bindings]
  split
  · next table =>
      rw [Context.alignsBindings, Bool.and_eq_true] at table
      rw [Table.render_eq, Table.render_eq]
      apply carries_append (carries_report _ _)
      have shifted := table_shift offset layout (below table.2) lines
      exact carries_bracketed (bracketed_lines rfl rfl _ _) (by decide) shifted
  · have words : ∀ token ∈ (cells.filter fun cell => !cell.isAngle).map cellToken, IsWord token := by
      intro token member
      obtain ⟨cell, kept, rfl⟩ := List.mem_map.mp member
      obtain ⟨inside, plain⟩ := List.mem_filter.mp kept
      rcases lines cell inside with angle | line
      · rw [angle] at plain
        cases plain
      · rw [cellToken]
        split
        · exact is_word_normal_comment line
        · exact line
    exact carries_bracketed (plain_cells_bracketed cells near) (by decide)
      (write_cells_shift offset words .none rfl rfl)

end

end DevicetreeFormat.Printer
