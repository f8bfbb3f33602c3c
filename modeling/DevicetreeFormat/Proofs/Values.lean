import DevicetreeFormat.Proofs.Sequence
import DevicetreeFormat.Proofs.Spelling.Values
import DevicetreeFormat.Proofs.Tidy.Values

/-!
# The texts of values

A cell list outside a binding table is written by a loop that carries the text so
far and the gap before the next cell. If no cell is empty, the gap behind a cell
depends on that cell and on the next one only.

A byte string is written from its digits alone. The digits are cut into pairs and,
if there are many, the pairs into lines; a text made in this way has the same
digits again.
-/

namespace DevicetreeFormat.Printer

set_option autoImplicit false

open Text

/-! ### Gaps between cells -/

/-- What is written behind a cell, with `next` after it or nothing. -/
def gapBehind (context : Context) (cell : String) : Option String → String
  | none => if isLineComment cell then "\n" ++ context.indentation else ""
  | some next =>
      if isLineComment cell then "\n" ++ context.deeper.indentation
      else if next = ")" || endsWith "(" cell then "" else " "

/-- The cells, each with what is written behind it. -/
def spacedCells (context : Context) : List String → List String
  | [] => []
  | cell :: rest => (cell ++ gapBehind context cell rest.head?) :: spacedCells context rest

theorem spaced_cells_length (context : Context) (cells : List String) :
    (spacedCells context cells).length = cells.length := by
  induction cells with
  | nil => rfl
  | cons cell rest induction => rw [spacedCells, List.length_cons, List.length_cons, induction]

theorem spaced_cells_at (context : Context) {cells : List String} {index : Nat} {cell : String}
    (found : cells[index]? = some cell) :
    (spacedCells context cells)[index]? =
      some (cell ++ gapBehind context cell cells[index + 1]?) := by
  induction cells generalizing index with
  | nil => simp at found
  | cons first rest induction =>
      cases index with
      | zero =>
          obtain rfl : first = cell := by simpa using found
          simp [spacedCells, List.head?_eq_getElem?]
      | succ index =>
          rw [List.getElem?_cons_succ] at found
          simpa [spacedCells] using induction found

theorem ends_with_parenthesis_append (text : String) {cell : String} (filled : cell ≠ "") :
    endsWith "(" (text ++ cell) = endsWith "(" cell := by
  rw [ends_with_parenthesis, ends_with_parenthesis, String.toList_append,
    List.getLast?_append_of_ne_nil _ (toList_ne_nil filled)]

/-- The gap that the loop carries behind a cell. -/
def gapAfter (cell : String) : Gap :=
  if isLineComment cell then .line else .space

theorem gap_before_after (context : Context) (text : String) {cell : String} (filled : cell ≠ "")
    (next : String) :
    (gapBefore (text ++ cell) next (gapAfter cell)).text context =
      gapBehind context cell (some next) := by
  simp only [gapAfter, gapBehind]
  by_cases line : isLineComment cell = true
  · rw [if_pos line, if_pos line]
    rfl
  · rw [if_neg line, if_neg line, gapBefore, ends_with_parenthesis_append text filled]
    split <;> rfl

/-- The loop behind a cell: the text so far is read at its end only, and there
stands the cell. -/
theorem write_cells_spaced (context : Context) {cells : List String}
    (filled : ∀ cell ∈ cells, cell ≠ "") (text : String) {last : String} (ends : last ≠ "") :
    writeCells context (text ++ last) (gapAfter last) cells =
      text ++ last ++ gapBehind context last cells.head? ++
        String.join (spacedCells context cells) := by
  induction cells generalizing text last with
  | nil =>
      simp only [gapAfter, gapBehind, List.head?_nil, spacedCells]
      split <;> simp [writeCells, String.append_assoc]
  | cons cell rest induction =>
      rw [writeCells, gap_before_after context text ends, ← gapAfter,
        induction (fun other member => filled other (by simp [member])) _ (filled cell (by simp)),
        List.head?_cons, spacedCells, String.join_cons]
      simp only [String.append_assoc]

theorem write_cells_eq (context : Context) {cells : List String}
    (filled : ∀ cell ∈ cells, cell ≠ "") :
    writeCells context "<" .none cells = "<" ++ String.join (spacedCells context cells) := by
  cases cells with
  | nil => rfl
  | cons cell rest =>
      have later : ∀ other ∈ rest, other ≠ "" := fun other member => filled other (by simp [member])
      rw [writeCells, ← gapAfter, write_cells_spaced context later _ (filled cell (by simp)),
        spacedCells, String.join_cons]
      simp only [gapBefore, Gap.text, String.append_empty, String.append_assoc]

theorem cell_token_ne_empty {cell : Cell} (filled : cell.token ≠ "") : cellToken cell ≠ "" := by
  intro empty
  have inked : ink cell.text = [] := by rw [← cell_token_ink, empty]; rfl
  exact filled ((ink_eq_nil_iff cell.text).mp inked)

/-- The texts of the cells of a cell list, as they are printed. -/
def shownCells (tree : Tree) : List String :=
  ((tree.children.map Tree.cell).filter fun cell => !cell.isAngle).map cellToken

/-- **The gap behind a cell depends on this cell and the next one only.** A plain
cell list without empty cells is written cell by cell, each with its gap; a line
comment is followed by a line break, and two cells stand side by side only next to
the inside of a parenthesis. -/
theorem print_plain_cells (settings : Settings) (place : Place) {tree : Tree}
    (cells : tree.kind = .integerCells)
    (filled : ∀ child ∈ tree.children, child.cell.isAngle = false → child.token ≠ "")
    {context : Context} (plain : context.alignsBindings = false) :
    ∃ spaced : List String,
      (part settings place tree).print context = [.write ("<" ++ String.join spaced ++ ">")] ∧
      spaced.length = (shownCells tree).length ∧
      ∀ index cell, (shownCells tree)[index]? = some cell →
        spaced[index]? = some (cell ++ gapBehind context cell (shownCells tree)[index + 1]?) ∧
        (isLineComment cell = true →
          ∃ indentation, spaced[index]? = some (cell ++ "\n" ++ indentation)) ∧
        ∀ next, (shownCells tree)[index + 1]? = some next → spaced[index]? = some cell →
          next = ")" ∨ endsWith "(" cell = true := by
  have shown : ∀ cell ∈ shownCells tree, cell ≠ "" := by
    intro shownCell member
    obtain ⟨cell, kept, rfl⟩ := List.mem_map.mp member
    obtain ⟨inside, straight⟩ := List.mem_filter.mp kept
    obtain ⟨child, present, rfl⟩ := List.mem_map.mp inside
    exact cell_token_ne_empty (filled child present (by simpa using straight))
  refine ⟨spacedCells context (shownCells tree), ?_, spaced_cells_length context _, ?_⟩
  · rw [print_cells settings place context cells, printCells, if_neg (by simp [plain]), plainCells,
      ← shownCells, write_cells_eq context shown]
  · intro index cell found
    have gap := spaced_cells_at context found
    refine ⟨gap, ?_, ?_⟩
    · intro line
      rw [gap]
      cases (shownCells tree)[index + 1]? with
      | none => exact ⟨context.indentation, by simp [gapBehind, line, String.append_assoc]⟩
      | some next => exact ⟨context.deeper.indentation, by simp [gapBehind, line, String.append_assoc]⟩
    · intro next following bare
      rw [gap, following, Option.some_inj] at bare
      have none : gapBehind context cell (some next) = "" := by
        have lengths := congrArg (fun text => text.toList.length) bare
        rw [String.toList_append, List.length_append] at lengths
        exact String.toList_eq_nil_iff.mp (List.length_eq_zero_iff.mp (by omega))
      simp only [gapBehind] at none
      split at none
      · simp at none
      · split at none
        · next beside => simpa using beside
        · simp at none

/-- The cells `( 1 ) //note ) /* a */`. -/
def mixedCells : Tree :=
  .spanning .integerCells
    [.mark .leftAngle, .leaf .unknown "(", .leaf .integerLiteral " 1", .leaf .unknown ")",
     .leaf .comment "//note ", .leaf .unknown ")", .leaf .comment "/* a */", .mark .rightAngle]

def indentedContext : Context where
  indentUnit := "\t"
  depth := 1

theorem print_plain_cells_mixed :
    shownCells mixedCells = ["(", "1", ")", "// note", ")", "/* a */"] ∧
      ∃ spaced : List String,
        (part sampleSettings {} mixedCells).print indentedContext =
          [.write ("<" ++ String.join spaced ++ ">")] ∧
        spaced.length = 6 ∧ spaced[0]? = some "(" ∧ spaced[1]? = some "1" ∧
        spaced[2]? = some ") " ∧ spaced[3]? = some "// note\n\t\t" ∧ spaced[4]? = some ") " ∧
        spaced[5]? = some "/* a */" := by
  have shown : shownCells mixedCells = ["(", "1", ")", "// note", ")", "/* a */"] := by
    decide +kernel
  obtain ⟨spaced, printed, count, behind⟩ := print_plain_cells sampleSettings {}
    (show mixedCells.kind = .integerCells by decide +kernel)
    (show ∀ child ∈ mixedCells.children, child.cell.isAngle = false → child.token ≠ "" by
      decide +kernel)
    (show indentedContext.alignsBindings = false by decide)
  rw [shown] at count behind
  refine ⟨shown, spaced, printed, count, ?_⟩
  exact ⟨(behind 0 _ rfl).1, (behind 1 _ rfl).1, (behind 2 _ rfl).1, (behind 3 _ rfl).1,
    (behind 4 _ rfl).1, (behind 5 _ rfl).1⟩

/-! ### Digits -/

/-- Consecutive pieces of a list, full up to the last, which is not empty. -/
structure Cut {α : Type} (size : Nat) (items : List α) (pieces : List (List α)) : Prop where
  whole : pieces.flatten = items
  full : ∀ piece ∈ pieces.dropLast, piece.length = size
  last : ∀ piece ∈ pieces.getLast?, 1 ≤ piece.length ∧ piece.length ≤ size

theorem pieces_cut {α : Type} {size : Nat} (sized : 0 < size) (items : List α) :
    Cut size items (Table.pieces size items) := by
  refine ⟨Table.pieces_flatten sized items, ?_, ?_⟩
  · induction items using Table.pieces_induction sized with
    | nil => simp [Table.pieces_nil]
    | piece items filled induction =>
        rw [Table.pieces_of_ne_nil sized filled]
        intro piece member
        by_cases exhausted : items.drop size = []
        · simp [exhausted, Table.pieces_nil] at member
        · have more : Table.pieces size (items.drop size) ≠ [] := by
            rw [Table.pieces_of_ne_nil sized exhausted]
            exact List.cons_ne_nil _ _
          rw [List.dropLast_cons_of_ne_nil more, List.mem_cons] at member
          rcases member with rfl | later
          · rw [List.drop_eq_nil_iff] at exhausted
            rw [List.length_take]
            omega
          · exact induction piece later
  · intro piece last
    have member := List.mem_of_mem_getLast? last
    exact ⟨List.length_pos_iff.mpr (Table.ne_nil_of_mem_pieces sized member),
      Table.length_of_mem_pieces sized member⟩

/-- The nodes between the brackets of a byte string that are no comments. -/
def byteContents (tree : Tree) : List Tree :=
  tree.children.filter fun child =>
    child.kind ≠ .leftBracket && child.kind ≠ .rightBracket && child.kind ≠ .comment

/-- The characters of a byte string that count: the ink of its contents or, if it
has none, the ink between the ends of its own text. -/
def byteInk (tree : Tree) : List Char :=
  if byteContents tree = [] then (tree.token.toList.drop 1).dropLast.filter fun c => !isBlank c
  else (byteContents tree).flatMap fun child => ink child.text

theorem byte_ink_eq (tree : Tree) :
    byteDigits tree.text (tree.children.map Tree.cell) = byteInk tree := by
  have inner : (tree.children.map Tree.cell).filter (fun cell =>
      cell.kind ≠ .leftBracket && cell.kind ≠ .rightBracket && cell.kind ≠ .comment) =
      (byteContents tree).map Tree.cell := by
    rw [List.filter_map]
    rfl
  simp only [byteDigits, byteInk]
  rw [inner]
  by_cases empty : byteContents tree = []
  · rw [if_pos (by simp [empty]), if_pos empty]
    rfl
  · rw [if_neg (by simpa using empty), if_neg empty, List.flatMap_map, List.filter_flatMap]
    have each : (fun child : Tree => child.cell.token.toList.filter fun c => !isBlank c) =
        fun child => ink child.text := funext fun child => ink_token child.cell
    rw [each]

theorem byte_ink_inked (tree : Tree) : ∀ c ∈ byteInk tree, isBlank c = false := by
  rw [← byte_ink_eq]
  intro c member
  simpa using (List.mem_filter.mp member).2

/-- The lines of a byte string. -/
def byteLines (context : Context) (pairs : List (List Char)) (rows : List (List (List Char))) :
    List (List Char) :=
  if pairs.length ≤ 16 then [['['] ++ [' '].intercalate pairs ++ [']']]
  else
    [['[']] ++ rows.map (fun row => context.deeper.indentation.toList ++ [' '].intercalate row) ++
      [context.indentation.toList ++ [']']]

theorem pieces_map {α β : Type} {size : Nat} (sized : 0 < size) (f : α → β) (items : List α) :
    Table.pieces size (items.map f) = (Table.pieces size items).map (List.map f) := by
  induction items using Table.pieces_induction sized with
  | nil => simp [Table.pieces_nil]
  | piece items filled induction =>
      rw [Table.pieces_of_ne_nil sized filled,
        Table.pieces_of_ne_nil sized (by simpa using filled), List.map_cons, ← induction,
        List.map_take, List.map_drop]

theorem intercalate_ofList (pairs : List (List Char)) :
    (" ".intercalate (pairs.map String.ofList)).toList = [' '].intercalate pairs := by
  rw [String.toList_intercalate, List.map_map]
  simp [Function.comp_def]

theorem render_bytes_eq (digits : List Char) (context : Context) :
    (renderBytes digits context).toList = ['\n'].intercalate
      (byteLines context (Table.pieces 2 digits) (Table.pieces 16 (Table.pieces 2 digits))) := by
  simp only [renderBytes, byteLines, pairsPerLine, List.length_map]
  split
  · simp
  · have rows : (Table.pieces 16 ((Table.pieces 2 digits).map String.ofList)).map
        (fun line => (context.deeper.indentation ++ " ".intercalate line).toList) =
        (Table.pieces 16 (Table.pieces 2 digits)).map fun row =>
          context.deeper.indentation.toList ++ [' '].intercalate row := by
      rw [pieces_map (by decide), List.map_map]
      simp only [Function.comp_def, String.toList_append, intercalate_ofList]
    rw [String.toList_intercalate, ← rows]
    simp [Function.comp_def]

theorem mem_byte_lines_unbroken {context : Context} (unit : isIndentUnit context.indentUnit = true)
    {pairs : List (List Char)} {rows : List (List (List Char))} (whole : rows.flatten = pairs)
    (inked : ∀ pair ∈ pairs, ∀ c ∈ pair, isBlank c = false) :
    ∀ line ∈ byteLines context pairs rows, '\n' ∉ line := by
  have unbroken (some : List (List Char)) (inside : ∀ pair ∈ some, pair ∈ pairs) :
      '\n' ∉ [' '].intercalate some := by
    rw [← intercalate_ofList]
    apply within_ne_iff.mp
    apply within_intercalate (within_ne_iff.mpr (by decide))
    intro text member c present
    obtain ⟨pair, among, rfl⟩ := List.mem_map.mp member
    rw [String.toList_ofList] at present
    rintro rfl
    exact absurd (inked pair (inside pair among) '\n' present) (by decide)
  have deeper : isIndentUnit context.deeper.indentUnit = true := unit
  intro line member
  rw [byteLines] at member
  split at member
  · obtain rfl := List.mem_singleton.mp member
    simpa using unbroken pairs fun _ => id
  · simp only [List.mem_append, List.mem_singleton, List.mem_map] at member
    rcases member with (rfl | ⟨row, inside, rfl⟩) | rfl
    · decide
    · rw [List.mem_append, not_or]
      refine ⟨indentation_unbroken deeper, unbroken row fun pair present => ?_⟩
      rw [← whole]
      exact List.mem_flatten.mpr ⟨row, inside, present⟩
    · simpa using indentation_unbroken unit

theorem byte_lines_ne_nil (context : Context) (pairs : List (List Char))
    (rows : List (List (List Char))) : byteLines context pairs rows ≠ [] := by
  rw [byteLines]
  split <;> simp

/-- A byte string begins and ends with its brackets. -/
theorem render_bytes_ends (digits : List Char) (context : Context) :
    ∃ middle, (renderBytes digits context).toList = '[' :: middle ++ [']'] := by
  simp only [renderBytes]
  split
  · exact ⟨_, by rw [String.toList_append, String.toList_append]; rfl⟩
  · rw [List.cons_append, intercalate_breaks, List.flatMap_append, List.flatMap_singleton,
      String.toList_append, ← List.cons_append, ← List.append_assoc, ← List.append_assoc]
    exact ⟨_, rfl⟩

/-- What is printed for a byte string is a byte string with the same digits. -/
theorem byte_ink_rendered {digits : List Char} (inked : ∀ c ∈ digits, isBlank c = false)
    {context : Context} (blank : ink context.indentUnit = []) {tree : Tree}
    (childless : tree.children = []) (rendered : tree.text = renderBytes digits context) :
    byteInk tree = digits := by
  obtain ⟨middle, shape⟩ := render_bytes_ends digits context
  have bracketed : ink (renderBytes digits context) = '[' :: digits ++ [']'] :=
    render_bytes_ink blank inked
  have whole : tree.token = renderBytes digits context := by
    rw [Tree.token, rendered]
    apply strip_eq_self
    · simp [shape, show isBlank '[' = false from rfl]
    · rw [shape, List.getLast?_concat]
      simp [show isBlank ']' = false from rfl]
  rw [ink, shape, List.filter_append, List.filter_cons_of_pos (by decide),
    List.filter_cons_of_pos (by decide), List.filter_nil] at bracketed
  have inside := (List.cons.inj (List.append_inj_left' bracketed rfl)).2
  rw [byteInk, if_pos (by simp [byteContents, childless]), whole, shape, List.cons_append,
    List.drop_succ_cons, List.drop_zero, List.dropLast_concat]
  exact inside

/-- **A byte string is printed from its digits alone.** They are cut into pairs, and
the pairs stand on one line or on lines of sixteen between the brackets. Whatever
has the same digits is printed in the same way, and so is what has been printed. -/
theorem print_byte_string (settings : Settings) (place : Place) {tree : Tree}
    (bytes : tree.kind = .byteString) {context : Context}
    (unit : isIndentUnit context.indentUnit = true) :
    ∃ (text : String) (pairs : List (List Char)) (rows : List (List (List Char))),
      (part settings place tree).print context = [.write text] ∧
      ink text = '[' :: byteInk tree ++ [']'] ∧
      Cut 2 (byteInk tree) pairs ∧ Cut 16 pairs rows ∧
      text.toList.splitOn '\n' = byteLines context pairs rows ∧
      (∀ (settings : Settings) (place : Place) (other : Tree), other.kind = .byteString →
        byteInk other = byteInk tree → (part settings place other).print context = [.write text]) ∧
      ∀ (settings : Settings) (place : Place) (other : Tree), other.kind = .byteString →
        other.children = [] → other.text = text →
          (part settings place other).print context = [.write text] := by
  have blank : ink context.indentUnit = [] := ink_indent_unit unit
  have inked := byte_ink_inked tree
  have printed : ∀ (settings : Settings) (place : Place) (other : Tree), other.kind = .byteString →
      byteInk other = byteInk tree →
        (part settings place other).print context = [.write (renderBytes (byteInk tree) context)] := by
    intro settings place other otherBytes same
    rw [print_bytes settings place context otherBytes, printBytes, byte_ink_eq, same]
  have pairsInked : ∀ pair ∈ Table.pieces 2 (byteInk tree), ∀ c ∈ pair, isBlank c = false :=
    fun pair member c present => inked c (Table.mem_of_mem_pieces (by decide) member present)
  have whole : (Table.pieces 16 (Table.pieces 2 (byteInk tree))).flatten =
      Table.pieces 2 (byteInk tree) := Table.pieces_flatten (by decide) _
  have lines := mem_byte_lines_unbroken unit whole pairsInked
  refine ⟨_, _, _, printed settings place tree bytes rfl, render_bytes_ink blank inked,
    pieces_cut (by decide) _, pieces_cut (by decide) _, ?_, printed, ?_⟩
  · rw [render_bytes_eq]
    exact List.splitOn_intercalate '\n' lines (byte_lines_ne_nil _ _ _)
  · intro settings place other otherBytes childless rendered
    exact printed settings place other otherBytes (byte_ink_rendered inked blank childless rendered)

/-- Sixteen pairs and a digit, cut in the middle of a pair and with a comment. -/
def longBytes : Tree :=
  .spanning .byteString
    [.mark .leftBracket, .leaf .unknown "00 1 12233445566778899AABBCCDDEE", .leaf .comment "/* f */",
     .leaf .unknown " FF0", .mark .rightBracket]

theorem print_byte_string_long :
    byteInk longBytes = "00112233445566778899AABBCCDDEEFF0".toList ∧
      ∃ (text : String) (pairs : List (List Char)) (rows : List (List (List Char))),
        (part sampleSettings {} longBytes).print indentedContext = [.write text] ∧
        ink text = "[00112233445566778899AABBCCDDEEFF0]".toList ∧
        Cut 2 (byteInk longBytes) pairs ∧ Cut 16 pairs rows ∧
        text.toList.splitOn '\n' = byteLines indentedContext pairs rows ∧
        (part sampleSettings {} (.leaf .byteString text)).print indentedContext = [.write text] := by
  have digits : byteInk longBytes = "00112233445566778899AABBCCDDEEFF0".toList := by decide +kernel
  obtain ⟨text, pairs, rows, printed, inked, paired, lined, lines, _, again⟩ :=
    print_byte_string sampleSettings {} (show longBytes.kind = .byteString by decide +kernel)
      (show isIndentUnit indentedContext.indentUnit = true by decide +kernel)
  refine ⟨digits, text, pairs, rows, printed, ?_, paired, lined, lines, ?_⟩
  · rw [inked, digits]
    rfl
  · exact again sampleSettings {} (.leaf .byteString text) (Tree.leaf_kind _ _) rfl rfl

end DevicetreeFormat.Printer
