import DevicetreeFormat.Proofs.Comments.Runs
import DevicetreeFormat.Proofs.Table

/-!
# Comments in lines and values

What the rules that read their children as cells do with a line comment among
them. Declarations, statements and directives put their tokens on one line and
go on after the comment; a cell list breaks the line after it, and a binding
table gives it a line of its own.
-/

namespace DevicetreeFormat

set_option autoImplicit false

open Text

def LineComment.cell (note : LineComment) : Cell :=
  ⟨.comment, note.text⟩

@[simp] theorem LineComment.cell_is_angle (note : LineComment) : note.cell.isAngle = false := rfl

@[simp] theorem LineComment.cell_is_comment (note : LineComment) : note.cell.isComment = true := rfl

@[simp] theorem LineComment.cell_token_cell (note : LineComment) :
    Printer.cellToken note.cell = normalComment note.text :=
  if_pos note.cell_is_comment

namespace Printer

/-! ### Declarations -/

theorem ink_first_tokens {cells : List Cell} (filled : ∃ cell ∈ cells, cell.token ≠ "") :
    InkFirst (String.join (cells.map Cell.token)).toList := by
  obtain ⟨cell, member, inked⟩ := filled
  rw [String.toList_join]
  induction cells with
  | nil => cases member
  | cons first rest induction =>
      rw [List.map_cons, List.flatMap_cons]
      rcases List.mem_cons.mp member with rfl | later
      · exact (ink_first_strip inked).append _
      · exact ink_first_strip_append first.text (induction later)

theorem print_header_joins (place : Place) (before : List Cell) {after : List Cell}
    (filled : ∃ cell ∈ after, cell.token ≠ "") (context : Context) :
    Keeps .joined fun note => printHeader place (before ++ note.cell :: after) context := by
  have line : Keeps .joined fun note =>
      writes [String.join ((before ++ note.cell :: after).map Cell.token), "\n"] := by
    apply joined_writes (String.join (before.map Cell.token))
    intro note
    refine ⟨_, (ink_first_tokens filled).append ['\n'], ?_⟩
    simp [String.toList_join, LineComment.cell, Cell.token]
  exact keeps_between [.write context.indentation] (endRun place Kind.isHeader) line

/-! ### Statements -/

theorem intercalate_longer (words : List String) (word more : String) :
    " ".intercalate ((word ++ more) :: words).reverse = " ".intercalate (word :: words).reverse ++ more := by
  cases words with
  | nil => simp
  | cons last others =>
      have filled : (last :: others).reverse ≠ [] := by simp
      rw [List.reverse_cons, List.reverse_cons (a := word), String.intercalate_append_of_ne_nil filled (by simp),
        String.intercalate_append_of_ne_nil filled (by simp), String.intercalate_singleton,
        String.intercalate_singleton]
      simp only [String.append_assoc]

theorem intercalate_another (words : List String) (word next : String) :
    " ".intercalate (next :: word :: words).reverse = " ".intercalate (word :: words).reverse ++ (" " ++ next) := by
  rw [List.reverse_cons, String.intercalate_append_of_ne_nil (by simp) (by simp)]
  simp [String.append_assoc]

/-- However the tokens after a word are joined to it, ink follows on its line. -/
theorem statement_goes_on (cells : List Cell) (word : String) (words : List String) :
    ∃ rest, InkFirst rest ∧
      (" ".intercalate (cells.foldl joinWord (word :: words)).reverse ++ ";\n").toList =
        (" ".intercalate (word :: words).reverse).toList ++ rest := by
  induction cells generalizing word words with
  | nil =>
      refine ⟨";\n".toList, ink_first_cons rfl _, ?_⟩
      rw [List.foldl_nil, String.toList_append]
  | cons cell later induction =>
      rw [List.foldl_cons, joinWord]
      -- a token is glued to the word before it or begins a word; empty tokens add no ink
      by_cases colon : cell.kind = .colon
      · obtain ⟨rest, _, shape⟩ := induction (word ++ ":") words
        refine ⟨':' :: rest, ink_first_cons rfl rest, ?_⟩
        rw [if_pos colon, shape, intercalate_longer]
        simp
      rw [if_neg colon]
      by_cases glued : (cell.kind = .atSign || endsWith "@" word) = true
      · obtain ⟨rest, ink, shape⟩ := induction (word ++ cell.token) words
        refine ⟨cell.token.toList ++ rest, ?_, ?_⟩
        · exact ink_first_strip_append cell.text ink
        · rw [if_pos glued, shape, intercalate_longer]
          simp
      · obtain ⟨rest, ink, shape⟩ := induction cell.token (word :: words)
        have further := ink_first_strip_append cell.text ink
        refine ⟨[' '] ++ (cell.token.toList ++ rest), ?_, ?_⟩
        · exact InkFirst.behind (by decide) further
        · rw [if_neg glued, shape, intercalate_another]
          simp

theorem join_word_comment (words : List String) : ∃ front : String, ∀ note : LineComment, ∃ word others,
    joinWord words note.cell = word :: others ∧
      " ".intercalate (word :: others).reverse = front ++ strip note.text := by
  cases words with
  | nil => exact ⟨"", fun note => ⟨strip note.text, [], rfl, by simp⟩⟩
  | cons last older =>
      by_cases glued : endsWith "@" last = true
      · refine ⟨" ".intercalate (last :: older).reverse, fun note => ⟨last ++ strip note.text, older, ?_, ?_⟩⟩
        · simp [joinWord, LineComment.cell, glued, Cell.token]
        · exact intercalate_longer older last (strip note.text)
      · refine ⟨" ".intercalate (last :: older).reverse ++ " ",
          fun note => ⟨strip note.text, last :: older, ?_, ?_⟩⟩
        · simp [joinWord, LineComment.cell, glued, Cell.token]
        · rw [intercalate_another, String.append_assoc]

theorem print_statement_joins {before : List Cell} (unended : ∀ cell ∈ before, cell.kind ≠ .semicolon)
    (after : List Cell) (context : Context) :
    Keeps .joined fun note => printStatement (before ++ note.cell :: after) context := by
  have words : ∀ note : LineComment, statementWords (before ++ note.cell :: after) =
      ((after.takeWhile fun cell => cell.kind ≠ .semicolon).foldl joinWord
        (joinWord (before.foldl joinWord []) note.cell)).reverse := by
    intro note
    have all : ∀ cell ∈ before, decide (cell.kind ≠ .semicolon) = true := by simpa using unended
    rw [statementWords, List.takeWhile_append_of_pos all, List.foldl_append]
    rfl
  obtain ⟨front, joined⟩ := join_word_comment (before.foldl joinWord [])
  have line : Keeps .joined fun note =>
      writes [" ".intercalate (statementWords (before ++ note.cell :: after)), ";\n"] := by
    apply joined_writes front
    intro note
    obtain ⟨word, others, split, shape⟩ := joined note
    obtain ⟨rest, ink, whole⟩ := statement_goes_on (after.takeWhile fun cell => cell.kind ≠ .semicolon)
      word others
    refine ⟨rest, ink, ?_⟩
    rw [words, split, whole, shape, String.toList_append]
  exact keeps_last [.write context.indentation] line

/-! ### Directives -/

theorem ink_first_intercalate {word : String} (ink : InkFirst word.toList) (words : List String) :
    InkFirst (" ".intercalate (word :: words)).toList := by
  obtain ⟨rest, shape⟩ := intercalate_first " " word words
  rw [shape]
  exact ink.append rest

def operandTokens (cells : List Cell) : List String :=
  (cells.map Cell.token).filter fun token => !token.isEmpty

theorem inked_operand {cells : List Cell} {token : String} (member : token ∈ operandTokens cells) :
    InkFirst token.toList := by
  rw [operandTokens, List.mem_filter, List.mem_map] at member
  obtain ⟨⟨cell, _, rfl⟩, filled⟩ := member
  rw [Cell.token] at filled ⊢
  exact ink_first_strip (by simpa using filled)

theorem operand_tokens_comment (before after : List Cell) (note : LineComment) :
    operandTokens (before ++ note.cell :: after) =
      operandTokens before ++ strip note.text :: operandTokens after := by
  have kept : (!(strip note.text).isEmpty) = true := by simpa using note.line.1
  rw [operandTokens, List.map_append, List.filter_append, List.map_cons]
  exact congrArg _ (List.filter_cons_of_pos kept)

/-- The words of operands: the first two of a function directive are one word. -/
def operandWords : Kind → List String → List String
  | .functionDirective, name :: parameters :: rest => (name ++ parameters) :: rest
  | _, operands => operands

theorem directive_operands_eq (kind : Kind) (cells : List Cell) :
    directiveOperands kind cells = operandWords kind (operandTokens cells) := rfl

/-- A comment among the operands of a directive is in a word between `lead` and
`trail`. -/
theorem operand_words_comment (kind : Kind) (before after : List String) :
    ∃ front lead trail back, (∀ text : String,
      operandWords kind (before ++ text :: after) = front ++ (lead ++ text ++ trail) :: back) ∧
      (trail = "" ∧ back = after ∨ trail :: back = after) := by
  by_cases function : kind = .functionDirective
  · subst function
    match before, after with
    | [], [] => exact ⟨[], "", "", [], by simp [operandWords], .inl ⟨rfl, rfl⟩⟩
    | [], parameters :: rest => exact ⟨[], "", parameters, rest, by simp [operandWords], .inr rfl⟩
    | [name], rest => exact ⟨[], name, "", rest, by simp [operandWords], .inl ⟨rfl, rfl⟩⟩
    | name :: parameters :: others, rest =>
        exact ⟨(name ++ parameters) :: others, "", "", rest, by simp [operandWords], .inl ⟨rfl, rfl⟩⟩
  · refine ⟨before, "", "", after, fun text => ?_, .inl ⟨rfl, rfl⟩⟩
    simp [operandWords, function]

/-- The line of a directive with a comment among its operands, and what follows
the comment on it. -/
theorem directive_line_comment (kind : Kind) (keyword : String) (before after : List Cell) :
    ∃ front rest : String, (∀ note : LineComment,
      " ".intercalate (keyword :: directiveOperands kind (before ++ note.cell :: after)) =
        front ++ strip note.text ++ rest) ∧
      (operandTokens after = [] → rest = "") ∧ (operandTokens after ≠ [] → InkFirst rest.toList) := by
  obtain ⟨words, lead, trail, back, shape, follows⟩ :=
    operand_words_comment kind (operandTokens before) (operandTokens after)
  have line : ∀ note : LineComment,
      " ".intercalate (keyword :: directiveOperands kind (before ++ note.cell :: after)) =
        " ".intercalate (keyword :: words) ++ " " ++
          (lead ++ (strip note.text ++ " ".intercalate (trail :: back))) := by
    intro note
    have regroup : lead ++ strip note.text ++ trail = lead ++ (strip note.text ++ trail) :=
      String.append_assoc
    rw [directive_operands_eq, operand_tokens_comment, shape, ← List.cons_append,
      String.intercalate_append_of_ne_nil (by simp) (by simp), regroup,
      String.intercalate_cons_append, String.intercalate_cons_append]
  refine ⟨" ".intercalate (keyword :: words) ++ " " ++ lead, " ".intercalate (trail :: back),
    fun note => ?_, fun last => ?_, fun more => ?_⟩
  · rw [line]
    simp only [String.append_assoc]
  · rw [last] at follows
    rcases follows with ⟨rfl, rfl⟩ | impossible
    · simp
    · cases impossible
  · have inked : ∀ token ∈ operandTokens after, InkFirst token.toList := fun _ => inked_operand
    rcases follows with ⟨rfl, rfl⟩ | same
    · obtain ⟨token, others, split⟩ := List.exists_cons_of_ne_nil more
      rw [split, String.intercalate_cons_cons, String.empty_append, String.toList_append]
      apply InkFirst.behind (by decide)
      exact ink_first_intercalate (inked token (by rw [split]; simp)) others
    · exact ink_first_intercalate (inked trail (by rw [← same]; simp)) back

theorem print_directive_joins (place : Place) (kind : Kind) (head : Cell) (before : List Cell)
    {after : List Cell} (filled : ∃ cell ∈ after, cell.token ≠ "") (context : Context) :
    Keeps .joined fun note => printDirective place kind (head :: (before ++ note.cell :: after)) context := by
  obtain ⟨front, rest, shape, _, inked⟩ :=
    directive_line_comment kind (directiveKeyword head.text) before after
  have more : operandTokens after ≠ [] := by
    obtain ⟨cell, member, token⟩ := filled
    apply List.ne_nil_of_mem (a := cell.token)
    rw [operandTokens, List.mem_filter]
    exact ⟨List.mem_map.mpr ⟨cell, member, rfl⟩, by simpa using token⟩
  have line : Keeps .joined fun note => writes [" ".intercalate
      (directiveKeyword head.text :: directiveOperands kind (before ++ note.cell :: after)), "\n"] := by
    apply joined_writes front
    intro note
    refine ⟨rest.toList ++ ['\n'], (inked more).append _, ?_⟩
    rw [shape]
    simp
  exact keeps_between [.write context.indentation] _ line

theorem print_directive_ends (place : Place) (kind : Kind) (head : Cell) (before : List Cell)
    {after : List Cell} (blank : ∀ cell ∈ after, cell.token = "") (context : Context) :
    Keeps .ended fun note => printDirective place kind (head :: (before ++ note.cell :: after)) context := by
  obtain ⟨front, rest, shape, last, _⟩ :=
    directive_line_comment kind (directiveKeyword head.text) before after
  have none : operandTokens after = [] := by
    rw [operandTokens, List.filter_eq_nil_iff]
    intro token member
    obtain ⟨cell, inside, rfl⟩ := List.mem_map.mp member
    simp [blank cell inside]
  have line : Keeps .ended fun note => writes [" ".intercalate
      (directiveKeyword head.text :: directiveOperands kind (before ++ note.cell :: after)), "\n"] := by
    apply keeps_congr _ (ended_writes shown_strip front)
    intro note
    rw [shape, last none, String.append_empty]
  exact keeps_between [.write context.indentation] _ line

/-! ### Cell lists -/

section

variable (context : Context)

theorem write_cells_append (tokens : List String) (text : String) (gap : Gap) :
    ∃ longer next, ∀ rest, writeCells context text gap (tokens ++ rest) =
      writeCells context longer next rest := by
  induction tokens generalizing text gap with
  | nil => exact ⟨text, gap, fun rest => rfl⟩
  | cons token later induction =>
      obtain ⟨longer, next, same⟩ := induction (text ++ (gapBefore text token gap).text context ++ token)
        (if isLineComment token then .line else .space)
      refine ⟨longer, next, fun rest => ?_⟩
      rw [List.cons_append, writeCells, same]

/-- Only the last character written decides about the gap before a cell. -/
theorem gap_before_behind (front tail token : String) (gap : Gap) :
    gapBefore (front ++ ("\n" ++ tail)) token gap = gapBefore ("\n" ++ tail) token gap := by
  have paren : endsWith "(" (front ++ ("\n" ++ tail)) = endsWith "(" ("\n" ++ tail) := by
    rw [ends_with_parenthesis, ends_with_parenthesis, String.toList_append, String.toList_append,
      List.getLast?_append_of_ne_nil _ (by simp)]
  cases gap <;> simp only [gapBefore, paren]

theorem write_cells_behind (tokens : List String) (gap : Gap) (tail : String) :
    ∃ more, ∀ front, writeCells context (front ++ ("\n" ++ tail)) gap tokens = front ++ ("\n" ++ more) := by
  induction tokens generalizing gap tail with
  | nil =>
      cases gap with
      | line => exact ⟨tail ++ "\n" ++ context.indentation, by intro front; simp [writeCells, String.append_assoc]⟩
      | none | space => exact ⟨tail, by intro front; simp [writeCells]⟩
  | cons token later induction =>
      obtain ⟨more, same⟩ := induction (if isLineComment token then .line else .space)
        (tail ++ (gapBefore ("\n" ++ tail) token gap).text context ++ token)
      refine ⟨more, fun front => ?_⟩
      rw [writeCells, gap_before_behind, ← same]
      simp only [String.append_assoc]

/-- The line is broken after a line comment, whatever cells follow. -/
theorem write_cells_break (tokens : List String) :
    ∃ more, ∀ text, writeCells context text .line tokens = text ++ ("\n" ++ more) := by
  cases tokens with
  | nil => exact ⟨context.indentation, by intro text; simp [writeCells, String.append_assoc]⟩
  | cons token later =>
      obtain ⟨more, same⟩ := write_cells_behind context later
        (if isLineComment token then .line else .space) (context.deeper.indentation ++ token)
      refine ⟨more, fun text => ?_⟩
      rw [writeCells, ← same]
      simp only [gapBefore, Gap.text, String.append_assoc]

theorem plain_cells_ends (before after : List Cell) :
    Keeps .ended fun note => [.write (plainCells (before ++ note.cell :: after) context)] := by
  have tokens : ∀ note : LineComment,
      ((before ++ note.cell :: after).filter fun cell => !cell.isAngle).map cellToken =
        (before.filter fun cell => !cell.isAngle).map cellToken ++
          normalComment note.text :: (after.filter fun cell => !cell.isAngle).map cellToken := by
    intro note
    simp
  obtain ⟨front, gap, same⟩ := write_cells_append context
    ((before.filter fun cell => !cell.isAngle).map cellToken) "<" .none
  obtain ⟨more, breaks⟩ := write_cells_break context ((after.filter fun cell => !cell.isAngle).map cellToken)
  -- a line comment is not a closing parenthesis, so the gap before it is the same for all
  have unclosed : ∀ note : LineComment, gapBefore front (normalComment note.text) gap = gapBefore front "" gap := by
    intro note
    have other : normalComment note.text ≠ ")" := note.normal_ne rfl
    cases gap <;> simp [gapBefore, other]
  apply keeps_congr _ (ended_write shown_normal_comment (front ++ (gapBefore front "" gap).text context)
    (more ++ ">"))
  intro note
  rw [plainCells, tokens, same, writeCells, if_pos note.normal_slashes, breaks, unclosed]
  simp only [String.append_assoc]

/-! ### Binding tables -/

theorem collect_bindings_comment (before after : List Cell) (note : LineComment) :
    Table.collectBindings (before ++ note.cell :: after) = Table.collectBindings (before ++ after) := by
  have tokens : Table.bindingTokens (before ++ note.cell :: after) =
      Table.bindingTokens (before ++ after) := by
    simp [Table.bindingTokens]
  rw [Table.collectBindings, tokens, Table.collectBindings]

theorem comment_lines_comment (before after : List Cell) (note : LineComment) :
    Table.commentLines (before ++ note.cell :: after) context =
      Table.commentLines before context ++
        (context.indentation ++ normalComment note.text) :: Table.commentLines after context := by
  rw [Table.commentLines, List.filter_append, List.map_append]
  rfl

theorem table_ends (before after : List Cell) (layout : Layout) :
    ∃ front back, ∀ note : LineComment, Table.render (before ++ note.cell :: after) layout context =
      .ok (front ++ normalComment note.text ++ "\n" ++ back) := by
  have rows : ∀ note : LineComment, Table.rowsOf (before ++ note.cell :: after) layout context.indentation =
      Table.rowsOf (before ++ after) layout context.indentation := by
    intro note
    rw [Table.rowsOf, Table.gridOf, collect_bindings_comment]
    rfl
  generalize Table.rowsOf (before ++ after) layout context.indentation = body at rows
  generalize lines : Table.commentLines after context ++ (body ++ [context.shallower.indentation ++ ">"]) = rest
  have later : ∀ line : String, "\n".intercalate (line :: rest) = line ++ "\n" ++ "\n".intercalate rest := by
    intro line
    exact String.intercalate_cons_of_ne_nil (by rw [← lines]; simp)
  refine ⟨"\n".intercalate ("<" :: Table.commentLines before context) ++ "\n" ++ context.indentation,
    "\n".intercalate rest, fun note => ?_⟩
  have split : "<" :: Table.commentLines (before ++ note.cell :: after) context ++ body ++
        [context.shallower.indentation ++ ">"] =
      ("<" :: Table.commentLines before context) ++
        (context.indentation ++ normalComment note.text) :: rest := by
    rw [comment_lines_comment, ← lines]
    simp
  rw [Table.render_eq, rows, split, String.intercalate_append_of_ne_nil (by simp) (by simp), later]
  simp only [String.append_assoc]

theorem print_cells_ends (layout : Layout) (before after : List Cell) :
    Keeps .ended fun note => printCells layout (before ++ note.cell :: after) context := by
  by_cases aligned : context.alignsBindings = true
  · obtain ⟨front, back, shape⟩ := table_ends context before after layout
    apply keeps_congr _ (keeps_last ((Table.report? (before ++ after) layout).toList.map .report)
      (ended_write shown_normal_comment front back))
    intro note
    have reports : Table.report? (before ++ note.cell :: after) layout =
        Table.report? (before ++ after) layout := by
      rw [Table.report?, collect_bindings_comment]
      rfl
    rw [printCells, if_pos aligned, shape, reports]
  · apply keeps_congr _ (plain_cells_ends context before after)
    intro note
    rw [printCells, if_neg aligned]

end

end Printer

end DevicetreeFormat
