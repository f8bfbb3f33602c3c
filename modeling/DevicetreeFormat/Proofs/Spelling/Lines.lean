import DevicetreeFormat.Proofs.Blank
import DevicetreeFormat.Proofs.Run
import DevicetreeFormat.Proofs.Walk

/-!
# The ink of one-line items

Commands spell the ink of the texts they write; separating items and spacing
words adds none. Each rule for an item of one line spells the ink of the cells
that it is given.
-/

namespace DevicetreeFormat.Printer

set_option autoImplicit false

open Text

def Command.ink : Command → List Char
  | .write text => Text.ink text
  | _ => []

/-- Commands that run to their end and add the given ink. -/
structure Spells (commands : List Command) (letters : List Char) : Prop where
  complete : Complete commands
  spelled : commands.flatMap Command.ink = letters

theorem spells_nil : Spells [] [] :=
  ⟨complete_nil, rfl⟩

theorem spells_append {first second : List Command} {left right : List Char}
    (early : Spells first left) (late : Spells second right) :
    Spells (first ++ second) (left ++ right) := by
  refine ⟨complete_append early.complete late.complete, ?_⟩
  rw [List.flatMap_append, early.spelled, late.spelled]

/-- Commands without ink before others change nothing of what they spell. -/
theorem spells_lead {lead rest : List Command} {letters : List Char} (blank : Spells lead [])
    (spelled : Spells rest letters) : Spells (lead ++ rest) letters :=
  spells_append blank spelled

theorem spells_trail {rest trail : List Command} {letters : List Char}
    (spelled : Spells rest letters) (blank : Spells trail []) : Spells (rest ++ trail) letters := by
  have both := spells_append spelled blank
  rwa [List.append_nil] at both

theorem spells_write (text : String) : Spells [.write text] (Text.ink text) :=
  ⟨complete_writes [text], List.append_nil _⟩

theorem spells_space {rest : List Command} {letters : List Char} (later : Spells rest letters) :
    Spells (.space :: rest) letters :=
  ⟨complete_cons rfl later.complete, later.spelled⟩

theorem spells_writes (texts : List String) : Spells (writes texts) (texts.flatMap Text.ink) := by
  refine ⟨complete_writes texts, ?_⟩
  rw [writes, List.flatMap_map]
  rfl

theorem spells_flatMap {Item : Type} {items : List Item} {print : Item → List Command}
    {letters : Item → List Char} (each : ∀ item ∈ items, Spells (print item) (letters item)) :
    Spells (items.flatMap print) (items.flatMap letters) := by
  induction items with
  | nil => exact spells_nil
  | cons item rest induction =>
      rw [List.flatMap_cons, List.flatMap_cons]
      exact spells_append (each item (by simp)) (induction fun later member => each later (by simp [member]))

theorem written_after_ink (commands : List Command) (output : Output) :
    (output.after commands).written.filter (fun c => !isBlank c) =
      output.written.filter (fun c => !isBlank c) ++ commands.flatMap Command.ink := by
  induction commands generalizing output with
  | nil => simp
  | cons command rest induction =>
      rw [Output.after_cons, induction, List.flatMap_cons, ← List.append_assoc]
      congr 1
      cases command with
      | write text => simp [Output.step, Command.ink, Text.ink]
      | separate =>
          rw [Output.step, Output.written_separate]
          split <;> simp [Command.ink, show isBlank '\n' = true from rfl]
      | space =>
          rw [Output.step, Output.written_space]
          split <;> simp [Command.ink, show isBlank ' ' = true from rfl]
      | report message => simp [Output.step, Command.ink]
      | fail fault => simp [Output.step, Command.ink]

/-! ### Items of one line -/

section

variable {context : Context} (blank : Text.ink context.indentUnit = [])

theorem ink_token (cell : Cell) : Text.ink cell.token = Text.ink cell.text :=
  ink_strip cell.text

theorem end_run_spells (place : Place) (similar : Kind → Bool) : Spells (endRun place similar) [] := by
  unfold endRun
  split
  · split
    · exact spells_write "\n"
    · exact spells_nil
  · exact spells_nil

include blank

theorem begin_item_spells (place : Place) : Spells (beginItem place context) [] := by
  unfold beginItem
  split
  · exact spells_nil
  · rw [← ink_indentation blank]
    exact spells_write _

theorem line_spells (words : String) :
    Spells (writes [context.indentation, words, "\n"]) (Text.ink words) := by
  have line := spells_writes [context.indentation, words, "\n"]
  simpa [ink_indentation blank, show Text.ink "\n" = [] from rfl] using line

theorem print_comment_spells (place : Place) (text : String) :
    Spells (printComment place text context) (Text.ink text) := by
  rw [← ink_normal_comment]
  apply spells_lead _ (line_spells blank _)
  unfold apart
  split
  · split
    · exact spells_nil
    · exact ⟨complete_cons rfl complete_nil, rfl⟩
  · exact spells_nil

theorem print_header_spells (place : Place) (cells : List Cell) :
    Spells (printHeader place cells context) (cells.flatMap fun cell => Text.ink cell.text) := by
  have line := line_spells blank (String.join (cells.map Cell.token))
  rw [ink_join, List.flatMap_map] at line
  simp only [ink_token] at line
  exact spells_trail line (end_run_spells place Kind.isHeader)

omit blank in
theorem join_word_ink {cell : Cell} (colon : cell.kind = .colon → Text.ink cell.text = [':'])
    (words : List String) :
    (joinWord words cell).reverse.flatMap Text.ink =
      words.reverse.flatMap Text.ink ++ Text.ink cell.text := by
  cases words with
  | nil => simp [joinWord, ink_token]
  | cons word older =>
      simp only [joinWord]
      split
      · next mark => simp [colon mark, show Text.ink ":" = [':'] from rfl]
      · split <;> simp [ink_token]

omit blank in
theorem foldl_join_word_ink {cells : List Cell}
    (colons : ∀ cell ∈ cells, cell.kind = .colon → Text.ink cell.text = [':']) (words : List String) :
    (cells.foldl joinWord words).reverse.flatMap Text.ink =
      words.reverse.flatMap Text.ink ++ cells.flatMap fun cell => Text.ink cell.text := by
  induction cells generalizing words with
  | nil => simp
  | cons cell rest induction =>
      rw [List.foldl_cons, induction fun later member => colons later (by simp [member]),
        join_word_ink (colons cell (by simp)), List.flatMap_cons, List.append_assoc]

theorem print_statement_spells {body : List Cell} {last : Cell} (ending : last.kind = .semicolon)
    (inside : ∀ cell ∈ body, cell.kind ≠ .semicolon)
    (colons : ∀ cell ∈ body, cell.kind = .colon → Text.ink cell.text = [':'])
    (mark : Text.ink last.text = [';']) :
    Spells (printStatement (body ++ [last]) context)
      ((body ++ [last]).flatMap fun cell => Text.ink cell.text) := by
  have words : statementWords (body ++ [last]) = (body.foldl joinWord []).reverse := by
    rw [statementWords, List.takeWhile_append_of_pos (by simpa using inside)]
    simp [ending]
  have line := spells_writes [context.indentation, " ".intercalate (statementWords (body ++ [last])), ";\n"]
  rw [printStatement, List.flatMap_append]
  simpa [ink_indentation blank, ink_intercalate (show Text.ink " " = [] from rfl), words,
    foldl_join_word_ink colons, mark, show Text.ink ";\n" = [';'] from rfl] using line

theorem print_include_spells (place : Place) {keyword path : Part}
    (word : Text.ink keyword.text = "/include/".toList) (named : path.named = true) :
    Spells (printInclude place [keyword, path] context)
      (Text.ink keyword.text ++ Text.ink path.text) := by
  have found : includedPath [keyword, path] = some path := by
    unfold includedPath
    by_cases first : keyword.named = true <;> simp [named, first]
  rw [printInclude, found]
  have line := spells_append
    (spells_writes [context.indentation, "/include/ ", path.token, "\n"])
    (end_run_spells place fun kind => kind = .fileInclude)
  simpa [ink_indentation blank, ink_token, word, show Text.ink "\n" = [] from rfl,
    show Text.ink "/include/ " = "/include/".toList from rfl] using line

omit blank in
theorem directive_operands_ink (kind : Kind) (cells : List Cell) :
    (directiveOperands kind cells).flatMap Text.ink = cells.flatMap fun cell => Text.ink cell.text := by
  have tokens : ((cells.map Cell.token).filter fun token => !token.isEmpty).flatMap Text.ink =
      cells.flatMap fun cell => Text.ink cell.text := by
    induction cells with
    | nil => rfl
    | cons cell rest induction =>
        by_cases empty : cell.token = ""
        · rw [List.map_cons, List.filter_cons_of_neg (by simp [empty]), induction, List.flatMap_cons,
            (ink_eq_nil_iff cell.text).mpr empty, List.nil_append]
        · rw [List.map_cons, List.filter_cons_of_pos (by simpa using empty), List.flatMap_cons,
            List.flatMap_cons, induction, ink_token]
  rw [← tokens]
  unfold directiveOperands
  split
  · next name parameters rest shape => simp [shape]
  · rfl

theorem print_directive_spells (place : Place) (kind : Kind) {cells : List Cell}
    (filled : cells ≠ []) :
    Spells (printDirective place kind cells context)
      (cells.flatMap fun cell => Text.ink cell.text) := by
  cases cells with
  | nil => exact absurd rfl filled
  | cons head rest =>
      have line := line_spells blank
        (" ".intercalate (directiveKeyword head.text :: directiveOperands kind rest))
      rw [ink_intercalate (show Text.ink " " = [] from rfl), List.flatMap_cons, ink_directive_keyword,
        directive_operands_ink] at line
      exact spells_trail line (end_run_spells place _)

end

end DevicetreeFormat.Printer
