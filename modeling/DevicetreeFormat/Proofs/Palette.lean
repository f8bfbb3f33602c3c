import DevicetreeFormat.Proofs.Rules
import DevicetreeFormat.Proofs.Table

/-!
# Where printed characters come from

The printer writes a few characters of its own. Every other character of a
printed text stands in the text of some node, whatever the shape of the tree.
The texts are followed through the rules with an arbitrary class of characters
that contains the printer's own. Messages to the reader are not part of the text.
-/

namespace DevicetreeFormat.Printer

set_option autoImplicit false

open Text

/-- The characters that the printer writes by itself: blanks, punctuation, and the
letters of the two keywords that it spells out. -/
def ownCharacters : List Char :=
  [' ', '\t', '\n', '\x7b', '\x7d', ';', ',', '=', ':', '<', '>', '[', ']', '/', '#',
   'i', 'n', 'c', 'l', 'u', 'd', 'e', 'f']

/-- Whether the printer can write the text by itself. -/
def isOwn (text : String) : Bool :=
  text.toList.all ownCharacters.contains

section

variable {allowed : Char → Prop}

/-- Commands that write only such characters. -/
def Draws (allowed : Char → Prop) (commands : List Command) : Prop :=
  ∀ text, .write text ∈ commands → Within allowed text

theorem draws_nil : Draws allowed [] := by
  intro text member
  cases member

theorem draws_append {first second : List Command} (left : Draws allowed first)
    (right : Draws allowed second) : Draws allowed (first ++ second) := by
  intro text member
  rcases List.mem_append.mp member with early | late
  · exact left text early
  · exact right text late

theorem draws_cons {command : Command} {rest : List Command} (first : Draws allowed [command])
    (later : Draws allowed rest) : Draws allowed (command :: rest) :=
  draws_append first later

theorem draws_flatMap {Item : Type} {items : List Item} {print : Item → List Command}
    (each : ∀ item ∈ items, Draws allowed (print item)) : Draws allowed (items.flatMap print) := by
  intro text member
  obtain ⟨item, present, printed⟩ := List.mem_flatMap.mp member
  exact each item present text printed

theorem draws_writes {texts : List String} (each : ∀ text ∈ texts, Within allowed text) :
    Draws allowed (writes texts) := by
  intro text member
  obtain ⟨written, present, same⟩ := List.mem_map.mp member
  cases same
  exact each text present

theorem draws_write {text : String} (whole : Within allowed text) : Draws allowed [.write text] := by
  intro written member
  cases List.mem_singleton.mp member
  exact whole

/-- Commands that write nothing by themselves. -/
theorem draws_silent {commands : List Command} (silent : ∀ text, .write text ∉ commands) :
    Draws allowed commands :=
  fun text member => absurd member (silent text)

variable (own : ∀ c ∈ ownCharacters, allowed c)

include own

theorem within_own {text : String} (letters : isOwn text = true) : Within allowed text := by
  intro c member
  apply own
  simpa using List.all_eq_true.mp letters c member

theorem draws_own {text : String} (letters : isOwn text = true) : Draws allowed [.write text] :=
  draws_write (within_own own letters)

theorem within_comment {text : String} (whole : Within allowed text) :
    Within allowed (normalComment text) :=
  within_normal_comment (own '/' (by decide)) (own ' ' (by decide)) (within_strip whole)

theorem within_indentation {context : Context} (unit : isIndentUnit context.indentUnit = true) :
    Within allowed context.indentation := by
  intro c member
  rcases indent_unit_char unit (mem_unit_of_mem_times member) with rfl | rfl <;> exact own _ (by decide)

/-! ### What a run writes -/

theorem run_within {commands : List Command} (draws : Draws allowed commands) (output : Output)
    (before : ∀ fragment ∈ output.fragments, Within allowed fragment) :
    ∀ fragment ∈ (output.run commands).1.fragments, Within allowed fragment := by
  induction commands generalizing output with
  | nil => exact before
  | cons command rest induction =>
      have later : Draws allowed rest := fun text member => draws text (List.mem_cons_of_mem _ member)
      have wrote : ∀ text, Within allowed text →
          ∀ fragment ∈ (output.write text).fragments, Within allowed fragment := by
        intro text whole fragment member
        rcases List.mem_cons.mp member with rfl | older
        · exact whole
        · exact before fragment older
      cases command with
      | write text => exact induction later _ (wrote text (draws text (by simp)))
      | report message => exact induction later _ before
      | fail fault => exact before
      | separate =>
          apply induction later
          unfold Output.separate
          split
          · exact wrote "\n" (within_own own (by decide))
          · exact before
      | space =>
          apply induction later
          unfold Output.space
          split
          · exact before
          · exact wrote " " (within_own own (by decide))

/-! ### Items of one line -/

theorem end_run_draws (place : Place) (similar : Kind → Bool) : Draws allowed (endRun place similar) := by
  unfold endRun
  split
  · split
    · exact draws_own own (by decide)
    · exact draws_nil
  · exact draws_nil

theorem before_node_draws (place : Place) : Draws allowed (beforeNode place) := by
  unfold beforeNode
  split
  · split
    · exact draws_own own (by decide)
    · exact draws_nil
  · exact draws_nil

variable {context : Context} (unit : isIndentUnit context.indentUnit = true)

include unit

theorem begin_item_draws (place : Place) : Draws allowed (beginItem place context) := by
  unfold beginItem
  split
  · exact draws_nil
  · exact draws_write (within_indentation own unit)

/-- An indented line of one text. -/
theorem line_draws {line ending : String} (whole : Within allowed line)
    (letters : isOwn ending = true) :
    Draws allowed (writes [context.indentation, line, ending]) :=
  draws_cons (draws_write (within_indentation own unit))
    (draws_cons (draws_write whole) (draws_own own letters))

theorem print_comment_draws (place : Place) {text : String} (whole : Within allowed text) :
    Draws allowed (printComment place text context) := by
  apply draws_append _ (line_draws own unit (within_comment own whole) (by decide))
  apply draws_silent
  intro text
  unfold apart
  split
  · split <;> simp
  · simp

theorem print_header_draws (place : Place) {cells : List Cell}
    (each : ∀ cell ∈ cells, Within allowed cell.text) :
    Draws allowed (printHeader place cells context) := by
  apply draws_append (line_draws own unit _ (by decide)) (end_run_draws own _ _)
  apply within_join
  intro token member
  obtain ⟨cell, present, rfl⟩ := List.mem_map.mp member
  exact within_strip (each cell present)

omit unit in
theorem join_word_within {words : List String} {cell : Cell} (each : ∀ word ∈ words, Within allowed word)
    (whole : Within allowed cell.text) : ∀ word ∈ joinWord words cell, Within allowed word := by
  have token : Within allowed cell.token := within_strip whole
  intro word member
  rcases mem_join_word member with present | same | ⟨first, present, joined⟩
  · exact each word present
  · rw [same]
    exact token
  · rcases joined with same | same <;> rw [same]
    · exact within_append (each first present) (within_own own (by decide))
    · exact within_append (each first present) token

omit unit in
theorem foldl_join_word_within {cells : List Cell} (texts : ∀ cell ∈ cells, Within allowed cell.text)
    {words : List String} (each : ∀ word ∈ words, Within allowed word) :
    ∀ word ∈ cells.foldl joinWord words, Within allowed word := by
  induction cells generalizing words with
  | nil => exact each
  | cons cell rest induction =>
      exact induction (fun other member => texts other (by simp [member]))
        (join_word_within own each (texts cell (by simp)))

theorem print_statement_draws {cells : List Cell} (each : ∀ cell ∈ cells, Within allowed cell.text) :
    Draws allowed (printStatement cells context) := by
  apply line_draws own unit _ (by decide)
  apply within_intercalate (within_own own (by decide))
  intro word member
  rw [statementWords, List.mem_reverse] at member
  apply foldl_join_word_within own _ (by simp) word member
  intro cell inside
  exact each cell ((List.takeWhile_prefix _).subset inside)

theorem print_include_draws (place : Place) {parts : List Part}
    (each : ∀ part ∈ parts, Within allowed part.text) :
    Draws allowed (printInclude place parts context) := by
  by_cases filled : parts = []
  · subst filled
    exact draws_silent (by simp [printInclude, includedPath])
  · obtain ⟨path, present, found⟩ := exists_included_path filled
    rw [printInclude, found]
    refine draws_append ?_ (end_run_draws own _ _)
    exact draws_cons (draws_write (within_indentation own unit))
      (draws_cons (draws_own own (by decide))
        (draws_cons (draws_write (within_strip (each path present))) (draws_own own (by decide))))

theorem print_directive_draws (place : Place) (kind : Kind) {cells : List Cell}
    (each : ∀ cell ∈ cells, Within allowed cell.text) :
    Draws allowed (printDirective place kind cells context) := by
  cases cells with
  | nil => exact draws_silent (by simp [printDirective])
  | cons head rest =>
      apply draws_append (line_draws own unit _ (by decide)) (end_run_draws own _ _)
      apply within_intercalate (within_own own (by decide))
      intro word member
      rcases List.mem_cons.mp member with same | later
      · rw [same]
        exact within_directive_keyword (within_strip (each head (by simp)))
      · exact directive_operands_within kind
          (fun cell inside => within_strip (each cell (by simp [inside]))) word later

/-! ### Values -/

theorem write_cells_within {tokens : List String} (each : ∀ token ∈ tokens, Within allowed token)
    {text : String} (before : Within allowed text) (gap : Gap) :
    Within allowed (writeCells context text gap tokens) := by
  have deeper : Within allowed context.deeper.indentation := within_indentation own unit
  induction tokens generalizing text gap with
  | nil =>
      cases gap
      case none => exact before
      case space => exact before
      case line =>
        exact within_append (within_append before (within_own own (by decide)))
          (within_indentation own unit)
  | cons token rest induction =>
      have spacing : Within allowed ((gapBefore text token gap).text context) := by
        cases gapBefore text token gap
        case none => exact within_empty
        case space => exact within_own own (show isOwn " " = true by decide)
        case line => exact within_append (within_own own (by decide)) deeper
      have longer := within_append (within_append before spacing) (each token (by simp))
      rw [writeCells]
      exact induction (fun other member => each other (by simp [member])) longer _

theorem plain_cells_within {cells : List Cell} (each : ∀ cell ∈ cells, Within allowed cell.text) :
    Within allowed (plainCells cells context) := by
  apply within_append _ (within_own own (by decide))
  apply write_cells_within own unit _ (within_own own (by decide))
  intro token member
  obtain ⟨cell, kept, rfl⟩ := List.mem_map.mp member
  have whole := each cell (List.mem_filter.mp kept).1
  unfold cellToken
  split
  · exact within_comment own whole
  · exact within_strip whole

theorem print_cells_draws (layout : Layout) {cells : List Cell}
    (each : ∀ cell ∈ cells, Within allowed cell.text) :
    Draws allowed (printCells layout cells context) := by
  unfold printCells
  split
  · rw [Table.render_eq]
    apply draws_append
    · exact draws_silent (by simp)
    apply draws_write
    apply within_intercalate (within_own own (by decide))
    intro line member
    rw [List.mem_append, List.mem_append, List.mem_cons] at member
    rcases member with ((rfl | commented) | row) | closing
    · exact within_own own (by decide)
    · obtain ⟨cell, present, rfl⟩ := List.mem_map.mp commented
      exact within_append (within_indentation own unit)
        (within_comment own (each cell (List.mem_filter.mp present).1))
    · apply Table.rows_of_within (own ' ' (by decide)) layout (within_indentation own unit) _ line row
      exact fun cell present _ => within_strip (each cell present)
    · rw [List.mem_singleton.mp closing]
      have shallower : Within allowed context.shallower.indentation := within_indentation own unit
      exact within_append shallower (within_own own (by decide))
  · exact draws_write (plain_cells_within own unit each)

omit own unit in
theorem byte_digits_within {text : String} (whole : Within allowed text) {cells : List Cell}
    (each : ∀ cell ∈ cells, Within allowed cell.text) : ∀ c ∈ byteDigits text cells, allowed c := by
  intro c member
  rw [byteDigits, List.mem_filter] at member
  have content := member.1
  split at content
  · exact within_strip whole c (List.mem_of_mem_drop ((List.dropLast_sublist _).subset content))
  · obtain ⟨cell, kept, inside⟩ := List.mem_flatMap.mp content
    exact within_strip (each cell (List.mem_filter.mp kept).1) c inside

theorem print_bytes_draws {text : String} (whole : Within allowed text) {cells : List Cell}
    (each : ∀ cell ∈ cells, Within allowed cell.text) :
    Draws allowed (printBytes text cells context) := by
  have digits := byte_digits_within whole each
  have pairs : ∀ pair ∈ (Table.pieces 2 (byteDigits text cells)).map String.ofList,
      Within allowed pair := by
    intro pair member c inside
    obtain ⟨piece, piecewise, rfl⟩ := List.mem_map.mp member
    rw [String.toList_ofList] at inside
    exact digits c (Table.mem_of_mem_pieces (by decide) piecewise inside)
  have space : Within allowed " " := within_own own (by decide)
  have deeper : Within allowed context.deeper.indentation := within_indentation own unit
  apply draws_write
  simp only [renderBytes]
  split
  · exact within_append (within_append (within_own own (by decide)) (within_intercalate space pairs))
      (within_own own (by decide))
  · apply within_intercalate (within_own own (by decide))
    intro line member
    rw [List.mem_append, List.mem_cons] at member
    rcases member with (rfl | inner) | closing
    · exact within_own own (by decide)
    · obtain ⟨some, piecewise, rfl⟩ := List.mem_map.mp inner
      exact within_append deeper (within_intercalate space fun pair inside =>
        pairs pair (Table.mem_of_mem_pieces (by decide) piecewise inside))
    · rw [List.mem_singleton.mp closing]
      exact within_append (within_indentation own unit) (within_own own (by decide))

end

/-! ### Items with a body -/

/-- A part whose text and whose commands keep to a class of characters. -/
structure Drawn (allowed : Char → Prop) (part : Part) : Prop where
  text : Within allowed part.text
  print : ∀ context, isIndentUnit context.indentUnit = true → Draws allowed (part.print context)
  branch : ∀ context, isIndentUnit context.indentUnit = true → Draws allowed (part.printBranch context)

section

variable {allowed : Char → Prop} (own : ∀ c ∈ ownCharacters, allowed c)
variable {parts : List Part} (each : ∀ part ∈ parts, Drawn allowed part)
variable {context : Context} (unit : isIndentUnit context.indentUnit = true)

include own each unit

theorem print_wrapper_draws (place : Place) : Draws allowed (printWrapper place parts context) := by
  apply draws_append (begin_item_draws own unit place)
  apply draws_flatMap
  intro part member
  have token : Within allowed part.token := within_strip (each part member).text
  unfold wrapperChild
  split
  · exact draws_own own (by decide)
  · split
    · exact (each part member).print context unit
    · apply draws_write
      split
      · exact token
      · exact within_append token (within_own own (by decide))

theorem node_children_draws : Draws allowed (nodeChildren context parts) := by
  induction parts with
  | nil => exact draws_nil
  | cons part rest induction =>
      unfold nodeChildren
      split
      · exact draws_flatMap fun child member => (each child member).print context unit
      · apply draws_cons (draws_write _) (induction fun other member => each other (by simp [member]))
        split
        · exact within_own own (by decide)
        · exact within_strip (each part (by simp)).text

theorem inline_comment_draws {part : Part} (member : part ∈ parts) :
    Draws allowed (inlineComment part context) := by
  have comment : Within allowed (normalComment part.text) :=
    within_comment own (each part member).text
  have deeper : Within allowed context.deeper.indentation := within_indentation own unit
  simp only [inlineComment]
  refine draws_cons (draws_silent (by simp)) ?_
  by_cases line : isLineComment (normalComment part.text) = true
  · rw [if_pos line]
    exact draws_cons (draws_write comment)
      (draws_cons (draws_own own (by decide)) (draws_write deeper))
  · rw [if_neg line]
    apply draws_cons (draws_write comment)
    split
    · exact draws_nil
    · split
      · exact draws_nil
      · exact draws_own own (by decide)

theorem property_children_draws {inner : Context} (same : isIndentUnit inner.indentUnit = true)
    (seenEquals : Bool) : Draws allowed (propertyChildren context inner seenEquals parts) := by
  induction parts generalizing seenEquals with
  | nil => exact draws_nil
  | cons part rest induction =>
      have later := fun seen => induction (fun other member => each other (by simp [member])) seen
      have here := (each part (by simp)).print inner same
      by_cases ending : part.kind = .semicolon
      · rw [property_children_end ending]
        exact draws_nil
      · by_cases comment : part.kind = .comment
        · rw [property_children_comment comment]
          exact draws_append (inline_comment_draws own each unit (by simp)) (later _)
        · rw [property_children_child ending comment, propertyChild]
          apply draws_append _ (later _)
          split
          · exact here
          · exact draws_write (within_strip (each part (by simp)).text)

theorem print_property_draws (place : Place) : Draws allowed (printProperty place parts context) := by
  have values : isIndentUnit (valueContext parts context).indentUnit = true := by
    unfold valueContext
    split <;> exact unit
  apply draws_append _ (before_node_draws own place)
  apply draws_append _ (draws_own own (by decide))
  exact draws_append (begin_item_draws own unit place) (property_children_draws own each unit values false)

theorem print_node_draws (place : Place) : Draws allowed (printNode place parts context) := by
  have body : isIndentUnit (bodyContext parts context).indentUnit = true := by
    unfold bodyContext
    split <;> exact unit
  exact draws_append (begin_item_draws own unit place) (node_children_draws own each body)

theorem print_branch_draws (kind : Kind) : Draws allowed (printBranch kind parts context) := by
  cases parts with
  | nil => exact draws_silent (by simp [printBranch])
  | cons head body =>
      have child : ∀ part ∈ head :: body, Draws allowed (branchChild context part) := by
        intro part member
        unfold branchChild
        split
        · exact (each part member).branch context unit
        · split
          · exact draws_nil
          · exact (each part member).print context unit
      have keyword : Within allowed (directiveKeyword head.text) :=
        within_directive_keyword (within_strip (each head (by simp)).text)
      have line : ∀ condition, (∀ part ∈ condition, part ∈ body) →
          ∀ text ∈ branchLine (directiveKeyword head.text) condition, Within allowed text := by
        intro condition among text member
        cases condition with
        | none =>
            rw [List.mem_singleton.mp member]
            exact keyword
        | some part =>
            simp only [branchLine, List.mem_cons, List.not_mem_nil, or_false] at member
            rcases member with same | same | same <;> rw [same]
            · exact keyword
            · exact within_own own (by decide)
            · exact within_strip (each part (List.mem_cons_of_mem _ (among part rfl))).text
      have split : (∀ part ∈ (splitCondition kind body).1, part ∈ body) ∧
          ∀ part ∈ (splitCondition kind body).2, part ∈ body := by
        unfold splitCondition
        split
        · simp
        · split <;> simp +contextual
      unfold printBranch
      apply draws_append
      · apply draws_writes
        intro text member
        rw [List.mem_append, List.mem_cons, List.mem_singleton] at member
        rcases member with (rfl | inner) | rfl
        · exact within_indentation own unit
        · exact line _ split.1 text inner
        · exact within_own own (by decide)
      · exact draws_flatMap fun part member => child part (List.mem_cons_of_mem _ (split.2 part member))

theorem print_conditional_draws (place : Place) (kind : Kind) :
    Draws allowed (printConditional place kind parts context) := by
  apply draws_append _ (end_run_draws own _ _)
  apply draws_append (print_branch_draws own each unit kind)
  exact draws_cons (draws_write (within_indentation own unit)) (draws_own own (by decide))

omit own in
theorem print_unhandled_draws (warn : Bool) (name : String) {token : String}
    (whole : Within allowed token) : Draws allowed (printUnhandled warn name token parts context) := by
  apply draws_append
  · apply draws_silent
    intro text
    split <;> simp
  · split
    · exact draws_write whole
    · next first rest =>
        apply draws_append ((each first (by simp)).print context unit)
        exact draws_flatMap fun part member => (each part (by simp [member])).print _ unit

end

/-! ### Documents -/

section

variable {allowed : Char → Prop} (own : ∀ c ∈ ownCharacters, allowed c)

include own

theorem drawn_of_children (settings : Settings) {tree : Tree} (whole : Within allowed tree.text)
    (children : ∀ child ∈ tree.children, ∀ place, Drawn allowed (part settings place child))
    (place : Place) : Drawn allowed (part settings place tree) := by
  have each : ∀ part ∈ inner settings place tree, Drawn allowed part := by
    intro member present
    obtain ⟨child, inside, spot, rfl⟩ := exists_of_mem_parts _ _ _ present
    exact children child inside spot
  have texts : ∀ part ∈ inner settings place tree, Within allowed part.text :=
    fun part member => (each part member).text
  have cells : ∀ cell ∈ (inner settings place tree).map Part.toCell, Within allowed cell.text := by
    intro cell member
    obtain ⟨part, present, rfl⟩ := List.mem_map.mp member
    exact texts part present
  have token : Within allowed (strip tree.text) := within_strip whole
  constructor
  case text => simpa using whole
  case print =>
    intro context unit
    rw [part_print]
    cases kind : tree.kind
    case comment => exact print_comment_draws own unit place whole
    case fileVersion | plugin => exact print_header_draws own unit place cells
    case fileInclude => exact print_include_draws own unit place texts
    case memoryReservation | deleteNode | deleteProperty => exact print_statement_draws own unit cells
    case omitIfNoRef | labeledItem => exact print_wrapper_draws own each unit place
    case includeDirective | defineDirective | functionDirective | callDirective =>
      exact print_directive_draws own unit place _ cells
    case ifDirective | ifdefDirective => exact print_conditional_draws own each unit place _
    case node => exact print_node_draws own each unit place
    case property => exact print_property_draws own each unit place
    case integerCells => exact print_cells_draws own unit _ cells
    case byteString => exact print_bytes_draws own unit whole cells
    case document | elseBranch | elifBranch | elifdefBranch | unknown =>
      exact print_unhandled_draws each unit _ _ token
    case rightBrace =>
      have shallower : Within allowed context.shallower.indentation := within_indentation own unit
      exact draws_append (draws_write shallower) (draws_own own (by decide))
    case leftBrace | semicolon | comma | equals | colon => exact draws_own own (by decide)
    all_goals exact draws_write token
  case branch =>
    intro context unit
    rw [part_print_branch]
    exact print_branch_draws own each unit _

theorem tree_drawn (settings : Settings) {tree : Tree}
    (texts : tree.Everywhere fun tree => Within allowed tree.text) :
    ∀ place, Drawn allowed (part settings place tree) := by
  apply Tree.spreads.induction _ texts
  intro tree here _ children
  exact drawn_of_children own settings here children

/-- A printed text keeps to every class of characters that contains the printer's
own and those of the nodes. -/
theorem format_tree_within (settings : Settings) {root : Tree}
    (texts : root.Everywhere fun tree => Within allowed tree.text) {text : String}
    (printed : (formatTree settings root).outcome = .ok text) : Within allowed text := by
  have draws : Draws allowed (documentCommands settings root) := by
    apply draws_flatMap
    intro member present
    obtain ⟨child, inside, spot, rfl⟩ := exists_of_mem_parts _ _ _ present
    exact (tree_drawn own settings ((Tree.everywhere_iff.mp texts).2 child inside) spot).print _
      settings.indentUnit_blank
  have fragments := run_within own draws {} (by simp)
  unfold formatTree at printed
  split at printed
  · next output finished =>
      rw [finished] at fragments
      cases printed
      exact within_join fun fragment member => fragments fragment (List.mem_reverse.mp member)
  · cases printed

end

end DevicetreeFormat.Printer
