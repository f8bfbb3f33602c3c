import DevicetreeFormat.Proofs.Tidy.Runs
import DevicetreeFormat.Proofs.Tidy.Tables

/-!
# Items that keep the output tidy

An item of a tree that follows the grammar is printed on lines of its own, and all of
them end well. A comment looks back to the line before it, so it needs one; every
other item can begin anywhere, also on the line of its wrapper. The tables of an item
are written in order, and nothing else is left out of the count of blank lines.
-/

namespace DevicetreeFormat.Printer

set_option autoImplicit false

open Text

/-- Where an item can begin. Only a comment with something before it looks back. -/
structure Ready (place : Place) (kind : Kind) (tables : List String) (text : List Char) : Prop
    extends Clean tables text where
  behind : kind = .comment → place.before.isSome = true → EndsIn (· = '\n') text

theorem AfterBreak.ready {tables : List String} {text : List Char} (line : AfterBreak tables text)
    (place : Place) (kind : Kind) : Ready place kind tables text :=
  ⟨line.toClean, fun _ _ => line.ended⟩

/-- The item is printed tidily at any depth, and so is the branch, and their binding
tables are written. -/
structure Tidies (settings : Settings) (tree : Tree) : Prop where
  item : tree.kind.isItem = true → ∀ (place : Place) {context : Context},
    isIndentUnit context.indentUnit = true → context.bindings = false → ∀ done : List String,
    Takes (Ready place tree.kind done)
      (AfterBreak (done ++ tree.tables settings.activeLayout context))
      ((part settings place tree).print context)
  branch : tree.kind.isBranch = true → ∀ (place : Place) {context : Context},
    isIndentUnit context.indentUnit = true → context.bindings = false → ∀ done : List String,
    Takes (Clean done) (AfterBreak (done ++ tree.tables settings.activeLayout context))
      ((part settings place tree).printBranch context)

section

variable (settings : Settings) {context : Context}

/-! ### Tokens before an item or a body -/

theorem wrapper_token_takes {part : Part} (line : OneLine part.text)
    (plain : part.kind.isWrappable = false) (done : List String) :
    Takes (Clean done) (Clean done) (wrapperChild context part) := by
  rw [Kind.isWrappable] at plain
  simp only [wrapperChild, plain, Bool.false_eq_true, if_false]
  split
  · exact takes_unbroken (by decide)
  · apply takes_unbroken
    split
    · exact line.2
    · exact (is_word_append line (by decide)).2

theorem node_children_takes (kind : Kind) (parent : Place) {header : List Tree} {opening : Tree}
    {block : List Tree} (brace : opening.kind = .leftBrace)
    (tokens : ∀ token ∈ header, token.kind ≠ .leftBrace ∧ OneLine token.text) {done : List String}
    {after : List Char → Prop}
    (body : ∀ before : Option Kind, Takes (AfterBreak done) after
      ((parts settings kind parent before block).flatMap fun child => child.print context))
    (before : Option Kind) :
    Takes (Clean done) after
      (nodeChildren context (parts settings kind parent before (header ++ opening :: block))) := by
  induction header generalizing before with
  | nil =>
      have word : Solid " \x7b" := ⟨by decide, [' '], '\x7b', rfl, rfl⟩
      have opens : Takes (Clean done) (AfterBreak done) [.write " \x7b\n"] :=
        (takes_close word rfl).widen fun _ line => line.after_break
      simp only [List.nil_append, parts, nodeChildren, part_kind, brace, if_true, List.flatMap_cons,
        print_left_brace _ _ _ brace]
      exact takes_append opens (body (some .leftBrace))
  | cons token rest induction =>
      obtain ⟨other, line⟩ := tokens token (by simp)
      have word : '\n' ∉ (if token.kind = .colon then ": " else token.token).toList := by
        split
        · decide
        · exact line.2
      have later := induction (fun next member => tokens next (by simp [member])) (some token.kind)
      simp only [List.cons_append, parts, nodeChildren, part_kind, other, if_false, Cell.token, part_text]
      exact takes_cons (takes_unbroken word) later

variable (unit : isIndentUnit context.indentUnit = true)

include unit

/-! ### Items of one line -/

theorem print_comment_takes (place : Place) {text : String} (line : OneLine text) (done : List String) :
    Takes (Ready place .comment done) (AfterBreak done) (printComment place text context) := by
  have parted : Takes (Ready place .comment done) (Clean done) (apart place) := by
    unfold apart
    split
    · next kind before =>
        split
        · exact ⟨fun _ ready => ready.toClean⟩
        · constructor
          intro output ready
          have line : AfterBreak done output.written :=
            ⟨ready.toClean, ready.behind rfl (by simp [before])⟩
          exact (takes_separate.take output line).toClean
    · exact ⟨fun _ ready => ready.toClean⟩
  have written : Takes (Clean done) (AfterLine done) _ :=
    takes_indented unit (solid_normal_comment line)
  exact takes_append parted (written.widen fun _ line => line.after_break)

section

variable (place : Place) {tree : Tree} (shaped : tree.Shaped) (done : List String)

include shaped

theorem header_takes (header : tree.kind.isHeader = true) :
    Takes (Clean done) (AfterBreak done) ((part settings place tree).print context) := by
  rw [print_header _ _ _ header, printHeader]
  exact takes_append (takes_indented unit (header_solid shaped header)) (takes_end_run place _)

theorem include_takes (included : tree.kind = .fileInclude) :
    Takes (Clean done) (AfterBreak done) ((part settings place tree).print context) := by
  obtain ⟨path, found, solid⟩ := include_solid shaped settings place included
  rw [print_include _ _ _ included, printInclude, found]
  apply takes_append _ (takes_end_run place _)
  apply takes_cons (takes_unbroken (indentation_unbroken unit))
  exact takes_cons (takes_unbroken (by decide)) (takes_last solid)

theorem statement_takes (statement : tree.kind.isStatement = true) :
    Takes (Clean done) (AfterBreak done) ((part settings place tree).print context) := by
  have written : Takes (Clean done) (AfterLine done)
      (printStatement (tree.children.map Tree.cell) context) := by
    apply takes_cons (takes_unbroken (indentation_unbroken unit))
    exact takes_cons (takes_unbroken (statement_word shaped statement).2) takes_semicolon
  rw [print_statement _ _ _ statement]
  exact written.widen fun _ line => line.after_break

theorem directive_takes (directive : (tree.kind.isDirective && !tree.kind.isConditional) = true) :
    Takes (Clean done) (AfterBreak done) ((part settings place tree).print context) := by
  obtain ⟨head, operands, cells, solid⟩ := directive_solid shaped directive tree.kind
  rw [print_directive _ _ _ directive, cells]
  exact takes_append (takes_indented unit solid) (takes_end_run place _)

end

/-! ### Properties -/

theorem inline_comment_takes {part : Part} (line : OneLine part.text) (done : List String) :
    Takes (Clean done) (Clean done) (inlineComment part context) := by
  have solid := solid_normal_comment line
  have deeper : isIndentUnit context.deeper.indentUnit = true := unit
  simp only [inlineComment]
  apply takes_cons takes_space
  split
  · have ended : Takes (Clean done) (Clean done) (writes [normalComment part.text, "\n"]) :=
      (takes_last solid).widen fun _ line => line.toClean
    exact takes_append ended (takes_unbroken (indentation_unbroken deeper))
  · apply takes_cons (takes_unbroken solid.unbroken)
    split
    · exact takes_nil _
    · split
      · exact takes_nil _
      · exact takes_unbroken (by decide)

theorem value_takes (place : Place) {tree : Tree} (shaped : tree.Shaped) (value : tree.isValue = true)
    (done : List String) :
    Takes (Clean done) (Clean (done ++ tree.tables settings.activeLayout context))
      ((part settings place tree).print context) := by
  obtain ⟨verbatim, line⟩ | cells | bytes := Tree.is_value_iff.mp value
  · rw [print_verbatim _ _ _ verbatim, Tree.tables_verbatim _ _ verbatim, List.append_nil]
    exact takes_unbroken line.2
  · have lines : ∀ cell ∈ tree.children.map Tree.cell, cell.isAngle = true ∨ OneLine cell.text := by
      intro cell member
      obtain ⟨child, inside, rfl⟩ := List.mem_map.mp member
      exact shaped.cells cells child inside
    rw [print_cells _ _ _ cells, Tree.tables_eq, if_pos cells, printCells]
    split
    · rw [Table.render_eq]
      apply takes_append (takes_reports _ _)
      exact takes_write fun _ clean => clean.table (table_trimmed lines unit settings.activeLayout)
    · rw [List.append_nil]
      exact takes_neat (plain_cells_neat lines unit)
  · have inked : ∀ c ∈ byteDigits tree.text (tree.children.map Tree.cell), isBlank c = false := by
      intro c member
      simpa using (List.mem_filter.mp member).2
    rw [print_bytes _ _ _ bytes, Tree.tables_childless _ _ bytes (by decide) fun _ => rfl, List.append_nil]
    exact takes_neat (render_bytes_neat inked unit)

/-- The children of a property. Tables can stand only behind the equals sign. -/
theorem property_child_takes (place : Place) {tree : Tree} (shaped : tree.Shaped) {seenEquals : Bool}
    (fits : (tree.kind.isPunctuation || if seenEquals then tree.isValue else OneLine tree.text) = true)
    (done : List String) :
    Takes (Clean done)
      (Clean (done ++ if seenEquals then tree.tables settings.activeLayout context else []))
      (propertyChild context seenEquals (part settings place tree)) := by
  simp only [propertyChild, part_kind]
  by_cases mark : tree.kind.isPunctuation = true
  · have none : tree.tables settings.activeLayout context = [] := Tree.tables_punctuation _ _ mark
    have unbroken : '\n' ∉ tree.kind.sign.toList := by
      rcases Kind.is_punctuation_iff.mp mark with kind | kind | kind <;> rw [kind] <;> decide
    rw [mark, Bool.or_true, if_pos rfl, print_punctuation _ _ _ mark, none, ite_self, List.append_nil]
    exact takes_unbroken unbroken
  · rw [Bool.not_eq_true] at mark
    rw [mark, Bool.false_or] at fits
    rw [mark, Bool.or_false]
    cases seenEquals with
    | true => exact value_takes settings unit place shaped fits done
    | false =>
        rw [if_neg (by decide), decide_eq_true_eq] at fits
        rw [if_neg (by decide), if_neg (by decide), part_token, List.append_nil]
        exact takes_unbroken fits.2

theorem property_children_takes (kind : Kind) (parent : Place) {inner : Context}
    (innerUnit : isIndentUnit inner.indentUnit = true) {trees : List Tree}
    (shaped : ∀ tree ∈ trees, tree.Shaped) {seenEquals : Bool}
    (form : Tree.isPropertyForm seenEquals trees = true) (before : Option Kind) (done : List String) :
    Takes (Clean done)
      (Clean (done ++ (Tree.valued seenEquals trees).flatMap (Tree.tables settings.activeLayout inner)))
      (propertyChildren context inner seenEquals (parts settings kind parent before trees)) := by
  induction trees generalizing before seenEquals done with
  | nil => cases form
  | cons tree rest induction =>
      have later : ∀ {seen : Bool} {tables : List String}, Tree.isPropertyForm seen rest = true →
          Takes (Clean tables)
            (Clean (tables ++ (Tree.valued seen rest).flatMap (Tree.tables settings.activeLayout inner)))
            (propertyChildren context inner seen (parts settings kind parent (some tree.kind) rest)) :=
        fun form => induction (fun other member => shaped other (by simp [member])) form _ _
      have here := shaped tree (by simp)
      rw [parts, Tree.tables_valued_cons, ← List.append_assoc]
      by_cases ending : tree.kind = .semicolon
      · have none : tree.tables settings.activeLayout inner = [] :=
          Tree.tables_childless _ _ ending (by decide) fun _ => rfl
        have last : rest = [] := by simpa [Tree.is_property_form_end ending] using form
        rw [property_children_end (by rw [part_kind, ending]), none, ite_self, last]
        cases seenEquals <;> simpa [Tree.valued, ending] using takes_nil _
      · by_cases comment : tree.kind = .comment
        · have none : tree.tables settings.activeLayout inner = [] :=
            Tree.tables_childless _ _ comment (by decide) fun _ => rfl
          have unseen : (seenEquals || decide (tree.kind = .equals)) = seenEquals := by simp [comment]
          rw [Tree.is_property_form_comment comment] at form
          rw [property_children_comment (by rw [part_kind, comment]), none, ite_self, List.append_nil,
            unseen]
          apply takes_append _ (later form)
          apply inline_comment_takes unit
          rw [part_text]
          exact here.comment comment
        · rw [Tree.is_property_form_child ending comment, Bool.and_eq_true] at form
          rw [property_children_child (by rwa [part_kind]) (by rwa [part_kind]), part_kind]
          exact takes_append (property_child_takes settings innerUnit _ here form.1 done) (later form.2)

/-! ### Wrappers and nodes -/

theorem wrapper_children_takes (kind : Kind) (parent : Place) {tokens : List Tree} {item : Tree}
    (unbound : context.bindings = false)
    (lines : ∀ token ∈ tokens, token.kind.isWrappable = false ∧ OneLine token.text)
    (wrapped : item.kind.isWrappable = true) (tidies : Tidies settings item) (before : Option Kind)
    (done : List String) :
    Takes (Clean done) (AfterBreak (done ++ item.tables settings.activeLayout context))
      ((parts settings kind parent before (tokens ++ [item])).flatMap (wrapperChild context)) := by
  induction tokens generalizing before with
  | nil =>
      have isItem : item.kind.isItem = true := by rw [Kind.isItem, wrapped, Bool.or_true]
      have printed := tidies.item isItem (childPlace kind parent before none) unit unbound done
      have other : item.kind ≠ .comment := by
        intro comment
        rw [comment] at wrapped
        cases wrapped
      rw [List.nil_append, parts, parts, neighbour?, List.flatMap_singleton,
        wrapper_child_item _ _ wrapped]
      exact printed.narrow fun _ clean => ⟨clean, fun comment => absurd comment other⟩
  | cons token rest induction =>
      have here := lines token (by simp)
      rw [List.cons_append, parts, List.flatMap_cons]
      apply takes_append (wrapper_token_takes _ _ done)
        (induction (fun other member => lines other (by simp [member])) (some token.kind))
      · rw [part_text]
        exact here.2
      · rw [part_kind]
        exact here.1

theorem item_takes {item : Tree} (shaped : item.isItem = true) (tidies : Tidies settings item)
    (place : Place) (unbound : context.bindings = false) (done : List String) :
    Takes (AfterBreak done) (AfterBreak (done ++ item.tables settings.activeLayout context))
      ((part settings place item).print context) := by
  rw [Tree.is_item_iff] at shaped
  exact (tidies.item shaped.2 place unit unbound done).narrow fun _ line => line.ready _ _

/-- Items in a row, and what is printed behind them. -/
theorem items_take (kind : Kind) (parent : Place) {items later : List Tree}
    (unbound : context.bindings = false) (shaped : ∀ item ∈ items, item.isItem = true)
    (tidies : ∀ item ∈ items, Tidies settings item)
    (behind : ∀ (before : Option Kind) (done : List String), Takes (AfterBreak done) (AfterBreak done)
      ((parts settings kind parent before later).flatMap fun child => child.print context))
    (before : Option Kind) (done : List String) :
    Takes (AfterBreak done)
      (AfterBreak (done ++ items.flatMap (Tree.tables settings.activeLayout context)))
      ((parts settings kind parent before (items ++ later)).flatMap fun child => child.print context) := by
  induction items generalizing before done with
  | nil =>
      rw [List.nil_append, List.flatMap_nil, List.append_nil]
      exact behind before done
  | cons item rest induction =>
      have printed := item_takes settings unit (shaped item (by simp)) (tidies item (by simp))
        (childPlace kind parent before (neighbour? (rest ++ later))) unbound done
      have others := induction (fun other member => shaped other (by simp [member]))
        (fun other member => tidies other (by simp [member])) (some item.kind)
        (done ++ item.tables settings.activeLayout context)
      rw [List.cons_append, parts, List.flatMap_cons, List.flatMap_cons, ← List.append_assoc]
      exact takes_append printed others

theorem closing_takes (kind : Kind) (parent : Place) {closing ending : Tree}
    (brace : closing.kind = .rightBrace) (semicolon : ending.kind = .semicolon) (before : Option Kind)
    (done : List String) :
    Takes (AfterBreak done) (AfterBreak done)
      ((parts settings kind parent before [closing, ending]).flatMap fun child => child.print context) := by
  have shallower : isIndentUnit context.shallower.indentUnit = true := unit
  have closed : Takes (Clean done) (AfterLine done)
      (writes [context.shallower.indentation, "\x7d"] ++ [.write ";\n"]) := by
    apply takes_append _ takes_semicolon
    exact takes_cons (takes_unbroken (indentation_unbroken shallower)) (takes_unbroken (by decide))
  simp only [parts, List.flatMap_cons, List.flatMap_nil, List.append_nil,
    print_right_brace _ _ _ brace, print_semicolon _ _ _ semicolon]
  exact (closed.narrow fun _ line => line.toClean).widen fun _ line => line.after_break

/-! ### Conditionals -/

/-- The items and later branches of a branch, up to the closing keyword. -/
theorem contents_take (kind : Kind) (parent : Place) {contents closing : List Tree}
    (unbound : context.bindings = false)
    (shaped : ∀ child ∈ contents, child.isItem = true ∨ child.kind.isBranch = true)
    (tidies : ∀ child ∈ contents, Tidies settings child)
    (closes : ∀ tree ∈ closing, tree.isEndif = true) (before : Option Kind) (done : List String) :
    Takes (AfterBreak done)
      (AfterBreak (done ++ contents.flatMap (Tree.tables settings.activeLayout context)))
      ((parts settings kind parent before (contents ++ closing)).flatMap (branchChild context)) := by
  induction contents generalizing before done with
  | nil =>
      rw [List.nil_append, branch_children_closing settings kind parent before context closes,
        List.flatMap_nil, List.append_nil]
      exact takes_nil _
  | cons child rest induction =>
      have tidy := tidies child (by simp)
      have later := induction (fun other member => shaped other (by simp [member]))
        (fun other member => tidies other (by simp [member])) (some child.kind)
        (done ++ child.tables settings.activeLayout context)
      rw [List.cons_append, parts, List.flatMap_cons, List.flatMap_cons, ← List.append_assoc]
      apply takes_append _ later
      by_cases branch : child.kind.isBranch = true
      · have printed := tidy.branch branch
          (childPlace kind parent before (neighbour? (rest ++ closing))) unit unbound done
        simp only [branchChild, part_kind, branch, if_true]
        exact printed.narrow fun _ line => line.toClean
      · have item : child.isItem = true := (shaped child (by simp)).resolve_right branch
        have printed := item_takes settings unit item tidy
          (childPlace kind parent before (neighbour? (rest ++ closing))) unbound done
        rw [Tree.is_item_iff] at item
        rw [Bool.not_eq_true] at branch
        rwa [branch_child_item _ _ _ item.1 branch]

theorem print_branch_takes (place : Place) {tree : Tree} {body closing : List Tree}
    (unbound : context.bindings = false)
    (branching : (tree.kind.isConditional || tree.kind.isBranch) = true)
    (children : tree.children = body ++ closing) (form : Tree.IsBranchForm tree.kind body)
    (tidies : ∀ child ∈ tree.children, Tidies settings child)
    (closes : ∀ child ∈ closing, child.isEndif = true) (done : List String) :
    Takes (Clean done) (AfterBreak (done ++ tree.tables settings.activeLayout context))
      (printBranch tree.kind (inner settings place tree) context) := by
  rw [inner, children]
  rw [children] at tidies
  by_cases last : tree.kind = .elseBranch
  · rw [last] at form
    obtain ⟨head, contents, rfl, line, shaped⟩ := Tree.exists_of_is_branch_form_else form
    have split : tree.children = [head] ++ (contents ++ closing) := children
    have first : Takes (Clean done) (AfterBreak done)
        (writes [context.indentation, directiveKeyword head.text, "\n"]) :=
      (takes_indented unit (solid_directive_keyword line)).widen fun _ line => line.after_break
    have rest := contents_take settings unit tree.kind place unbound shaped
      (fun child member => tidies child (by simp [member])) closes (some head.kind) done
    rw [Tree.tables_branch _ _ branching split (by simp [Tree.branchWords, last]) shaped closes]
    rw [last] at rest ⊢
    rw [List.cons_append, parts, print_branch_else, part_text]
    exact takes_append first rest
  · obtain ⟨head, condition, contents, rfl, line, conditionLine, shaped⟩ :=
      Tree.exists_of_is_branch_form last form
    have split : tree.children = [head, condition] ++ (contents ++ closing) := children
    have written : Takes (Clean done) (AfterLine done)
        (writes [context.indentation, directiveKeyword head.text, " ", condition.token, "\n"]) := by
      apply takes_cons (takes_unbroken (indentation_unbroken unit))
      apply takes_cons (takes_unbroken (solid_directive_keyword line).unbroken)
      exact takes_cons (takes_unbroken (by decide)) (takes_last (solid_strip conditionLine))
    have first := written.widen fun _ line => line.after_break
    have rest := contents_take settings unit tree.kind place unbound shaped
      (fun child member => tidies child (by simp [member])) closes (some condition.kind) done
    rw [Tree.tables_branch _ _ branching split (by simp [Tree.branchWords, last]) shaped closes]
    rw [List.cons_append, List.cons_append, parts, parts, print_branch_condition last, part_text,
      Cell.token, part_text]
    exact takes_append first rest

/-! ### Trees -/

section

variable (place : Place) {tree : Tree} (shaped : tree.Shaped) (unbound : context.bindings = false)
  (done : List String)

include shaped unbound

theorem wrapper_takes (tidies : ∀ child ∈ tree.children, Tidies settings child)
    (wrapper : tree.kind.isWrapper = true) :
    Takes (Clean done) (AfterBreak (done ++ tree.tables settings.activeLayout context))
      ((part settings place tree).print context) := by
  obtain ⟨tokens, item, children, lines, wrapped⟩ :=
    Tree.exists_of_is_wrapper_form (shaped.wrapper wrapper).2
  have tidy := tidies item (by simp [children])
  rw [Tree.tables_wrapper _ _ wrapper children (fun token member => (lines token member).1) wrapped,
    print_wrapper _ _ _ wrapper, printWrapper, inner, children]
  exact takes_append (takes_begin_item place unit)
    (wrapper_children_takes settings unit tree.kind place unbound lines wrapped tidy none done)

theorem node_takes (tidies : ∀ child ∈ tree.children, Tidies settings child) (node : tree.kind = .node) :
    Takes (Clean done) (AfterBreak (done ++ tree.tables settings.activeLayout context))
      ((part settings place tree).print context) := by
  obtain ⟨header, opening, block, children, tokens, brace, form⟩ :=
    Tree.exists_of_is_node_form (shaped.node node)
  obtain ⟨items, closing, ending, rfl, isItem, rightBrace, semicolon⟩ := Tree.exists_of_is_block form
  rw [Tree.is_mark_iff] at rightBrace semicolon
  have body : bodyContext (inner settings place tree) context =
      Tree.childContext .node tree.children context := by
    rw [bodyContext, inner, name_of_parts]
    rfl
  have bodyUnit : isIndentUnit (Tree.childContext .node tree.children context).indentUnit = true := by
    rw [Tree.child_context_indent_unit, unit]
  have bodyUnbound : (Tree.childContext .node tree.children context).bindings = false := by
    rw [Tree.child_context_node_bindings, unbound]
  rw [Tree.tables_node _ _ node children (fun token member => (tokens token member).1) brace
    rightBrace.2 semicolon.2, print_node _ _ _ node, printNode, body]
  apply takes_append (takes_begin_item place unit)
  rw [inner, children]
  rw [children] at tidies bodyUnit bodyUnbound
  apply node_children_takes settings _ place brace tokens
  intro before
  exact items_take settings bodyUnit _ place bodyUnbound isItem
    (fun item member => tidies item (by simp [member]))
    (closing_takes settings bodyUnit _ place rightBrace.2 semicolon.2) before done

omit unbound in
theorem property_takes (children : ∀ child ∈ tree.children, child.Shaped)
    (property : tree.kind = .property) :
    Takes (Clean done) (AfterBreak (done ++ tree.tables settings.activeLayout context))
      ((part settings place tree).print context) := by
  have form := (shaped.property property).2
  have values : valueContext (inner settings place tree) context =
      Tree.childContext .property tree.children context := by
    rw [valueContext, inner, name_of_parts]
    rfl
  have valueUnit : isIndentUnit (Tree.childContext .property tree.children context).indentUnit = true := by
    rw [Tree.child_context_indent_unit, unit]
  rw [Tree.tables_eq, if_neg (by simp [property]), property, print_property _ _ _ property,
    printProperty, values]
  apply takes_append _ (takes_before_node place)
  apply takes_append _ takes_semicolon
  exact takes_append (takes_begin_item place unit)
    (property_children_takes settings unit _ place valueUnit children form none done)

theorem conditional_takes (tidies : ∀ child ∈ tree.children, Tidies settings child)
    (conditional : tree.kind.isConditional = true) :
    Takes (Clean done) (AfterBreak (done ++ tree.tables settings.activeLayout context))
      ((part settings place tree).print context) := by
  obtain ⟨body, ending, children, form, closes⟩ := Tree.exists_of_conditional shaped conditional
  have branch := print_branch_takes settings unit place unbound (by rw [conditional, Bool.true_or])
    children form tidies (by simpa using closes) done
  have mark : Solid "#endif" := ⟨by decide, ['#', 'e', 'n', 'd', 'i'], 'f', rfl, rfl⟩
  rw [print_conditional _ _ _ conditional, printConditional]
  apply takes_append _ (takes_end_run place _)
  apply takes_append (branch.widen fun _ line => line.toClean)
  exact takes_cons (takes_unbroken (indentation_unbroken unit)) (takes_close mark rfl)

end

end

/-- A tree that follows the grammar is printed tidily if its children are. -/
theorem tidies_of_children (settings : Settings) {tree : Tree} (shaped : tree.Shaped)
    (children : ∀ child ∈ tree.children, child.Shaped)
    (tidies : ∀ child ∈ tree.children, Tidies settings child) : Tidies settings tree := by
  constructor
  · intro item place context unit unbound done
    have single : ∀ {kind}, tree.kind = kind →
        (kind ≠ .integerCells ∧ ∀ children, Tree.printedChildren kind children = []) →
        done ++ tree.tables settings.activeLayout context = done :=
      fun known plain => by rw [Tree.tables_childless _ _ known plain.1 plain.2, List.append_nil]
    have anywhere : ∀ {after commands}, Takes (Clean done) after commands →
        Takes (Ready place tree.kind done) after commands :=
      fun takes => takes.narrow fun _ ready => ready.toClean
    cases known : tree.kind <;> rw [known] at item anywhere
    case comment =>
      rw [single known ⟨by decide, fun _ => rfl⟩, print_comment _ _ _ known]
      exact print_comment_takes unit place (shaped.comment known) done
    case fileVersion | plugin =>
      rw [single known ⟨by decide, fun _ => rfl⟩]
      exact anywhere (header_takes settings unit place shaped done (by rw [known]; rfl))
    case fileInclude =>
      rw [single known ⟨by decide, fun _ => rfl⟩]
      exact anywhere (include_takes settings unit place shaped done known)
    case memoryReservation | deleteNode | deleteProperty =>
      rw [single known ⟨by decide, fun _ => rfl⟩]
      exact anywhere (statement_takes settings unit place shaped done (by rw [known]; rfl))
    case includeDirective | defineDirective | functionDirective | callDirective =>
      rw [single known ⟨by decide, fun _ => rfl⟩]
      exact anywhere (directive_takes settings unit place shaped done (by rw [known]; rfl))
    case ifDirective | ifdefDirective =>
      exact anywhere (conditional_takes settings unit place shaped unbound done tidies (by rw [known]; rfl))
    case omitIfNoRef | labeledItem =>
      exact anywhere (wrapper_takes settings unit place shaped unbound done tidies (by rw [known]; rfl))
    case node => exact anywhere (node_takes settings unit place shaped unbound done tidies known)
    case property => exact anywhere (property_takes settings unit place shaped done children known)
    all_goals cases item
  · intro branch place context unit unbound done
    have printed := print_branch_takes settings unit place unbound (by rw [branch, Bool.or_true])
      (List.append_nil _).symm (shaped.branch branch) tidies (by simp) done
    rwa [part_print_branch]

theorem tree_tidies (settings : Settings) {tree : Tree} (shaped : tree.Everywhere Tree.Shaped) :
    Tidies settings tree := by
  apply Tree.spreads.induction _ shaped
  intro tree here below tidies
  exact tidies_of_children settings here
    (fun child member => Tree.spreads.self (below child member)) tidies

end DevicetreeFormat.Printer
