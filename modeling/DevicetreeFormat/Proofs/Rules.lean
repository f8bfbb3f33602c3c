import DevicetreeFormat.Proofs.Grammar
import DevicetreeFormat.Proofs.Solid

/-!
# Which rule prints which kind

The rule that prints a tree is chosen by its kind. One equation for each rule
says so, with the children of the tree in place of the parts that the walk makes
of them wherever the rule reads only their kinds and texts. The line of an item
that follows the grammar is a word. Other than for statements, which get a
semicolon, its last character is ink.
-/

namespace DevicetreeFormat.Printer

set_option autoImplicit false

section

variable (settings : Settings) (place : Place) {tree : Tree} (context : Context)

def inner (tree : Tree) : List Part :=
  parts settings tree.kind place none tree.children

theorem inner_cells : (inner settings place tree).map Part.toCell = tree.children.map Tree.cell :=
  parts_cells settings tree.kind place none tree.children

theorem part_print : (part settings place tree).print context =
    printNodeOfKind settings place tree.kind tree.name tree.text (inner settings place tree) context := by
  cases tree
  rfl

theorem part_print_branch : (part settings place tree).printBranch context =
    printBranch tree.kind (inner settings place tree) context := by
  cases tree
  rfl

theorem print_comment (comment : tree.kind = .comment) :
    (part settings place tree).print context = printComment place tree.text context := by
  rw [part_print, comment]
  rfl

theorem print_header (header : tree.kind.isHeader = true) :
    (part settings place tree).print context =
      printHeader place (tree.children.map Tree.cell) context := by
  rw [part_print, ← inner_cells settings place]
  cases kind : tree.kind <;> rw [kind] at header <;> cases header <;> rfl

theorem print_include (included : tree.kind = .fileInclude) :
    (part settings place tree).print context =
      printInclude place (inner settings place tree) context := by
  rw [part_print, included]
  rfl

theorem print_statement (statement : tree.kind.isStatement = true) :
    (part settings place tree).print context =
      printStatement (tree.children.map Tree.cell) context := by
  rw [part_print, ← inner_cells settings place]
  cases kind : tree.kind <;> rw [kind] at statement <;> cases statement <;> rfl

theorem print_wrapper (wrapper : tree.kind.isWrapper = true) :
    (part settings place tree).print context =
      printWrapper place (inner settings place tree) context := by
  rw [part_print]
  cases kind : tree.kind <;> rw [kind] at wrapper <;> cases wrapper <;> rfl

theorem print_directive (directive : (tree.kind.isDirective && !tree.kind.isConditional) = true) :
    (part settings place tree).print context =
      printDirective place tree.kind (tree.children.map Tree.cell) context := by
  rw [part_print, ← inner_cells settings place]
  cases kind : tree.kind <;> rw [kind] at directive <;> cases directive <;> rfl

theorem print_conditional (conditional : tree.kind.isConditional = true) :
    (part settings place tree).print context =
      printConditional place tree.kind (inner settings place tree) context := by
  rw [part_print]
  cases kind : tree.kind <;> rw [kind] at conditional <;> cases conditional <;> rfl

theorem print_node (node : tree.kind = .node) :
    (part settings place tree).print context = printNode place (inner settings place tree) context := by
  rw [part_print, node]
  rfl

theorem print_property (property : tree.kind = .property) :
    (part settings place tree).print context =
      printProperty place (inner settings place tree) context := by
  rw [part_print, property]
  rfl

theorem print_cells (cells : tree.kind = .integerCells) :
    (part settings place tree).print context =
      printCells settings.activeLayout (tree.children.map Tree.cell) context := by
  rw [part_print, ← inner_cells settings place, cells]
  rfl

theorem print_bytes (bytes : tree.kind = .byteString) :
    (part settings place tree).print context =
      printBytes tree.text (tree.children.map Tree.cell) context := by
  rw [part_print, ← inner_cells settings place, bytes]
  rfl

theorem print_verbatim (verbatim : tree.kind.isVerbatim = true) :
    (part settings place tree).print context = [.write tree.token] := by
  rw [part_print]
  cases kind : tree.kind <;> rw [kind] at verbatim <;> cases verbatim <;> rfl

theorem print_unhandled
    (unhandled : (tree.kind = .document || tree.kind = .unknown || tree.kind.isBranch) = true) :
    (part settings place tree).print context = printUnhandled settings.warnUnhandled tree.name tree.token
      (inner settings place tree) context := by
  rw [part_print]
  cases kind : tree.kind <;> rw [kind] at unhandled <;> cases unhandled <;> rfl

theorem print_left_brace (mark : tree.kind = .leftBrace) :
    (part settings place tree).print context = [.write " \x7b\n"] := by
  rw [part_print, mark]
  rfl

theorem print_right_brace (mark : tree.kind = .rightBrace) :
    (part settings place tree).print context = writes [context.shallower.indentation, "\x7d"] := by
  rw [part_print, mark]
  rfl

theorem print_semicolon (mark : tree.kind = .semicolon) :
    (part settings place tree).print context = [.write ";\n"] := by
  rw [part_print, mark]
  rfl

theorem print_punctuation (mark : tree.kind.isPunctuation = true) :
    (part settings place tree).print context = [.write tree.kind.sign] := by
  rw [part_print]
  rcases Kind.is_punctuation_iff.mp mark with kind | kind | kind <;> rw [kind] <;> rfl

theorem inner_ne_nil (filled : tree.children ≠ []) : inner settings place tree ≠ [] := by
  rwa [← List.length_pos_iff, inner, parts_length, List.length_pos_iff]

end

/-! ### Children in a row -/

theorem wrapper_child_item (settings : Settings) (context : Context) {tree : Tree}
    (wrappable : tree.kind.isWrappable = true) (spot : Place) :
    wrapperChild context (part settings spot tree) = (part settings spot tree).print context := by
  have rule : (tree.kind = .node || tree.kind = .property || tree.kind.isWrapper) = true := wrappable
  have other : tree.kind ≠ .colon := by
    intro colon
    rw [colon] at wrappable
    cases wrappable
  rw [wrapperChild, part_kind, if_neg other, if_pos rule]

theorem branch_child_item (settings : Settings) (place : Place) (context : Context) {tree : Tree}
    (named : tree.named = true) (plain : tree.kind.isBranch = false) :
    branchChild context (part settings place tree) = (part settings place tree).print context := by
  simp [branchChild, named, plain]

/-- A branch leaves the closing keyword to its conditional. -/
theorem branch_children_closing (settings : Settings) (kind : Kind) (parent : Place)
    (before : Option Kind) (context : Context) {closing : List Tree}
    (closes : ∀ tree ∈ closing, tree.isEndif = true) :
    (parts settings kind parent before closing).flatMap (branchChild context) = [] := by
  rw [List.flatMap_eq_nil_iff]
  intro member present
  obtain ⟨tree, inside, place, rfl⟩ := exists_of_mem_parts settings kind parent present
  have endif := closes tree inside
  simp only [Tree.isEndif, Bool.and_eq_true, Bool.not_eq_true', decide_eq_true_eq] at endif
  simp [branchChild, endif]

/-- After the opening brace every child of a node is printed by its own rule. -/
theorem node_children_opened (context : Context) {front : List Part}
    (brace : Kind.leftBrace ∈ front.map fun part => part.kind) :
    ∃ commands, ∀ rest, nodeChildren context (front ++ rest) =
      commands ++ rest.flatMap fun child => child.print context := by
  induction front with
  | nil => simp at brace
  | cons part later induction =>
      by_cases here : part.kind = .leftBrace
      · refine ⟨(part :: later).flatMap fun child => child.print context, fun rest => ?_⟩
        rw [List.cons_append, nodeChildren, if_pos here, ← List.cons_append, List.flatMap_append]
      · rw [List.map_cons, List.mem_cons] at brace
        obtain ⟨commands, split⟩ := induction (brace.resolve_left fun same => here same.symm)
        refine ⟨.write (if part.kind = .colon then ": " else part.token) :: commands, fun rest => ?_⟩
        rw [List.cons_append, nodeChildren, if_neg here, split]
        rfl

/-- Before the opening brace the children of a node are tokens. -/
theorem node_children_unopened (context : Context) {front : List Part}
    (header : Kind.leftBrace ∉ front.map fun part => part.kind) :
    ∃ commands, ∀ rest, nodeChildren context (front ++ rest) = commands ++ nodeChildren context rest := by
  induction front with
  | nil => exact ⟨[], fun rest => rfl⟩
  | cons part later induction =>
      rw [List.map_cons, List.mem_cons, not_or] at header
      obtain ⟨commands, split⟩ := induction header.2
      refine ⟨.write (if part.kind = .colon then ": " else part.token) :: commands, fun rest => ?_⟩
      rw [List.cons_append, nodeChildren, if_neg fun same => header.1 same.symm, split]
      rfl

section

variable {part : Part} {rest : List Part} {outer inner : Context} {seenEquals : Bool}

theorem property_children_end (ending : part.kind = .semicolon) :
    propertyChildren outer inner seenEquals (part :: rest) = [] := by
  rw [propertyChildren, ending]

theorem property_children_comment (comment : part.kind = .comment) :
    propertyChildren outer inner seenEquals (part :: rest) =
      inlineComment part outer ++ propertyChildren outer inner seenEquals rest := by
  rw [propertyChildren, comment]

/-- What a property prints for a child that is neither a comment nor its semicolon. -/
def propertyChild (inner : Context) (seenEquals : Bool) (part : Part) : List Command :=
  if seenEquals || part.kind.isPunctuation then part.print inner else [.write part.token]

theorem property_children_child (inside : part.kind ≠ .semicolon) (code : part.kind ≠ .comment) :
    propertyChildren outer inner seenEquals (part :: rest) =
      propertyChild inner seenEquals part ++
        propertyChildren outer inner (seenEquals || part.kind = .equals) rest := by
  rw [propertyChildren, propertyChild]
  split
  · next ending => exact absurd ending inside
  · next comment => exact absurd comment code
  · next kind => simp [kind, Kind.isPunctuation]
  · next kind => simp [kind, Kind.isPunctuation]
  · next kind => simp [kind, Kind.isPunctuation]
  · next equals comma colon =>
      simp only [Kind.isPunctuation, decide_eq_false comma, decide_eq_false colon,
        decide_eq_false equals, Bool.or_false]

end

/-- Up to its semicolon the children of a property are printed one by one. -/
theorem property_children_append (outer inner : Context) {front : List Part}
    (unended : Kind.semicolon ∉ front.map fun part => part.kind) (seenEquals : Bool) :
    ∃ commands, ∀ rest, propertyChildren outer inner seenEquals (front ++ rest) =
      commands ++ propertyChildren outer inner
        (seenEquals || front.any fun part => part.kind = .equals) rest := by
  induction front generalizing seenEquals with
  | nil => exact ⟨[], fun rest => by simp⟩
  | cons part later induction =>
      rw [List.map_cons, List.mem_cons, not_or] at unended
      have seen : (seenEquals || (part :: later).any fun part => part.kind = .equals) =
          ((seenEquals || decide (part.kind = .equals)) || later.any fun part => part.kind = .equals) := by
        rw [List.any_cons, Bool.or_assoc]
      obtain ⟨commands, split⟩ := induction unended.2 (seenEquals || decide (part.kind = .equals))
      have step : ∃ first, ∀ rest, propertyChildren outer inner seenEquals (part :: rest) =
          first ++ propertyChildren outer inner (seenEquals || decide (part.kind = .equals)) rest := by
        by_cases comment : part.kind = .comment
        · refine ⟨inlineComment part outer, fun rest => ?_⟩
          rw [property_children_comment comment]
          simp [comment]
        · have inside : part.kind ≠ .semicolon := fun ending => unended.1 ending.symm
          exact ⟨_, fun rest => property_children_child inside comment⟩
      obtain ⟨first, same⟩ := step
      refine ⟨first ++ commands, fun rest => ?_⟩
      rw [List.cons_append, same, split, seen, List.append_assoc]

theorem print_branch_else (head : Part) (body : List Part) (context : Context) :
    printBranch .elseBranch (head :: body) context =
      writes [context.indentation, directiveKeyword head.text, "\n"] ++
        body.flatMap (branchChild context) := by
  cases body <;> rfl

theorem print_branch_condition {kind : Kind} (conditioned : kind ≠ .elseBranch) (head condition : Part)
    (body : List Part) (context : Context) :
    printBranch kind (head :: condition :: body) context =
      writes [context.indentation, directiveKeyword head.text, " ", condition.token, "\n"] ++
        body.flatMap (branchChild context) := by
  simp [printBranch, splitCondition, conditioned, branchLine]

/-- What an include reads of a child. -/
def labelOf (part : Part) : Bool × String :=
  (part.named, part.token)

/-- The last label with a name, or else the last. -/
def pathLabel (labels : List (Bool × String)) : Option (Bool × String) :=
  ((labels.filter Prod.fst).getLast?).or labels.getLast?

theorem included_path_label (parts : List Part) :
    (includedPath parts).map labelOf = pathLabel (parts.map labelOf) := by
  rw [includedPath, pathLabel, Option.map_or, List.filter_map, List.getLast?_map, List.getLast?_map]
  rfl

theorem parts_labels (settings : Settings) (kind : Kind) (parent : Place) (before : Option Kind)
    (trees : List Tree) : (parts settings kind parent before trees).map labelOf =
      trees.map fun tree => (tree.named, tree.token) := by
  induction trees generalizing before with
  | nil => rfl
  | cons tree rest induction =>
      rw [parts, List.map_cons, List.map_cons, induction, labelOf, part_named, part_token]

theorem print_include_congr (place : Place) {parts others : List Part}
    (same : pathLabel (parts.map labelOf) = pathLabel (others.map labelOf)) (context : Context) :
    printInclude place parts context = printInclude place others context := by
  have paths : (includedPath parts).map labelOf = (includedPath others).map labelOf := by
    rw [included_path_label, included_path_label, same]
  rw [printInclude, printInclude]
  cases left : includedPath parts with
  | none =>
      rw [left, Option.map_none, eq_comm, Option.map_eq_none_iff] at paths
      rw [paths]
  | some path =>
      rw [left, Option.map_some, eq_comm, Option.map_eq_some_iff] at paths
      obtain ⟨other, right, label⟩ := paths
      have token : other.token = path.token := congrArg Prod.snd label
      simp only [right, token]

/-! ### The line of an item -/

section

open Text

variable {tree : Tree} (shaped : tree.Shaped)

include shaped

theorem header_solid (header : tree.kind.isHeader = true) :
    Solid (String.join ((tree.children.map Tree.cell).map Cell.token)) := by
  obtain ⟨filled, lines⟩ := shaped.header (by rw [header]; rfl)
  apply solid_join (by simpa using filled)
  intro text member
  rw [List.map_map, List.mem_map] at member
  obtain ⟨child, inside, rfl⟩ := member
  exact solid_strip (lines child inside)

theorem include_solid (settings : Settings) (place : Place) (included : tree.kind = .fileInclude) :
    ∃ path, includedPath (inner settings place tree) = some path ∧ Solid path.token := by
  obtain ⟨filled, lines⟩ := shaped.header (by simp [included])
  obtain ⟨path, member, found⟩ := exists_included_path (inner_ne_nil settings place filled)
  obtain ⟨child, inside, spot, rfl⟩ := exists_of_mem_parts _ _ _ member
  refine ⟨_, found, ?_⟩
  rw [Cell.token, part_text]
  exact solid_strip (lines child inside)

theorem statement_word (statement : tree.kind.isStatement = true) :
    IsWord (" ".intercalate (statementWords (tree.children.map Tree.cell))) := by
  obtain ⟨long, once, lines⟩ := shaped.statement statement
  match tree.children, long, once, lines with
  | first :: second :: rest, long, once, lines =>
      apply is_word_statement
      · intro semicolon
        apply once.2
        rw [← semicolon]
        simp [Tree.cell]
      · intro cell member
        rw [← List.map_cons] at member
        obtain ⟨child, inside, rfl⟩ := List.mem_map.mp member
        exact lines child inside

theorem directive_solid (directive : (tree.kind.isDirective && !tree.kind.isConditional) = true)
    (kind : Kind) :
    ∃ head operands, tree.children.map Tree.cell = head :: operands ∧
      Solid (" ".intercalate (directiveKeyword head.text :: directiveOperands kind operands)) := by
  have form := shaped.directive directive
  match tree.children, form with
  | head :: operands, form =>
      rw [Tree.isDirectiveForm, Bool.and_eq_true, decide_eq_true_eq, List.all_eq_true] at form
      have line : OneLine head.cell.text := form.1
      have unbroken : ∀ cell ∈ operands.map Tree.cell, Unbroken cell.text := by
        intro cell member
        obtain ⟨child, inside, rfl⟩ := List.mem_map.mp member
        exact of_decide_eq_true (form.2 child inside)
      refine ⟨head.cell, operands.map Tree.cell, rfl, solid_intercalate (by decide) (by simp) ?_⟩
      exact List.forall_mem_cons.mpr ⟨solid_directive_keyword line, directive_operands_solid kind unbroken⟩

end

end DevicetreeFormat.Printer
