import DevicetreeFormat.Proofs.Spelling.Items

/-!
# Formatting changes only blanks

In a coherent tree the ink of a node is the ink of its children, so each rule
spells the ink of the node it prints. The walk over the tree puts the rules
together: the text of a document has the ink of its source.
-/

namespace DevicetreeFormat.Printer

set_option autoImplicit false

open Text

/-! ### Rules at coherent nodes -/

section

variable {tree : Tree} (coherent : tree.Coherent) {inner : List Part}
  (cells : inner.map Part.toCell = tree.children.map Tree.cell)
  {keymap bindings : Bool} {context : Context} (admits : Admits keymap bindings context)

include cells

theorem inner_ink : partsInk inner = tree.children.flatMap fun child => Text.ink child.text := by
  have inked := congrArg (List.flatMap fun cell : Cell => Text.ink cell.text) cells
  rw [List.flatMap_map, List.flatMap_map] at inked
  exact inked

theorem inner_ne_nil_iff : inner ≠ [] ↔ tree.children ≠ [] := by
  have lengths := congrArg List.length cells
  rw [List.length_map, List.length_map] at lengths
  rw [← List.length_pos_iff, ← List.length_pos_iff, lengths]

include coherent

theorem covered_ink (filled : tree.children ≠ []) : Text.ink tree.text = partsInk inner := by
  rw [coherent.covered filled, inner_ink cells]

theorem covered_cells_ink (filled : tree.children ≠ []) :
    Text.ink tree.text = (inner.map Part.toCell).flatMap fun cell => Text.ink cell.text := by
  rw [covered_ink coherent cells filled, partsInk, List.flatMap_map]

include admits

theorem header_spells (place : Place) (header : tree.kind.isHeader = true) :
    Spells (printHeader place (inner.map Part.toCell) context) (Text.ink tree.text) := by
  rw [covered_cells_ink coherent cells (coherent.filled (by simp [header]))]
  exact print_header_spells admits.blank place _

theorem statement_spells (statement : tree.kind.isStatement = true)
    (faithful : ∀ part ∈ inner, Faithful keymap bindings part) :
    Spells (printStatement (inner.map Part.toCell) context) (Text.ink tree.text) := by
  have once := coherent.closed (by simp [statement])
  rw [← kinds_of_cells cells] at once
  rw [covered_cells_ink coherent cells (coherent.filled (by simp [statement]))]
  obtain ⟨body, last, rfl, ending, inside⟩ := exists_of_ends_once once
  have mark : Text.ink last.text = [';'] := (faithful last (by simp)).mark ending rfl
  rw [List.map_append, List.map_singleton]
  apply print_statement_spells admits.blank ending _ _ mark
  · intro cell member
    obtain ⟨part, present, rfl⟩ := List.mem_map.mp member
    exact inside part present
  · intro cell member colon
    obtain ⟨part, present, rfl⟩ := List.mem_map.mp member
    exact (faithful part (by simp [present])).mark colon rfl

theorem include_spells (place : Place) (included : tree.kind = .fileInclude)
    (named : inner.map (fun part => part.named) = tree.children.map Tree.named) :
    Spells (printInclude place inner context) (Text.ink tree.text) := by
  obtain ⟨keyword, path, children, word, pathNamed⟩ :=
    Tree.exists_of_is_include_form (coherent.included included)
  have covered := covered_ink coherent cells (by simp [children])
  rw [children, List.map_cons, List.map_singleton] at cells named
  obtain ⟨keywordPart, rest, rfl, keywordCell, others⟩ := List.map_eq_cons_iff.mp cells
  obtain ⟨pathPart, rfl, pathCell⟩ := List.map_eq_singleton_iff.mp others
  have keywordInk : Text.ink keywordPart.text = "/include/".toList := by
    have same : keywordPart.text = keyword.text := congrArg Cell.text keywordCell
    rw [same, ← ink_strip, ← Tree.token, word]
    rfl
  have printed : Spells (printInclude place [keywordPart, pathPart] context) _ :=
    print_include_spells admits.blank place keywordInk (by
      simp only [List.map_cons, List.map_nil, List.cons.injEq, and_true] at named
      rw [named.2, pathNamed])
  rw [covered]
  simpa [partsInk] using printed

theorem wrapper_spells (place : Place) (wrapper : tree.kind.isWrapper = true)
    (faithful : ∀ part ∈ inner, Faithful keymap bindings part) :
    Spells (printWrapper place inner context) (Text.ink tree.text) := by
  rw [covered_ink coherent cells (coherent.filled (by simp [wrapper]))]
  exact print_wrapper_spells admits place faithful

theorem directive_spells (place : Place) (kind : Kind) (directive : tree.kind.isDirective = true) :
    Spells (printDirective place kind (inner.map Part.toCell) context) (Text.ink tree.text) := by
  have filled := coherent.filled (by simp [directive])
  rw [covered_cells_ink coherent cells filled]
  apply print_directive_spells admits.blank place kind
  simpa using (inner_ne_nil_iff cells).mpr filled

theorem cells_spells (layout : Layout) (list : tree.kind = .integerCells)
    (faithful : ∀ part ∈ inner, Faithful keymap bindings part)
    (keeps : keymap = true → bindings = true → Table.Keeps layout (tree.children.map Tree.cell)) :
    Spells (printCells layout (inner.map Part.toCell) context) (Text.ink tree.text) := by
  have enclosed := coherent.cells list
  rw [← kinds_of_cells cells] at enclosed
  rw [← cells] at keeps
  obtain ⟨first, middle, last, rfl, opening, closing, inside⟩ := exists_of_enclosed (by decide) enclosed
  have filled := (inner_ne_nil_iff cells).mp (List.cons_ne_nil _ _)
  have openingInk : Text.ink first.text = ['<'] := (faithful first (by simp)).mark opening rfl
  have closingInk : Text.ink last.text = ['>'] := (faithful last (by simp)).mark closing rfl
  rw [List.map_cons, List.map_append, List.map_singleton] at keeps
  have printed := print_cells_spells admits opening closing (by simpa using inside) keeps
  rw [covered_ink coherent cells filled, List.map_cons, List.map_append, List.map_singleton]
  simpa [partsInk, openingInk, closingInk, List.flatMap_map] using printed

theorem bytes_spells (bytes : tree.kind = .byteString)
    (faithful : ∀ part ∈ inner, Faithful keymap bindings part) :
    Spells (printBytes tree.text (inner.map Part.toCell) context) (Text.ink tree.text) := by
  obtain ⟨enclosed, plain⟩ := coherent.bytes bytes
  rw [← kinds_of_cells cells] at enclosed plain
  obtain ⟨first, middle, last, rfl, opening, closing, inside⟩ := exists_of_enclosed (by decide) enclosed
  have filled := (inner_ne_nil_iff cells).mp (List.cons_ne_nil _ _)
  have openingInk : Text.ink first.text = ['['] := (faithful first (by simp)).mark opening rfl
  have closingInk : Text.ink last.text = [']'] := (faithful last (by simp)).mark closing rfl
  have covered := covered_ink coherent cells filled
  have letters : Text.ink tree.text =
      '[' :: (middle.flatMap fun part => Text.ink part.text) ++ [']'] := by
    rw [covered]
    simp [partsInk, openingInk, closingInk]
  have noComment : ∀ cell ∈ middle.map Part.toCell, cell.kind ≠ .comment := by
    intro cell member comment
    obtain ⟨part, present, rfl⟩ := List.mem_map.mp member
    exact plain (List.mem_map.mpr ⟨part, by simp [present], comment⟩)
  have bare : middle.map Part.toCell = [] → Text.ink tree.text = ['[', ']'] := by
    intro none
    rw [letters, List.map_eq_nil_iff.mp none]
    rfl
  have printed := print_bytes_spells admits.blank opening closing (by simpa using inside) noComment bare
  rw [List.flatMap_map, ← letters] at printed
  rw [List.map_cons, List.map_append, List.map_singleton]
  exact printed

theorem node_spells (place : Place) (node : tree.kind = .node)
    (faithful : ∀ part ∈ inner,
      Faithful (keymap || decide (Part.nameOf inner = "keymap")) bindings part) :
    Spells (printNode place inner context) (Text.ink tree.text) := by
  rw [covered_ink coherent cells (coherent.filled (by simp [node]))]
  exact print_node_spells admits place faithful

theorem property_spells (place : Place) (property : tree.kind = .property)
    (faithful : ∀ part ∈ inner,
      Faithful keymap (bindings || decide (Part.nameOf inner = "bindings")) part) :
    Spells (printProperty place inner context) (Text.ink tree.text) := by
  have once := coherent.closed (by simp [property])
  rw [← kinds_of_cells cells] at once
  rw [covered_ink coherent cells (coherent.filled (by simp [property]))]
  obtain ⟨body, last, rfl, ending, inside⟩ := exists_of_ends_once once
  exact print_property_spells admits place faithful inside ending

theorem conditional_spells (place : Place) (conditional : tree.kind.isConditional = true)
    (endifs : inner.map Part.isEndif = tree.children.map Tree.isEndif)
    (faithful : ∀ part ∈ inner, Faithful keymap bindings part) :
    Spells (printConditional place tree.kind inner context) (Text.ink tree.text) := by
  obtain ⟨long, once⟩ := coherent.conditional conditional
  have lengths := congrArg List.length cells
  rw [List.length_map, List.length_map] at lengths
  rw [covered_ink coherent cells (List.ne_nil_of_length_pos (by omega))]
  rw [← endifs] at once
  obtain ⟨front, last, rfl, closing, others⟩ := exists_of_ends_once once
  rw [List.length_append, List.length_singleton] at lengths
  exact print_conditional_spells admits place conditional (by omega)
    (fun part member => faithful part (by simp [member])) others closing

theorem branch_spells (branch : tree.kind.isBranch = true)
    (endifs : inner.map Part.isEndif = tree.children.map Tree.isEndif)
    (faithful : ∀ part ∈ inner, Faithful keymap bindings part) :
    Spells (printBranch tree.kind inner context) (Text.ink tree.text) := by
  obtain ⟨filled, none⟩ := coherent.branch branch
  rw [covered_ink coherent cells filled]
  apply print_branch_spells admits tree.kind ((inner_ne_nil_iff cells).mpr filled) faithful
  intro part member closing
  rw [← endifs] at none
  exact none (List.mem_map.mpr ⟨part, member, closing⟩)

theorem unhandled_spells (warn : Bool) (name : String)
    (faithful : ∀ part ∈ inner, Faithful keymap bindings part) :
    Spells (printUnhandled warn name (strip tree.text) inner context) (Text.ink tree.text) := by
  apply print_unhandled_spells admits warn name faithful
  intro filled
  exact covered_ink coherent cells ((inner_ne_nil_iff cells).mp filled)

end

/-! ### The walk -/

theorem parts_endif (settings : Settings) (kind : Kind) (parent : Place) (before : Option Kind)
    (trees : List Tree) :
    (parts settings kind parent before trees).map Part.isEndif = trees.map Tree.isEndif := by
  induction trees generalizing before with
  | nil => rfl
  | cons tree rest induction =>
      rw [parts, List.map_cons, List.map_cons, induction, Part.isEndif, part_kind, part_named,
        part_text, Tree.isEndif]

theorem symbol_ink {kind : Kind} (symbol : kind.isSymbol = true) :
    Text.ink kind.grammarName = kind.grammarName.toList := by
  cases kind <;> cases symbol <;> rfl

theorem symbol_spelled {name text : String} {named : Bool} {start stop : Nat} {trees : List Tree}
    (coherent : Tree.Coherent (.branch name text named start stop trees))
    (symbol : (Kind.ofName name).isSymbol = true) :
    Text.ink text = (Kind.ofName name).grammarName.toList := by
  have token : strip text = (Kind.ofName name).grammarName := (coherent.symbol symbol).2
  rw [← symbol_ink symbol, ← token, ink_strip]

theorem print_spells (settings : Settings) (place : Place) {keymap bindings : Bool}
    {name text : String} {named : Bool} {start stop : Nat} {trees : List Tree}
    (coherent : Tree.Coherent (.branch name text named start stop trees))
    (tables : Kind.ofName name = .integerCells → keymap = true → bindings = true →
      Table.Keeps settings.activeLayout (trees.map Tree.cell))
    (children : ∀ part ∈ parts settings (Kind.ofName name) place none trees,
      Faithful (keymap || (Kind.ofName name = .node && nameAmong trees = "keymap"))
        (bindings || (Kind.ofName name = .property && nameAmong trees = "bindings")) part)
    {context : Context} (admits : Admits keymap bindings context) :
    Spells (printNodeOfKind settings place (Kind.ofName name) name text
      (parts settings (Kind.ofName name) place none trees) context) (Text.ink text) := by
  have cells := parts_cells settings (Kind.ofName name) place none trees
  have endifs := parts_endif settings (Kind.ofName name) place none trees
  have nameds := parts_named settings (Kind.ofName name) place none trees
  have nameOf := name_of_parts settings (Kind.ofName name) place none trees
  have marked := symbol_spelled coherent
  have kindOf : (Tree.branch name text named start stop trees).kind = Kind.ofName name := rfl
  -- from here on only what a rule reads of its children counts
  generalize parts settings (Kind.ofName name) place none trees = inner at *
  cases kind : Kind.ofName name <;> rw [kind] at kindOf marked
  case comment => exact print_comment_spells admits.blank place text
  case fileVersion | plugin => exact header_spells coherent cells admits place (by rw [kindOf]; rfl)
  case fileInclude => exact include_spells coherent cells admits place kindOf nameds
  case memoryReservation | deleteNode | deleteProperty =>
    exact statement_spells coherent cells admits (by rw [kindOf]; rfl) (by simpa [kind] using children)
  case omitIfNoRef | labeledItem =>
    exact wrapper_spells coherent cells admits place (by rw [kindOf]; rfl) (by simpa [kind] using children)
  case includeDirective | defineDirective | functionDirective | callDirective =>
    exact directive_spells coherent cells admits place _ (by rw [kindOf]; rfl)
  case ifDirective | ifdefDirective =>
    have printed := conditional_spells coherent cells admits place (by rw [kindOf]; rfl) endifs
      (by simpa [kind] using children)
    rw [kindOf] at printed
    exact printed
  case node =>
    exact node_spells coherent cells admits place kindOf (by simpa [kind, nameOf] using children)
  case property =>
    exact property_spells coherent cells admits place kindOf (by simpa [kind, nameOf] using children)
  case integerCells =>
    exact cells_spells coherent cells admits settings.activeLayout kindOf (by simpa [kind] using children)
      (tables kind)
  case byteString => exact bytes_spells coherent cells admits kindOf (by simpa [kind] using children)
  case rightBrace =>
    have shallower : Text.ink context.shallower.indentation = [] := ink_indentation admits.blank
    have printed : Spells (writes [context.shallower.indentation, "\x7d"]) (Text.ink "\x7d") := by
      simpa [shallower] using spells_writes [context.shallower.indentation, "\x7d"]
    rw [marked rfl, ← symbol_ink rfl]
    exact printed
  case leftBrace => rw [marked rfl]; exact spells_write " \x7b\n"
  case semicolon => rw [marked rfl]; exact spells_write ";\n"
  case comma => rw [marked rfl]; exact spells_write ", "
  case equals => rw [marked rfl]; exact spells_write " = "
  case colon => rw [marked rfl]; exact spells_write ": "
  case document | elseBranch | elifBranch | elifdefBranch | unknown =>
    exact unhandled_spells coherent cells admits settings.warnUnhandled name (by simpa [kind] using children)
  all_goals
    rw [← ink_strip]
    exact spells_write _

mutual

/-- Every node of a coherent tree whose tables fit is faithful in every place. -/
theorem tree_faithful (settings : Settings) :
    ∀ (tree : Tree) (keymap bindings : Bool) (place : Place), tree.Everywhere Tree.Coherent →
      tree.TableLists (Table.Keeps settings.activeLayout) keymap bindings →
      Faithful keymap bindings (part settings place tree)
  | .branch name text named start stop trees, keymap, bindings, place, coherent, tables => by
      have children := trees_faithful settings trees
        (keymap || (Kind.ofName name = .node && nameAmong trees = "keymap"))
        (bindings || (Kind.ofName name = .property && nameAmong trees = "bindings"))
        (Kind.ofName name) place none coherent.2 tables.2
      have here : Tree.Coherent (.branch name text named start stop trees) := coherent.1
      refine ⟨fun context admits => ?_, fun branch context admits => ?_, fun symbol => ?_⟩
      · apply print_spells settings place here _ children admits
        intro list inKeymap inBindings
        exact tables.1 list (by simp [inKeymap]) (by simp [inBindings])
      · -- a branch is neither a node nor a property, so the flags stay as they are
        have plain : Kind.ofName name ≠ .node ∧ Kind.ofName name ≠ .property := by
          constructor <;> intro same <;> rw [part_kind, Tree.kind, Tree.name, same] at branch <;>
            cases branch
        simp only [plain, decide_false, Bool.false_and, Bool.or_false] at children
        exact branch_spells here (parts_cells _ _ _ _ _) admits branch (parts_endif _ _ _ _ _) children
      · exact symbol_spelled here symbol

theorem trees_faithful (settings : Settings) :
    ∀ (trees : List Tree) (keymap bindings : Bool) (kind : Kind) (parent : Place)
      (before : Option Kind), Tree.EverywhereIn Tree.Coherent trees →
      Tree.TableListsIn (Table.Keeps settings.activeLayout) keymap bindings trees →
      ∀ part ∈ parts settings kind parent before trees, Faithful keymap bindings part
  | [], _, _, _, _, _, _, _ => by
      intro part member
      cases member
  | tree :: rest, keymap, bindings, kind, parent, before, coherent, tables => by
      intro part member
      rw [parts, List.mem_cons] at member
      rcases member with rfl | later
      · exact tree_faithful settings tree keymap bindings _ coherent.1 tables.1
      · exact trees_faithful settings rest keymap bindings kind parent (some tree.kind) coherent.2
          tables.2 part later

end

/-- **Formatting changes only blanks.** A document whose nodes are coherent and
whose binding tables fit the active layout is printed, and the printed text has
the ink of the source. -/
theorem format_tree_keeps_ink (settings : Settings) (root : Tree)
    (coherent : root.Everywhere Tree.Coherent)
    (bare : root.children = [] → withoutBlanks root.text = "")
    (tables : root.TableLists (Table.Keeps settings.activeLayout) false false) :
    ∃ text, (formatTree settings root).outcome = .ok text ∧
      withoutBlanks text = withoutBlanks root.text := by
  obtain ⟨name, source, named, start, stop, trees⟩ := root
  have children := trees_faithful settings trees _ _ (Kind.ofName name) {} none coherent.2 tables.2
  have admits : ∀ keymap bindings,
      Admits keymap bindings ({ indentUnit := settings.indentUnit } : Context) := by
    intro keymap bindings
    refine ⟨ink_indent_unit settings.indentUnit_blank, ?_, ?_⟩ <;> intro flag <;> cases flag
  have printed : Spells (documentCommands settings (.branch name source named start stop trees))
      (partsInk (parts settings (Kind.ofName name) {} none trees)) :=
    spells_flatMap fun part member => (children part member).prints _ (admits _ _)
  have covered : Text.ink source = partsInk (parts settings (Kind.ofName name) {} none trees) := by
    by_cases empty : trees = []
    · subst empty
      have blank : withoutBlanks source = "" := bare rfl
      rw [without_blanks_eq, ← String.toList_inj, String.toList_ofList] at blank
      exact blank
    · exact covered_ink coherent.1 (parts_cells _ _ _ _ _) empty
  refine ⟨_, format_tree_of_complete printed.complete, ?_⟩
  have inked := written_after_ink (documentCommands settings (.branch name source named start stop trees)) {}
  rw [printed.spelled, ← covered] at inked
  rw [without_blanks_eq, without_blanks_eq]
  exact congrArg String.ofList inked

/-- Settings for a keyboard of two keys. -/
def pairSettings : Settings where
  layout := "pair"
  indentUnit := "    "
  warnUnhandled := false
  layouts := [("pair", { name := "pair", cells := [true, true], rowCount := 1 })]
  layout_known := rfl
  indentUnit_blank := rfl

/-- A keymap whose table begins with a comment, under a conditional. -/
def keymapSample : Tree :=
  .spanning .document
    [.spanning .ifdefDirective
      [.leaf .unknown "# ifdef", .leaf .identifier " PAIR\n",
       .spanning .node
        [.leaf .identifier "km", .mark .colon, .leaf .identifier " keymap ", .mark .leftBrace,
         .spanning .property
          [.leaf .identifier "bindings", .mark .equals,
           .spanning .integerCells
            [.mark .leftAngle, .leaf .comment "//left\n", .leaf .reference "&kp", .leaf .identifier " A ",
             .leaf .reference "&trans", .mark .rightAngle],
           .leaf .comment "/* pair */", .mark .semicolon],
         .mark .rightBrace, .mark .semicolon],
       .spanning .elseBranch
        [.leaf .unknown "#else\n",
         .spanning .property
          [.leaf .identifier "mac", .mark .equals,
           .spanning .byteString [.mark .leftBracket, .leaf .unknown "0a0b", .mark .rightBracket],
           .mark .semicolon]],
       .branch "#endif" "# endif\n" false 0 0 []]]

theorem format_tree_keeps_ink_keymap :
    keymapSample.Everywhere Tree.Coherent ∧
      keymapSample.TableLists (Table.Keeps pairSettings.activeLayout) false false ∧
      ∃ text, (formatTree pairSettings keymapSample).outcome = .ok text ∧
        withoutBlanks text = withoutBlanks keymapSample.text := by
  have coherent : keymapSample.Everywhere Tree.Coherent := by decide +kernel
  have tables : keymapSample.TableLists (Table.Keeps pairSettings.activeLayout) false false := by
    decide +kernel
  have bare : keymapSample.children = [] → withoutBlanks keymapSample.text = "" := by
    intro childless
    cases childless
  exact ⟨coherent, tables, format_tree_keeps_ink pairSettings keymapSample coherent bare tables⟩

end DevicetreeFormat.Printer
