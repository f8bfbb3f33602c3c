import DevicetreeFormat.Proofs.Rules
import DevicetreeFormat.Proofs.Table

/-!
# Printing completes

A rule fails only where it needs a child that is not there: the keyword of a
directive or a branch, the path of an include. Binding tables never fail, because
the layout gives the grid its shape. So whatever a tree looks like, a failure is
explained by one of its nodes, and a tree whose directives, branches and includes
have children is printed to the end.
-/

namespace DevicetreeFormat

set_option autoImplicit false

namespace Tree

/-- A directive, a branch or an include has children. -/
def Filled (tree : Tree) : Prop :=
  (tree.kind.isDirective || tree.kind.isBranch || tree.kind = .fileInclude) = true → tree.children ≠ []

instance (tree : Tree) : Decidable tree.Filled :=
  inferInstanceAs (Decidable (_ → _))

theorem filled_of_shaped {tree : Tree} (shaped : tree.Shaped) : tree.Filled := by
  intro needy
  rw [Bool.or_eq_true, Bool.or_eq_true, decide_eq_true_eq] at needy
  rintro childless
  rcases needy with (directive | branch) | included
  · by_cases conditional : tree.kind.isConditional = true
    · have closes := (shaped.conditional conditional).1
      simp [childless] at closes
    · have form := shaped.directive (by simp [directive, conditional])
      simp [childless, isDirectiveForm] at form
  · have long := (shaped.branch branch).1
    rw [childless, branchWords] at long
    split at long <;> simp at long
  · exact (shaped.header (by simp [included])).1 childless

/-- What goes wrong where a node of this kind has no children. -/
def Wants (tree : Tree) : Printer.Fault → Prop
  | .childlessDirective => (tree.kind.isDirective || tree.kind.isBranch) = true
  | .childlessInclude => tree.kind = .fileInclude
  | .table _ => False

/-- The faults of a node without children are among the allowed ones. -/
def Excused (allowed : Printer.Fault → Prop) (tree : Tree) : Prop :=
  tree.children = [] → ∀ fault, tree.Wants fault → allowed fault

theorem excused_of_filled {tree : Tree} (filled : tree.Filled) : tree.Excused fun _ => False := by
  intro childless fault wants
  refine filled ?_ childless
  cases fault with
  | childlessDirective =>
      have demanding : (tree.kind.isDirective || tree.kind.isBranch) = true := wants
      rw [demanding, Bool.true_or]
  | childlessInclude =>
      have included : tree.kind = .fileInclude := wants
      simp [included]
  | table fault => exact wants.elim

mutual

/-- The nodes of a tree, each before the nodes below it. -/
def nodes : Tree → List Tree
  | branch name text named start stop children =>
      branch name text named start stop children :: nodesIn children

def nodesIn : List Tree → List Tree
  | [] => []
  | tree :: rest => nodes tree ++ nodesIn rest

end

mutual

theorem everywhere_of_nodes {rule : Tree → Prop} :
    ∀ tree : Tree, (∀ node ∈ tree.nodes, rule node) → tree.Everywhere rule
  | branch name text named start stop children, holds => by
      refine ⟨holds _ (by simp [nodes]), everywhere_in_of_nodes children ?_⟩
      intro node member
      exact holds node (by simp [nodes, member])

theorem everywhere_in_of_nodes {rule : Tree → Prop} :
    ∀ trees : List Tree, (∀ node ∈ nodesIn trees, rule node) → EverywhereIn rule trees
  | [], _ => trivial
  | tree :: rest, holds => by
      constructor
      · apply everywhere_of_nodes tree
        intro node member
        exact holds node (by simp [nodesIn, member])
      · apply everywhere_in_of_nodes rest
        intro node member
        exact holds node (by simp [nodesIn, member])

end

end Tree

namespace Printer

/-- Every failure among the commands is an allowed one. -/
structure FailsOnly (allowed : Fault → Prop) (commands : List Command) : Prop where
  allowed : ∀ fault, .fail fault ∈ commands → allowed fault

theorem complete_of_fails_only {commands : List Command} (none : FailsOnly (fun _ => False) commands) :
    Complete commands := by
  intro command member
  cases command with
  | fail fault => exact (none.allowed fault member).elim
  | write text => rfl
  | separate => rfl
  | space => rfl
  | report message => rfl

/-- A run stops at the first failure among its commands. -/
theorem run_fails {output : Output} {commands : List Command} {fault : Fault}
    (failed : (output.run commands).2 = some fault) : .fail fault ∈ commands := by
  fun_induction Output.run output commands with
  | case1 output => cases failed
  | case2 output text rest induction => exact List.mem_cons_of_mem _ (induction failed)
  | case3 output rest induction => exact List.mem_cons_of_mem _ (induction failed)
  | case4 output rest induction => exact List.mem_cons_of_mem _ (induction failed)
  | case5 output message rest induction => exact List.mem_cons_of_mem _ (induction failed)
  | case6 output first rest =>
      have same : first = fault := by simpa using failed
      simp [same]

section

variable {allowed : Fault → Prop}

theorem fails_only_of_complete {commands : List Command} (complete : Complete commands) :
    FailsOnly allowed commands := by
  constructor
  intro fault member
  have failure := complete (.fail fault) member
  cases failure

theorem fails_only_nil : FailsOnly allowed [] :=
  fails_only_of_complete complete_nil

theorem fails_only_writes (texts : List String) : FailsOnly allowed (writes texts) :=
  fails_only_of_complete (complete_writes texts)

theorem fails_only_write (text : String) : FailsOnly allowed [.write text] :=
  fails_only_writes [text]

theorem fails_only_fail {fault : Fault} (excused : allowed fault) : FailsOnly allowed [.fail fault] := by
  constructor
  intro other member
  have same : other = fault := by simpa using member
  rw [same]
  exact excused

theorem fails_only_append {first second : List Command} (left : FailsOnly allowed first)
    (right : FailsOnly allowed second) : FailsOnly allowed (first ++ second) := by
  constructor
  intro fault member
  rcases List.mem_append.mp member with early | late
  · exact left.allowed fault early
  · exact right.allowed fault late

theorem fails_only_cons {command : Command} {rest : List Command} (first : command.isFailure = false)
    (later : FailsOnly allowed rest) : FailsOnly allowed (command :: rest) :=
  fails_only_append (fails_only_of_complete (complete_cons first complete_nil)) later

theorem fails_only_flatMap {Item : Type} {items : List Item} {print : Item → List Command}
    (each : ∀ item ∈ items, FailsOnly allowed (print item)) :
    FailsOnly allowed (items.flatMap print) := by
  constructor
  intro fault member
  obtain ⟨item, present, printed⟩ := List.mem_flatMap.mp member
  exact (each item present).allowed fault printed

/-! ### Rules -/

theorem fails_only_end_run (place : Place) (similar : Kind → Bool) :
    FailsOnly allowed (endRun place similar) := by
  unfold endRun
  split
  · split
    · exact fails_only_write "\n"
    · exact fails_only_nil
  · exact fails_only_nil

theorem fails_only_before_node (place : Place) : FailsOnly allowed (beforeNode place) := by
  unfold beforeNode
  split
  · split
    · exact fails_only_write "\n"
    · exact fails_only_nil
  · exact fails_only_nil

theorem fails_only_begin_item (place : Place) (context : Context) :
    FailsOnly allowed (beginItem place context) := by
  unfold beginItem
  split
  · exact fails_only_nil
  · exact fails_only_write _

theorem fails_only_print_comment (place : Place) (text : String) (context : Context) :
    FailsOnly allowed (printComment place text context) := by
  apply fails_only_append _ (fails_only_writes _)
  unfold apart
  split
  · split
    · exact fails_only_nil
    · exact fails_only_cons rfl fails_only_nil
  · exact fails_only_nil

theorem fails_only_print_include (place : Place) {parts : List Part}
    (excused : parts = [] → allowed .childlessInclude) (context : Context) :
    FailsOnly allowed (printInclude place parts context) := by
  by_cases childless : parts = []
  · have nothing : printInclude place parts context = [.fail .childlessInclude] := by rw [childless]; rfl
    rw [nothing]
    exact fails_only_fail (excused childless)
  · obtain ⟨path, _, found⟩ := exists_included_path childless
    rw [printInclude, found]
    exact fails_only_append (fails_only_writes _) (fails_only_end_run _ _)

theorem fails_only_print_directive (place : Place) (kind : Kind) {cells : List Cell}
    (excused : cells = [] → allowed .childlessDirective) (context : Context) :
    FailsOnly allowed (printDirective place kind cells context) := by
  cases cells with
  | nil => exact fails_only_fail (excused rfl)
  | cons head rest => exact fails_only_append (fails_only_writes _) (fails_only_end_run _ _)

theorem fails_only_print_cells (layout : Layout) (cells : List Cell) (context : Context) :
    FailsOnly allowed (printCells layout cells context) := by
  unfold printCells
  split
  · rw [Table.render_eq]
    apply fails_only_append _ (fails_only_write _)
    apply fails_only_of_complete
    intro command member
    obtain ⟨message, _, rfl⟩ := List.mem_map.mp member
    rfl
  · exact fails_only_write _

/-- The commands of a part hold only allowed failures, those of a branch too. -/
structure Sound (allowed : Fault → Prop) (part : Part) : Prop where
  print : ∀ context, FailsOnly allowed (part.print context)
  branch : part.kind.isBranch = true → ∀ context, FailsOnly allowed (part.printBranch context)

variable {parts : List Part} (each : ∀ part ∈ parts, Sound allowed part)

include each

theorem fails_only_print_wrapper (place : Place) (context : Context) :
    FailsOnly allowed (printWrapper place parts context) := by
  apply fails_only_append (fails_only_begin_item place context)
  apply fails_only_flatMap
  intro part member
  unfold wrapperChild
  split
  · exact fails_only_write _
  · split
    · exact (each part member).print context
    · exact fails_only_write _

theorem fails_only_node_children (context : Context) : FailsOnly allowed (nodeChildren context parts) := by
  induction parts with
  | nil => exact fails_only_nil
  | cons part rest induction =>
      unfold nodeChildren
      split
      · exact fails_only_flatMap fun child member => (each child member).print context
      · exact fails_only_cons rfl (induction fun other member => each other (by simp [member]))

theorem fails_only_property_children (outer inner : Context) (seenEquals : Bool) :
    FailsOnly allowed (propertyChildren outer inner seenEquals parts) := by
  induction parts generalizing seenEquals with
  | nil => exact fails_only_nil
  | cons part rest induction =>
      have later := fun seen => induction (fun other member => each other (by simp [member])) seen
      have here := (each part (by simp)).print inner
      by_cases ending : part.kind = .semicolon
      · rw [property_children_end ending]
        exact fails_only_nil
      · by_cases comment : part.kind = .comment
        · rw [property_children_comment comment]
          apply fails_only_append _ (later _)
          apply fails_only_cons rfl
          split
          · exact fails_only_writes _
          · apply fails_only_cons rfl
            split
            · exact fails_only_nil
            · split
              · exact fails_only_nil
              · exact fails_only_write _
        · rw [property_children_child ending comment, propertyChild]
          apply fails_only_append _ (later _)
          split
          · exact here
          · exact fails_only_write _

theorem fails_only_print_property (place : Place) (context : Context) :
    FailsOnly allowed (printProperty place parts context) := by
  apply fails_only_append _ (fails_only_before_node place)
  apply fails_only_append _ (fails_only_write _)
  exact fails_only_append (fails_only_begin_item place context) (fails_only_property_children each _ _ _)

theorem fails_only_print_branch (kind : Kind) (excused : parts = [] → allowed .childlessDirective)
    (context : Context) : FailsOnly allowed (printBranch kind parts context) := by
  have child : ∀ part ∈ parts, FailsOnly allowed (branchChild context part) := by
    intro part member
    unfold branchChild
    split
    · next branch => exact (each part member).branch branch context
    · split
      · exact fails_only_nil
      · exact (each part member).print context
  cases parts with
  | nil => exact fails_only_fail (excused rfl)
  | cons head body =>
      unfold printBranch
      apply fails_only_append (fails_only_writes _)
      apply fails_only_flatMap
      intro part member
      apply child
      cases body with
      | nil => cases member
      | cons first rest =>
          by_cases last : kind = .elseBranch
          · simp only [last, if_true] at member
            exact List.mem_cons_of_mem _ member
          · simp only [last, if_false] at member
            exact List.mem_cons_of_mem _ (List.mem_cons_of_mem _ member)

theorem fails_only_print_unhandled (warn : Bool) (name token : String) (context : Context) :
    FailsOnly allowed (printUnhandled warn name token parts context) := by
  apply fails_only_append
  · split
    · exact fails_only_cons rfl fails_only_nil
    · exact fails_only_nil
  · split
    · exact fails_only_write _
    · next first rest =>
        apply fails_only_append ((each first (by simp)).print context)
        exact fails_only_flatMap fun part member => (each part (by simp [member])).print _

end

/-! ### Trees -/

theorem sound_of_children (settings : Settings) {allowed : Fault → Prop} {tree : Tree}
    (excused : tree.Excused allowed)
    (children : ∀ child ∈ tree.children, ∀ place, Sound allowed (part settings place child))
    (place : Place) : Sound allowed (part settings place tree) := by
  have each : ∀ part ∈ inner settings place tree, Sound allowed part := by
    intro member present
    obtain ⟨child, inside, spot, rfl⟩ := exists_of_mem_parts _ _ _ present
    exact children child inside spot
  have empty : inner settings place tree = [] → tree.children = [] := by
    intro nothing
    apply Classical.byContradiction
    intro filled
    exact inner_ne_nil settings place filled nothing
  have directive : (tree.kind.isDirective || tree.kind.isBranch) = true →
      inner settings place tree = [] → allowed .childlessDirective :=
    fun demanding nothing => excused (empty nothing) .childlessDirective demanding
  have included : tree.kind = .fileInclude → inner settings place tree = [] → allowed .childlessInclude :=
    fun path nothing => excused (empty nothing) .childlessInclude path
  constructor
  · intro context
    rw [part_print]
    cases kind : tree.kind <;> rw [kind] at directive included
    case comment => exact fails_only_print_comment place _ context
    case fileVersion | plugin => exact fails_only_append (fails_only_writes _) (fails_only_end_run _ _)
    case fileInclude => exact fails_only_print_include place (included rfl) context
    case memoryReservation | deleteNode | deleteProperty => exact fails_only_writes _
    case omitIfNoRef | labeledItem => exact fails_only_print_wrapper each place context
    case includeDirective | defineDirective | functionDirective | callDirective =>
      exact fails_only_print_directive place _ (fun nothing => directive rfl (by simpa using nothing)) context
    case ifDirective | ifdefDirective =>
      apply fails_only_append _ (fails_only_end_run _ _)
      exact fails_only_append (fails_only_print_branch each _ (directive rfl) context) (fails_only_writes _)
    case node =>
      exact fails_only_append (fails_only_begin_item place context) (fails_only_node_children each _)
    case property => exact fails_only_print_property each place context
    case integerCells => exact fails_only_print_cells _ _ context
    case byteString => exact fails_only_write _
    case document | elseBranch | elifBranch | elifdefBranch | unknown =>
      exact fails_only_print_unhandled each _ _ _ context
    case rightBrace => exact fails_only_writes _
    all_goals exact fails_only_write _
  · intro branch context
    rw [part_kind] at branch
    rw [part_print_branch]
    exact fails_only_print_branch each _ (directive (by simp [branch])) context

theorem tree_sound (settings : Settings) {allowed : Fault → Prop} {tree : Tree}
    (excused : tree.Everywhere (Tree.Excused allowed)) :
    ∀ place, Sound allowed (part settings place tree) := by
  apply Tree.spreads.induction _ excused
  intro tree here _ children
  exact sound_of_children settings here children

theorem document_fails_only (settings : Settings) {allowed : Fault → Prop} {root : Tree}
    (excused : ∀ child ∈ root.children, child.Everywhere (Tree.Excused allowed)) :
    FailsOnly allowed (documentCommands settings root) := by
  apply fails_only_flatMap
  intro member present
  obtain ⟨child, inside, spot, rfl⟩ := exists_of_mem_parts _ _ _ present
  exact (tree_sound settings (excused child inside) spot).print _

/-- A document whose directives, branches and includes have children is printed. -/
theorem document_complete (settings : Settings) {root : Tree}
    (filled : ∀ child ∈ root.children, child.Everywhere Tree.Filled) :
    Complete (documentCommands settings root) := by
  apply complete_of_fails_only
  apply document_fails_only settings
  intro child member
  exact Tree.spreads.mono (fun _ => Tree.excused_of_filled) (filled child member)

/-- **Printing fails only for want of a child.** A document whose directives,
branches and includes have children is printed. In any other document a failure is
that of a directive, a branch or an include without children. No table fails: its
rows have cells, its columns can be measured and its rows can be written. -/
theorem format_tree_faults (settings : Settings) (root : Tree) :
    ((∀ child ∈ root.children, child.Everywhere Tree.Filled) →
      ∃ text, (formatTree settings root).outcome = .ok text) ∧
    (∀ fault, (formatTree settings root).outcome = .error fault →
      ∃ node ∈ Tree.nodesIn root.children, node.children = [] ∧ node.Wants fault) ∧
    ∀ cells indentation, 0 < settings.activeLayout.rowSize ∧
      ∃ widths, Table.columnWidths (Table.gridOf cells settings.activeLayout)
          settings.activeLayout.rowSize = .ok widths ∧
        ∀ row ∈ Table.pieces settings.activeLayout.rowSize (Table.gridOf cells settings.activeLayout),
          ∃ line, Table.formatRow row (widths.map Int.ofNat) indentation = .ok line := by
  refine ⟨?_, ?_, ?_⟩
  · intro filled
    exact ⟨_, format_tree_of_complete (document_complete settings filled)⟩
  · intro fault failed
    -- the faults that some node without children explains
    have only : FailsOnly (fun fault => ∃ node ∈ Tree.nodesIn root.children,
        node.children = [] ∧ node.Wants fault) (documentCommands settings root) := by
      apply document_fails_only
      apply Tree.everywhere_in_iff.mp
      apply Tree.everywhere_in_of_nodes
      intro node member childless fault wants
      exact ⟨node, member, childless, wants⟩
    have stopped : (Output.run {} (documentCommands settings root)).2 = some fault := by
      rw [formatTree] at failed
      split at failed
      · cases failed
      · next output other result =>
          have same : other = fault := by simpa using failed
          rw [result, same]
    exact only.allowed fault (run_fails stopped)
  · intro cells indentation
    have sized := Table.row_size_pos settings.activeLayout
    refine ⟨sized, _, Table.column_widths_eq (Table.row_size_le_grid_of cells settings.activeLayout), ?_⟩
    intro row member
    exact ⟨_, Table.format_row_piece sized member indentation⟩

/-- Settings with a layout of their own: two rows, three keys and a gap. -/
def padSettings : Settings where
  layout := "pad"
  indentUnit := "   "
  warnUnhandled := true
  layouts := [("pad",
    { name := "pad", cells := [true, true, false, true], rowCount := 2, rowCount_pos := Nat.two_pos })]
  layout_known := rfl
  indentUnit_blank := rfl

/-- A keymap with more bindings than keys, behind a directive and a branch that
stands alone. -/
def overfullKeymap : Tree :=
  .spanning .document
    [.spanning .includeDirective [.leaf .unknown "#include", .leaf .systemLibString "<keys.h>"],
     .spanning .elseBranch [.leaf .unknown "#else"],
     .spanning .node
      [.leaf .identifier "keymap", .mark .leftBrace,
       .spanning .property
        [.leaf .identifier "bindings", .mark .equals,
         .spanning .integerCells
          [.mark .leftAngle, .leaf .reference "&a", .leaf .reference "&b", .leaf .reference "&c",
           .leaf .reference "&d", .mark .rightAngle],
         .mark .semicolon],
       .mark .rightBrace, .mark .semicolon]]

/-- An include without a path in the body of a node. -/
def pathlessInclude : Tree :=
  .spanning .document
    [.spanning .node
      [.leaf .identifier "n", .mark .leftBrace, .spanning .fileInclude [], .mark .rightBrace,
       .mark .semicolon]]

theorem format_tree_faults_samples :
    ((∀ child ∈ overfullKeymap.children, child.Everywhere Tree.Filled) ∧
      ∃ text, (formatTree padSettings overfullKeymap).outcome = .ok text) ∧
    ((formatTree padSettings pathlessInclude).outcome = .error .childlessInclude ∧
      ∃ node ∈ Tree.nodesIn pathlessInclude.children, node.children = [] ∧ node.Wants .childlessInclude) := by
  have filled : ∀ child ∈ overfullKeymap.children, child.Everywhere Tree.Filled := by decide +kernel
  have failed : (formatTree padSettings pathlessInclude).outcome = .error .childlessInclude := by
    decide +kernel
  exact ⟨⟨filled, (format_tree_faults padSettings overfullKeymap).1 filled⟩,
    failed, (format_tree_faults padSettings pathlessInclude).2.1 .childlessInclude failed⟩

end Printer

end DevicetreeFormat
