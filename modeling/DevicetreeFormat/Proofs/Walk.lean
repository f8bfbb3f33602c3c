import DevicetreeFormat.Printer.Document
import DevicetreeFormat.Proofs.Everywhere
import DevicetreeFormat.Proofs.Run

/-!
# The walk over a tree

What the walk hands to the rules: each child of a node, in its place, with its
own kind and text. Rules that read only kinds and texts therefore read the
children themselves, and a fact about every part of a list of children follows
from the same fact about each child in any place.

The second half is about the condition that every cell list which may become a
binding table satisfies a condition of its own.
-/

namespace DevicetreeFormat.Printer

set_option autoImplicit false

@[simp] theorem part_kind (settings : Settings) (place : Place) (tree : Tree) :
    (part settings place tree).kind = tree.kind := by
  cases tree
  rfl

@[simp] theorem part_text (settings : Settings) (place : Place) (tree : Tree) :
    (part settings place tree).text = tree.text := by
  cases tree
  rfl

@[simp] theorem part_named (settings : Settings) (place : Place) (tree : Tree) :
    (part settings place tree).named = tree.named := by
  cases tree
  rfl

@[simp] theorem part_after (settings : Settings) (place : Place) (tree : Tree) :
    (part settings place tree).after = place.after := by
  cases tree
  rfl

theorem part_token (settings : Settings) (place : Place) (tree : Tree) :
    (part settings place tree).token = tree.token := by
  rw [Cell.token, part_text, Tree.token]

theorem part_cell (settings : Settings) (place : Place) (tree : Tree) :
    (part settings place tree).toCell = tree.cell := by
  cases tree
  rfl

theorem kinds_of_cells {front : List Part} {trees : List Tree}
    (cells : front.map Part.toCell = trees.map Tree.cell) :
    (front.map fun part => part.kind) = trees.map Tree.kind := by
  have kinds := congrArg (List.map Cell.kind) cells
  rw [List.map_map, List.map_map] at kinds
  exact kinds

section

variable (settings : Settings) (kind : Kind) (parent : Place)

theorem parts_cells (before : Option Kind) (trees : List Tree) :
    (parts settings kind parent before trees).map Part.toCell = trees.map Tree.cell := by
  induction trees generalizing before with
  | nil => rfl
  | cons tree rest induction => rw [parts, List.map_cons, List.map_cons, part_cell, induction]

theorem parts_length (before : Option Kind) (trees : List Tree) :
    (parts settings kind parent before trees).length = trees.length := by
  have cells := congrArg List.length (parts_cells settings kind parent before trees)
  simpa using cells

theorem parts_named (before : Option Kind) (trees : List Tree) :
    (parts settings kind parent before trees).map (fun part => part.named) = trees.map Tree.named := by
  induction trees generalizing before with
  | nil => rfl
  | cons tree rest induction => rw [parts, List.map_cons, List.map_cons, part_named, induction]

/-- The last part of a list of children has nothing after it. -/
theorem exists_parts_concat (before : Option Kind) (trees : List Tree) (last : Tree) :
    ∃ front earlier, parts settings kind parent before (trees ++ [last]) =
      front ++ [part settings (childPlace kind parent earlier none) last] ∧
        front.map Part.toCell = trees.map Tree.cell := by
  induction trees generalizing before with
  | nil => exact ⟨[], before, rfl, rfl⟩
  | cons tree rest induction =>
      obtain ⟨front, earlier, split, cells⟩ := induction (some tree.kind)
      rw [List.cons_append, parts, split]
      exact ⟨_ :: front, earlier, rfl, by rw [List.map_cons, List.map_cons, cells, part_cell]⟩

/-- Every part of a list of children is one of the children in some place. -/
theorem exists_of_mem_parts {before : Option Kind} {trees : List Tree} {member : Part}
    (present : member ∈ parts settings kind parent before trees) :
    ∃ tree ∈ trees, ∃ place, member = part settings place tree := by
  induction trees generalizing before with
  | nil => cases present
  | cons tree rest induction =>
      rw [parts, List.mem_cons] at present
      rcases present with rfl | later
      · exact ⟨tree, by simp, _, rfl⟩
      · obtain ⟨other, inside, place, same⟩ := induction later
        exact ⟨other, List.mem_cons_of_mem _ inside, place, same⟩

end

/-- A document whose commands hold no failure is printed. -/
theorem format_tree_of_complete {settings : Settings} {root : Tree}
    (complete : Complete (documentCommands settings root)) :
    (formatTree settings root).outcome =
      .ok (({} : Output).after (documentCommands settings root)).text := by
  rw [formatTree, Output.run_of_complete complete]

/-- The name of a node or property with the given children: its first token
that is neither punctuation nor a label. -/
def nameAmong : List Tree → String
  | [] => ""
  | tree :: rest =>
      match tree.kind with
      | .colon | .leftBrace | .equals | .semicolon => nameAmong rest
      | _ => if (rest.head?.map Tree.kind) = some .colon then nameAmong rest else tree.token

theorem before_colon_part (settings : Settings) (kind : Kind) (parent : Place)
    (before : Option Kind) (tree : Tree) (rest : List Tree) :
    (part settings (childPlace kind parent before (neighbour? rest)) tree).beforeColon =
      decide ((rest.head?.map Tree.kind) = some .colon) := by
  rw [Part.beforeColon, part_after]
  cases rest with
  | nil => rfl
  | cons next later => simp [childPlace, neighbour?]

theorem name_of_parts (settings : Settings) (kind : Kind) (parent : Place)
    (before : Option Kind) (trees : List Tree) :
    Part.nameOf (parts settings kind parent before trees) = nameAmong trees := by
  induction trees generalizing before with
  | nil => rfl
  | cons tree rest induction =>
      rw [parts, Part.nameOf, nameAmong, before_colon_part, part_kind]
      cases tree.kind <;> simp only [induction, part_token, decide_eq_true_eq]

end DevicetreeFormat.Printer

namespace DevicetreeFormat

set_option autoImplicit false

/-! ### Building trees -/

theorem Kind.of_name_grammar_name (kind : Kind) : Kind.ofName kind.grammarName = kind := by
  cases kind <;> rfl

namespace Tree

def leaf (kind : Kind) (text : String) : Tree :=
  branch kind.grammarName text true 0 0 []

def mark (kind : Kind) : Tree :=
  branch kind.grammarName kind.grammarName false 0 0 []

/-- A named node whose text is that of its children. -/
def spanning (kind : Kind) (children : List Tree) : Tree :=
  branch kind.grammarName (String.join (children.map text)) true 0 0 children

@[simp] theorem leaf_kind (kind : Kind) (text : String) : (leaf kind text).kind = kind :=
  kind.of_name_grammar_name

@[simp] theorem mark_kind (kind : Kind) : (mark kind).kind = kind :=
  kind.of_name_grammar_name

@[simp] theorem spanning_kind (kind : Kind) (children : List Tree) : (spanning kind children).kind = kind :=
  kind.of_name_grammar_name

@[simp] theorem spanning_children (kind : Kind) (children : List Tree) :
    (spanning kind children).children = children := rfl

/-! ### Conditions on trees -/

mutual

/-- Every cell list that lies below a node named `keymap` and below a property
named `bindings` satisfies `condition`. The flags say whether such a node and
such a property lie above the tree. -/
def TableLists (condition : List Cell → Prop) (keymap bindings : Bool) : Tree → Prop
  | branch name _ _ _ _ children =>
      let kind := Kind.ofName name
      let keymap := keymap || (kind = .node && Printer.nameAmong children = "keymap")
      let bindings := bindings || (kind = .property && Printer.nameAmong children = "bindings")
      (kind = .integerCells → keymap = true → bindings = true → condition (children.map cell)) ∧
        TableListsIn condition keymap bindings children

def TableListsIn (condition : List Cell → Prop) (keymap bindings : Bool) : List Tree → Prop
  | [] => True
  | tree :: rest =>
      TableLists condition keymap bindings tree ∧ TableListsIn condition keymap bindings rest

end

mutual

instance decideTableLists (condition : List Cell → Prop) [DecidablePred condition]
    (keymap bindings : Bool) : (tree : Tree) → Decidable (TableLists condition keymap bindings tree)
  | branch name _ _ _ _ children =>
      have := decideTableListsIn condition
        (keymap || (Kind.ofName name = .node && Printer.nameAmong children = "keymap"))
        (bindings || (Kind.ofName name = .property && Printer.nameAmong children = "bindings")) children
      inferInstanceAs (Decidable ((_ → _ → _ → condition (children.map cell)) ∧ _))

instance decideTableListsIn (condition : List Cell → Prop) [DecidablePred condition]
    (keymap bindings : Bool) :
    (trees : List Tree) → Decidable (TableListsIn condition keymap bindings trees)
  | [] => inferInstanceAs (Decidable True)
  | tree :: rest =>
      have := decideTableLists condition keymap bindings tree
      have := decideTableListsIn condition keymap bindings rest
      inferInstanceAs (Decidable (_ ∧ _))

end

end Tree

end DevicetreeFormat
