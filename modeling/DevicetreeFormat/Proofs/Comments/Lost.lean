import DevicetreeFormat.Proofs.Comments.Kept
import DevicetreeFormat.Proofs.Similar

/-!
# Comments that are lost

Two rules leave out comments among their children: an include prints only its path
and a byte string only its digits. A lost comment leaves no trace: the document
without it is printed in the same way.

A document therefore holds all comments of its tree but these, and it shows nothing
of these.
-/

namespace DevicetreeFormat

set_option autoImplicit false

open Text

namespace Reading

def loses : Reading → Bool
  | .path | .digits => true
  | _ => false

theorem treatment_kept {reading : Reading} (kept : reading.loses = false) (tree : Tree) (rest : List Tree) :
    reading.treatment tree rest ≠ some .lost := by
  cases reading <;> cases kept <;> nofun

theorem next_loses (reading : Reading) (tree : Tree) : (reading.next tree).loses = reading.loses := by
  cases reading <;> simp only [next] <;> split <;> rfl

theorem of_kind_branching (branching : Bool) (kind : Kind) :
    (ofKind branching kind).loses = (ofKind false kind).loses := by
  cases branching <;> cases kind <;> rfl

theorem of_kind_loses {kind : Kind} (loses : (ofKind false kind).loses = true) :
    kind = .fileInclude ∨ kind = .byteString := by
  cases kind <;> cases loses <;> decide

end Reading

namespace Tree

mutual

/-- The tree without its lost comments. -/
def pruned : Tree → Tree
  | branch name text named start stop children =>
      branch name text named start stop (prunedIn (Reading.ofKind false (Kind.ofName name)) children)

def prunedIn (reading : Reading) : List Tree → List Tree
  | [] => []
  | tree :: rest =>
      if tree.kind = .comment ∧ reading.treatment tree rest = some .lost then prunedIn reading rest
      else tree.pruned :: prunedIn reading rest

end

/-- A document without its lost comments. -/
def prunedDocument : Tree → Tree
  | branch name text named start stop children =>
      branch name text named start stop (prunedIn (.items false) children)

@[simp] theorem pruned_kind (tree : Tree) : tree.pruned.kind = tree.kind := by
  cases tree
  rfl

@[simp] theorem pruned_named (tree : Tree) : tree.pruned.named = tree.named := by
  cases tree
  rfl

theorem pruned_name (tree : Tree) : tree.pruned.name = tree.name := by
  cases tree
  rfl

@[simp] theorem pruned_text (tree : Tree) : tree.pruned.text = tree.text := by
  cases tree
  rfl

@[simp] theorem pruned_cell (tree : Tree) : tree.pruned.cell = tree.cell := by
  cases tree
  rfl

theorem pruned_children (tree : Tree) :
    tree.pruned.children = prunedIn (Reading.ofKind false tree.kind) tree.children := by
  cases tree
  rfl

theorem pruned_in_kept {reading : Reading} (kept : reading.loses = false) (trees : List Tree) :
    prunedIn reading trees = trees.map pruned := by
  induction trees with
  | nil => rfl
  | cons tree rest induction =>
      have stays : ¬(tree.kind = .comment ∧ reading.treatment tree rest = some .lost) :=
        fun lost => Reading.treatment_kept kept tree rest lost.2
      rw [prunedIn, if_neg stays, induction, List.map_cons]

theorem last_inner_kind_pruned {trees : List Tree}
    (same : ∀ tree ∈ trees, tree.pruned.innerKind = tree.innerKind) (otherwise : Kind) :
    lastInnerKind otherwise (trees.map pruned) = lastInnerKind otherwise trees := by
  induction trees generalizing otherwise with
  | nil => rfl
  | cons tree rest induction =>
      rw [List.map_cons, lastInnerKind, lastInnerKind, same tree (by simp)]
      exact induction (fun other member => same other (by simp [member])) _

/-- A wrapper loses no comment, so it wraps the same item. -/
theorem pruned_inner_kind (tree : Tree) : tree.pruned.innerKind = tree.innerKind := by
  apply spreads.climb _ tree
  intro tree children
  obtain ⟨name, text, named, start, stop, trees⟩ := tree
  rw [pruned, innerKind, innerKind]
  by_cases wrapper : (Kind.ofName name).isWrapper = true
  · have kept : (Reading.ofKind false (Kind.ofName name)).loses = false := by
      rw [Bool.eq_false_iff]
      intro loses
      rcases Reading.of_kind_loses loses with known | known <;> rw [known] at wrapper <;> cases wrapper
    rw [if_pos wrapper, if_pos wrapper, pruned_in_kept kept]
    exact last_inner_kind_pruned children _
  · rw [if_neg wrapper, if_neg wrapper]

/-! ### What is left -/

def kept (remarks : List (Treatment × String)) : List (Treatment × String) :=
  remarks.filter fun remark => remark.1 ≠ .lost

theorem kept_append (first second : List (Treatment × String)) :
    kept (first ++ second) = kept first ++ kept second :=
  List.filter_append _ _

section

variable (reading : Reading) (tree : Tree)

theorem skips_pruned : reading.skips tree.pruned = reading.skips tree := by
  have keyword : tree.pruned.isEndif = tree.isEndif := by
    cases tree
    rfl
  unfold Reading.skips
  split
  · exact keyword
  · rfl

theorem owns_pruned : reading.owns tree.pruned = reading.owns tree := by
  cases reading <;> simp [Reading.owns]

theorem next_pruned : reading.next tree.pruned = reading.next tree := by
  cases reading <;> simp [Reading.next]

end

theorem remarks_in_kept {reading : Reading} (keeps : reading.loses = false) {trees : List Tree}
    (same : ∀ tree ∈ trees, ∀ branching, tree.pruned.remarks branching = kept (tree.remarks branching)) :
    remarksIn reading (trees.map pruned) = kept (remarksIn reading trees) := by
  induction trees generalizing reading with
  | nil => simp [remarksIn, kept]
  | cons tree rest induction =>
      have later := induction (keeps ▸ reading.next_loses tree)
        fun other member => same other (by simp [member])
      -- such a reading treats all comments alike, whatever follows them
      have treatment : reading.treatment tree.pruned (rest.map pruned) = reading.treatment tree rest := by
        cases reading <;> cases keeps <;> rfl
      have stays := Reading.treatment_kept keeps tree rest
      rw [List.map_cons, remarksIn, remarksIn, kept_append, skips_pruned, owns_pruned, next_pruned,
        later, pruned_kind, pruned_text, treatment, same tree (by simp)]
      congr 1
      split
      · rfl
      · split
        · cases known : reading.treatment tree rest with
          | none => rfl
          | some treatment =>
              have present : treatment ≠ .lost := fun lost => stays (by rw [known, lost])
              simp [kept, present]
        · split <;> rfl

theorem pruned_in_unnamed (reading : Reading) {trees : List Tree} (unnamed : trees.any named = false) :
    (prunedIn reading trees).any named = false := by
  induction trees with
  | nil => rfl
  | cons tree rest induction =>
      rw [List.any_cons, Bool.or_eq_false_iff] at unnamed
      rw [prunedIn]
      split
      · exact induction unnamed.2
      · rw [List.any_cons, pruned_named, unnamed.1, induction unnamed.2]
        rfl

/-- Only the path of an include can be a comment that is not lost, and it stays the last named child. -/
theorem treatment_lossy {reading : Reading} (loses : reading.loses = true) (tree : Tree) {rest : List Tree}
    (present : reading.treatment tree rest ≠ some .lost) :
    reading.treatment tree.pruned (prunedIn reading rest) = reading.treatment tree rest := by
  cases reading <;> cases loses
  case path =>
    cases last : tree.named && !rest.any named with
    | false => simp [Reading.treatment, last] at present
    | true =>
        have unnamed : rest.any named = false := by
          rw [Bool.and_eq_true, Bool.not_eq_true'] at last
          exact last.2
        rw [Reading.treatment, Reading.treatment, pruned_named, pruned_in_unnamed .path unnamed, unnamed]
  case digits => exact absurd rfl present

theorem remarks_in_lossy {reading : Reading} (loses : reading.loses = true) (trees : List Tree) :
    remarksIn reading (prunedIn reading trees) = kept (remarksIn reading trees) := by
  have steady : ∀ tree, reading.next tree = reading := by
    intro tree
    cases reading <;> cases loses <;> rfl
  have unread : ∀ tree, reading.skips tree = false ∧ reading.owns tree = false := by
    intro tree
    cases reading <;> cases loses <;> exact ⟨rfl, rfl⟩
  induction trees with
  | nil => simp [prunedIn, remarksIn, kept]
  | cons tree rest induction =>
      rw [prunedIn, remarksIn, kept_append, steady, (unread tree).1, (unread tree).2]
      split
      · next lost =>
          rw [induction, if_neg Bool.false_ne_true, if_pos lost.1, lost.2]
          rfl
      · next stays =>
          rw [remarksIn, steady, (unread tree.pruned).1, (unread tree.pruned).2, induction, pruned_kind,
            pruned_text]
          congr 1
          by_cases comment : tree.kind = .comment
          · have present : reading.treatment tree rest ≠ some .lost := fun lost => stays ⟨comment, lost⟩
            have treatment := treatment_lossy loses tree present
            cases known : reading.treatment tree rest with
            | none => simp [comment, kept, treatment, known]
            | some fate =>
                have printed : fate ≠ .lost := fun lost => present (by rw [known, lost])
                simp [comment, kept, treatment, known, printed]
          · simp [comment, kept]

/-- The remaining comments are the same, and treated the same. -/
theorem remarks_pruned (tree : Tree) :
    ∀ branching, tree.pruned.remarks branching = kept (tree.remarks branching) := by
  apply spreads.climb _ tree
  intro tree children branching
  by_cases comment : tree.kind = .comment
  · rw [remarks_comment branching comment, remarks_comment branching (by rwa [pruned_kind]), pruned_text]
    rfl
  · rw [remarks_node branching comment, remarks_node branching (by rwa [pruned_kind]), pruned_kind,
      pruned_children]
    cases loses : (Reading.ofKind false tree.kind).loses with
    | false =>
        have keeps : (Reading.ofKind branching tree.kind).loses = false := by
          rw [Reading.of_kind_branching, loses]
        rw [pruned_in_kept loses, remarks_in_kept keeps children]
    | true =>
        have same : Reading.ofKind branching tree.kind = Reading.ofKind false tree.kind := by
          rcases Reading.of_kind_loses loses with known | known <;> rw [known] <;> rfl
        rw [same, remarks_in_lossy loses]

/-! ### Includes -/

/-- The last named child of an include is not lost. -/
theorem pruned_last_named (trees : List Tree) :
    (((prunedIn .path trees).map fun tree => (tree.named, tree.token)).filter Prod.fst).getLast? =
      ((trees.map fun tree => (tree.named, tree.token)).filter Prod.fst).getLast? := by
  induction trees with
  | nil => rfl
  | cons tree rest induction =>
      have token : tree.pruned.token = tree.token := congrArg strip tree.pruned_text
      rw [prunedIn]
      split
      · next lost =>
          rw [induction, List.map_cons]
          cases named : tree.named with
          | false => rw [List.filter_cons_of_neg (by simp)]
          | true =>
              -- a named comment is lost only if a named sibling follows
              have later : rest.any Tree.named = true := by
                have treatment := lost.2
                rw [Reading.treatment, named] at treatment
                cases any : rest.any Tree.named with
                | true => rfl
                | false => simp [any] at treatment
              have more : (rest.map fun tree => (tree.named, tree.token)).filter Prod.fst ≠ [] := by
                obtain ⟨other, member, titled⟩ := List.any_eq_true.mp later
                apply List.ne_nil_of_mem (a := (other.named, other.token))
                exact List.mem_filter.mpr ⟨List.mem_map_of_mem member, titled⟩
              rw [List.filter_cons_of_pos (by simp), List.getLast?_cons_of_ne_nil more]
      · rw [List.map_cons, List.map_cons, pruned_named, token, List.filter_cons, List.filter_cons]
        split
        · rw [List.getLast?_cons, List.getLast?_cons, induction]
        · exact induction

theorem pruned_last {trees : List Tree} (trailing : trees.getLast?.map kind ≠ some .comment) :
    ((prunedIn .path trees).map fun tree => (tree.named, tree.token)).getLast? =
      (trees.map fun tree => (tree.named, tree.token)).getLast? := by
  induction trees with
  | nil => rfl
  | cons tree rest induction =>
      have token : tree.pruned.token = tree.token := congrArg strip tree.pruned_text
      cases rest with
      | nil =>
          have code : tree.kind ≠ .comment := by simpa using trailing
          rw [prunedIn, if_neg fun lost => code lost.1, List.map_cons, List.map_cons, pruned_named, token]
          rfl
      | cons next others =>
          have later := induction (by rwa [List.getLast?_cons_cons] at trailing)
          rw [prunedIn]
          split
          · rw [later, List.map_cons, List.map_cons, List.map_cons, List.getLast?_cons_cons]
          · rw [List.map_cons, List.map_cons, pruned_named, token, List.getLast?_cons, List.getLast?_cons, later]

/-! ### Byte strings -/

theorem pruned_in_digits (trees : List Tree) :
    (prunedIn .digits trees).map cell = (trees.map cell).filter fun cell => cell.kind ≠ .comment := by
  induction trees with
  | nil => rfl
  | cons tree rest induction =>
      rw [prunedIn, List.map_cons]
      by_cases comment : tree.kind = .comment
      · rw [if_pos ⟨comment, rfl⟩, induction, List.filter_cons_of_neg (by simp [cell, comment])]
      · rw [if_neg fun lost => comment lost.1, List.map_cons, induction, pruned_cell,
          List.filter_cons_of_pos (by simp [cell, comment])]

end Tree

namespace Printer

theorem byte_digits_pruned (text : String) (cells : List Cell) :
    byteDigits text (cells.filter fun cell => cell.kind ≠ .comment) = byteDigits text cells := by
  have same : (cells.filter fun cell => cell.kind ≠ .comment).filter (fun cell =>
        cell.kind ≠ .leftBracket && cell.kind ≠ .rightBracket && cell.kind ≠ .comment) =
      cells.filter fun cell => cell.kind ≠ .leftBracket && cell.kind ≠ .rightBracket && cell.kind ≠ .comment := by
    rw [List.filter_filter]
    apply List.filter_congr
    intro cell _
    simp [Bool.and_assoc]
  rw [byteDigits, byteDigits, same]

/-! ### Documents -/

section

variable (settings : Settings)

theorem neighbour_pruned (trees : List Tree) : neighbour? (trees.map Tree.pruned) = neighbour? trees := by
  cases trees with
  | nil => rfl
  | cons tree rest =>
      rw [List.map_cons, neighbour?, neighbour?, Tree.pruned_kind, Tree.pruned_named, Tree.pruned_inner_kind]

theorem parts_pruned (kind : Kind) (parent : Place) {trees : List Tree}
    (same : ∀ tree ∈ trees, ∀ place,
      Similar Eq true true (part settings place tree.pruned) (part settings place tree))
    (before : Option Kind) :
    List.Forall₂ (Similar Eq true true) (parts settings kind parent before (trees.map Tree.pruned))
      (parts settings kind parent before trees) := by
  induction trees generalizing before with
  | nil => exact .nil
  | cons tree rest induction =>
      rw [List.map_cons, parts, parts, neighbour_pruned, Tree.pruned_kind]
      exact .cons (same tree (by simp) _) (induction (fun other member => same other (by simp [member])) _)

theorem inner_pruned {tree : Tree} (kept : (Reading.ofKind false tree.kind).loses = false)
    (same : ∀ child ∈ tree.children, ∀ place,
      Similar Eq true true (part settings place child.pruned) (part settings place child)) (place : Place) :
    List.Forall₂ (Similar Eq true true) (inner settings place tree.pruned) (inner settings place tree) := by
  rw [inner, inner, Tree.pruned_kind, Tree.pruned_children, Tree.pruned_in_kept kept]
  exact parts_pruned settings tree.kind place same none

theorem print_include_pruned {tree : Tree} (included : tree.kind = .fileInclude)
    (trailing : tree.children.getLast?.map Tree.kind ≠ some .comment) (place : Place) (context : Context) :
    printInclude place (inner settings place tree.pruned) context =
      printInclude place (inner settings place tree) context := by
  apply print_include_congr
  have children : tree.pruned.children = Tree.prunedIn .path tree.children := by
    rw [Tree.pruned_children, included]
    rfl
  rw [inner, inner, parts_labels, parts_labels, children, pathLabel, pathLabel, Tree.pruned_last_named,
    Tree.pruned_last trailing]

theorem print_bytes_pruned {tree : Tree} (bytes : tree.kind = .byteString) (place : Place) (context : Context) :
    printBytes tree.text ((inner settings place tree.pruned).map Part.toCell) context =
      printBytes tree.text ((inner settings place tree).map Part.toCell) context := by
  have children : tree.pruned.children = Tree.prunedIn .digits tree.children := by
    rw [Tree.pruned_children, bytes]
    rfl
  rw [inner_cells, inner_cells, children, Tree.pruned_in_digits, printBytes, byte_digits_pruned, printBytes]

/-- Nothing that is printed depends on a lost comment. -/
theorem part_pruned {tree : Tree} (interspersed : tree.Everywhere Tree.Interspersed) :
    ∀ place, Similar Eq true true (part settings place tree.pruned) (part settings place tree) := by
  apply Tree.spreads.induction _ interspersed
  intro tree here _ children place
  have similar := fun kept => inner_pruned settings kept children place
  constructor
  case cell => rw [part_cell, part_cell, Tree.pruned_cell]
  case named => rw [part_named, part_named, Tree.pruned_named]
  case after =>
    rw [part_after, part_after]
    exact alike_rel_refl place.after
  case print =>
    intro context flagged
    rw [part_print, part_print, Tree.pruned_kind, Tree.pruned_name, Tree.pruned_text]
    cases loses : (Reading.ofKind false tree.kind).loses with
    | false =>
        apply print_node_of_kind_agree agreement_eq place.alike_refl _ _ _ flagged (fun _ => rfl) fun _ => rfl
        exact similar loses
    | true =>
        rcases Reading.of_kind_loses loses with included | bytes
        · have trailing := here.trailing (by rw [included]; rfl)
          have printed := print_include_pruned settings included trailing place context
          rw [included]
          exact printed
        · have printed := print_bytes_pruned settings bytes place context
          rw [bytes]
          exact printed
  case branch =>
    intro branch context flagged
    rw [part_kind, Tree.pruned_kind] at branch
    have kept : (Reading.ofKind false tree.kind).loses = false := by
      rw [Bool.eq_false_iff]
      intro loses
      rcases Reading.of_kind_loses loses with known | known <;> rw [known] at branch <;> cases branch
    rw [part_print_branch, part_print_branch, Tree.pruned_kind]
    exact print_branch_agree (similar kept) agreement_eq flagged tree.kind

theorem format_tree_pruned {root : Tree}
    (interspersed : ∀ item ∈ root.children, item.Everywhere Tree.Interspersed) :
    formatTree settings root.prunedDocument = formatTree settings root := by
  obtain ⟨name, text, named, start, stop, items⟩ := root
  have similar := parts_pruned settings (Kind.ofName name) {}
    (fun item member => part_pruned settings (interspersed item member)) none
  have commands : documentCommands settings (Tree.prunedDocument (.branch name text named start stop items)) =
      documentCommands settings (.branch name text named start stop items) := by
    rw [Tree.prunedDocument, Tree.pruned_in_kept rfl]
    exact print_agree similar agreement_eq (flagged_true _)
  rw [formatTree, formatTree, commands]

end

/-- **Comments are kept, but for two kinds of nodes.** A document with comments between any
two children of any node is printed. Its text holds, one after the other, all its comments
outside of includes and byte strings: those among items, values and cells in their normal
form, those on the line of a statement, a header, a label or a directive as they stand.
The others leave no trace: without them the document is printed in the same way. -/
theorem format_tree_comments (settings : Settings) (root : Tree)
    (interspersed : ∀ item ∈ root.children, item.Everywhere Tree.Interspersed) :
    (∃ text, (formatTree settings root).outcome = .ok text ∧
      Holds (Tree.shown (Tree.remarksIn (.items false) root.children)) text.toList) ∧
    formatTree settings root.prunedDocument = formatTree settings root ∧
    Tree.remarksIn (.items false) root.prunedDocument.children =
      Tree.kept (Tree.remarksIn (.items false) root.children) := by
  refine ⟨?_, format_tree_pruned settings interspersed, ?_⟩
  · have complete : Complete (documentCommands settings root) := by
      apply document_complete settings
      intro item member
      exact Tree.spreads.mono (fun _ here => here.filled) (interspersed item member)
    obtain ⟨added, written, holds⟩ := (document_shows settings interspersed).adds {}
    refine ⟨_, format_tree_of_complete complete, ?_⟩
    rw [Output.written_empty, List.nil_append, Output.written] at written
    rwa [written]
  · obtain ⟨name, text, named, start, stop, items⟩ := root
    have pruned : (Tree.prunedDocument (.branch name text named start stop items)).children =
        items.map Tree.pruned := Tree.pruned_in_kept rfl items
    rw [pruned]
    exact Tree.remarks_in_kept rfl fun item _ => item.remarks_pruned

/-- Comments behind a node's name, between values, among cells, in a byte string, in a
statement and in an include. -/
def remarkedSample : Tree :=
  .spanning .document
    [.leaf .comment "/* top */",
     .spanning .fileInclude [.leaf .unknown "/include/", .leaf .comment "/* why */", .leaf .stringLiteral "\"a\""],
     .spanning .node
      [.leaf .identifier "n", .leaf .comment "/* name */", .mark .leftBrace,
       .spanning .property
        [.leaf .identifier "p", .mark .equals,
         .spanning .integerCells
          [.mark .leftAngle, .leaf .integerLiteral "1", .leaf .comment "//one", .mark .rightAngle],
         .mark .comma, .leaf .comment "//next",
         .spanning .byteString
          [.mark .leftBracket, .leaf .integerLiteral "00", .leaf .comment "/* byte */", .mark .rightBracket],
         .mark .semicolon],
       .spanning .deleteNode
        [.leaf .unknown "/delete-node/", .leaf .comment "//gone", .leaf .reference "&m", .mark .semicolon],
       .mark .rightBrace, .mark .semicolon]]

theorem format_tree_comments_sample :
    (∀ item ∈ remarkedSample.children, item.Everywhere Tree.Interspersed) ∧
    Tree.shown (Tree.remarksIn (.items false) remarkedSample.children) =
      ["/* top */", "/* name */", "// one", "// next", "//gone"] ∧
    (∃ text, (formatTree padSettings remarkedSample).outcome = .ok text ∧
      Holds (Tree.shown (Tree.remarksIn (.items false) remarkedSample.children)) text.toList) ∧
    formatTree padSettings remarkedSample.prunedDocument = formatTree padSettings remarkedSample ∧
    Tree.remarksIn (.items false) remarkedSample.prunedDocument.children =
      Tree.kept (Tree.remarksIn (.items false) remarkedSample.children) := by
  have commented : ∀ item ∈ remarkedSample.children, item.Everywhere Tree.Commented := by
    decide +kernel
  have interspersed : ∀ item ∈ remarkedSample.children, item.Everywhere Tree.Interspersed :=
    fun item member => Tree.spreads.mono (fun _ => Tree.interspersed_of_commented) (commented item member)
  have shown : Tree.shown (Tree.remarksIn (.items false) remarkedSample.children) =
      ["/* top */", "/* name */", "// one", "// next", "//gone"] := by decide +kernel
  exact ⟨interspersed, shown, format_tree_comments padSettings remarkedSample interspersed⟩

/-- An include with a comment before its path. -/
def explainedInclude : Tree :=
  .spanning .document
    [.spanning .fileInclude
      [.leaf .unknown "/include/", .leaf .comment "/* why */", .leaf .stringLiteral "\"a.dtsi\""]]

/-- The comment of an include is not printed. -/
theorem format_tree_drops_comment :
    (∀ item ∈ explainedInclude.children, item.Everywhere Tree.Commented) ∧
    (formatTree padSettings explainedInclude).outcome = .ok "/include/ \"a.dtsi\"\n" := by
  decide +kernel

end Printer

end DevicetreeFormat
