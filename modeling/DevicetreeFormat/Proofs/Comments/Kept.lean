import DevicetreeFormat.Proofs.Comments.Remarks
import DevicetreeFormat.Proofs.Comments.Walk

/-!
# Comments that are kept

Every rule prints the comments that its reading of the children lets through, in
order. By induction over the tree a document holds all comments of its tree but the
lost ones.
-/

namespace DevicetreeFormat

set_option autoImplicit false

open Text

namespace Tree

/-- A node as the grammar builds it, with comments between its children. Nothing is
asked of the texts. -/
structure Interspersed (tree : Tree) : Prop where
  filled : tree.Filled
  leading : tree.children.head?.map kind ≠ some .comment
  trailing : tree.kind.isBranch = false → tree.children.getLast?.map kind ≠ some .comment
  /-- A semicolon is the end of a statement or property. -/
  ended : (tree.kind.isStatement || tree.kind = .property) = true →
    ∀ child ∈ tree.children.dropLast, child.kind ≠ .semicolon

theorem code_kind {trees : List Tree} {kind : Kind} (code : kind ≠ .comment)
    (absent : ∀ tree ∈ trees.filter isCode, tree.kind ≠ kind) : ∀ tree ∈ trees, tree.kind ≠ kind := by
  intro tree member same
  apply absent tree (List.mem_filter.mpr ⟨member, is_code_of_kind ?_⟩) same
  rw [same]
  exact code

/-- The grammar's nodes with one-line comments between their children are such nodes. -/
theorem interspersed_of_commented {tree : Tree} (commented : tree.Commented) : tree.Interspersed := by
  refine ⟨filled_of_commented commented, commented.leading, commented.trailing, ?_⟩
  intro ends
  rcases List.eq_nil_or_concat tree.children with none | ⟨front, last, shape⟩
  · rw [none]
    simp
  rw [List.concat_eq_append] at shape
  have branch : tree.kind.isBranch = false := by
    cases known : tree.kind <;> rw [known] at ends <;> cases ends <;> rfl
  have code : last.kind ≠ .comment := by
    have trailing := commented.trailing branch
    rw [shape, List.getLast?_concat] at trailing
    simpa using trailing
  have plain : tree.plain.children = front.filter isCode ++ [last] := by
    rw [plain_children, shape, List.filter_append, List.filter_cons_of_pos (is_code_of_kind code)]
    rfl
  rw [shape, List.dropLast_concat]
  apply code_kind (by decide)
  rw [Bool.or_eq_true, decide_eq_true_eq] at ends
  rcases ends with statement | property
  · obtain ⟨_, once, _⟩ := commented.shaped.statement (by rwa [plain_kind])
    intro child member same
    apply once.2
    rw [plain, List.map_append, List.map_singleton, List.dropLast_concat, ← same]
    exact List.mem_map_of_mem member
  · have form := (commented.shaped.property (by rwa [plain_kind])).2
    rw [plain] at form
    exact is_property_form_unended form (by simp)

end Tree

namespace Printer

/-- A tree whose comments are shown wherever it is printed, also as a branch. -/
structure Preserved (settings : Settings) (tree : Tree) : Prop where
  print : ∀ place context,
    Shows (Tree.shown (tree.remarks false)) ((part settings place tree).print context)
  branch : tree.kind.isBranch = true → ∀ place context,
    Shows (Tree.shown (tree.remarks true)) ((part settings place tree).printBranch context)

/-! ### Rules with a body -/

theorem shows_space {texts : List String} {commands : List Command} (shows : Shows texts commands) :
    Shows texts (.space :: commands) :=
  shows.behind [.space]

theorem inline_comment_shows (context : Context) (part : Part) :
    Shows [normalComment part.text] (inlineComment part context) := by
  have text := shows_write (holds_self (normalComment part.text))
  rw [inlineComment]
  apply shows_space
  split
  · exact text.before (writes ["\n", context.deeper.indentation])
  · exact text.before _

section

variable {settings : Settings} (kind : Kind) (place : Place) (context : Context) {trees : List Tree}
  (preserved : ∀ tree ∈ trees, Preserved settings tree) (before : Option Kind)

include preserved

theorem items_show : Shows (Tree.shown (Tree.remarksIn (.items false) trees))
    ((parts settings kind place before trees).flatMap fun child => child.print context) := by
  induction trees generalizing before with
  | nil => exact shows_nothing _
  | cons tree rest induction =>
      rw [Tree.shown_items, parts, List.flatMap_cons]
      exact shows_append ((preserved tree (by simp)).print _ context)
        (induction (fun other member => preserved other (by simp [member])) _)

theorem node_children_show : Shows (Tree.shown (Tree.remarksIn .header trees))
    (nodeChildren context (parts settings kind place before trees)) := by
  induction trees generalizing before with
  | nil => exact shows_nothing _
  | cons tree rest induction =>
      have others : ∀ other ∈ rest, Preserved settings other :=
        fun other member => preserved other (by simp [member])
      rw [Tree.shown_header, parts, nodeChildren, part_kind, part_token]
      by_cases brace : tree.kind = .leftBrace
      · rw [if_pos brace, if_pos brace, if_neg (by rw [brace]; decide), List.flatMap_cons]
        exact (items_show kind place context others _).behind _
      · rw [if_neg brace, if_neg brace]
        apply shows_cons _ (induction others _)
        by_cases comment : tree.kind = .comment
        · rw [if_pos comment, if_neg (by rw [comment]; decide)]
          exact shows_write (holds_self tree.token)
        · rw [if_neg comment]
          exact shows_nothing _

theorem wrapper_children_show : Shows (Tree.shown (Tree.remarksIn .wrapper trees))
    ((parts settings kind place before trees).flatMap (wrapperChild context)) := by
  induction trees generalizing before with
  | nil => exact shows_nothing _
  | cons tree rest induction =>
      rw [Tree.shown_wrapper, parts, List.flatMap_cons]
      apply shows_append _ (induction (fun other member => preserved other (by simp [member])) _)
      by_cases comment : tree.kind = .comment
      · rw [if_pos comment, wrapperChild, part_kind, comment, part_token]
        apply shows_write
        split
        · exact holds_self tree.token
        · rw [String.toList_append]
          exact (holds_self tree.token).before _
      · rw [if_neg comment]
        split
        · next wrappable =>
            rw [wrapper_child_item settings context wrappable]
            exact (preserved tree (by simp)).print _ context
        · exact shows_nothing _

theorem print_unhandled_shows (warn : Bool) (name token : String) :
    Shows (Tree.shown (Tree.remarksIn (.items false) trees))
      (printUnhandled warn name token (parts settings kind place before trees) context) := by
  unfold printUnhandled
  apply Shows.behind
  cases trees with
  | nil => exact shows_nothing _
  | cons tree rest =>
      rw [Tree.shown_items]
      exact shows_append ((preserved tree (by simp)).print _ context)
        (items_show kind place context.deeper (fun other member => preserved other (by simp [member])) _)

theorem property_children_show (outer inner : Context) (seenEquals : Bool)
    (unended : ∀ tree ∈ trees.dropLast, tree.kind ≠ .semicolon) :
    Shows (Tree.shown (Tree.remarksIn (Tree.propertyReading seenEquals) trees))
      (propertyChildren outer inner seenEquals (parts settings kind place before trees)) := by
  induction trees generalizing before seenEquals with
  | nil =>
      have nothing : Tree.remarksIn (Tree.propertyReading seenEquals) [] = [] := by rw [Tree.remarksIn]
      rw [nothing]
      exact shows_nothing _
  | cons tree rest induction =>
      have others : ∀ other ∈ rest, Preserved settings other :=
        fun other member => preserved other (by simp [member])
      have printed := (preserved tree (by simp)).print (childPlace kind place before (neighbour? rest)) inner
      have own : Shows (if seenEquals = true then Tree.shown (tree.remarks false) else [])
          (propertyChild inner seenEquals
            (part settings (childPlace kind place before (neighbour? rest)) tree)) := by
        cases seenEquals with
        | true => exact printed
        | false => exact shows_nothing _
      have later : ∀ seen, Shows
          (Tree.shown (Tree.remarksIn (Tree.propertyReading seen) rest))
          (propertyChildren outer inner seen (parts settings kind place (some tree.kind) rest)) := by
        intro seen
        apply induction others
        intro other member
        apply unended other
        cases rest with
        | nil => cases member
        | cons next more => exact List.mem_cons_of_mem _ member
      have remarks := Tree.shown_property seenEquals tree rest
      rw [parts, remarks]
      by_cases semicolon : tree.kind = .semicolon
      · -- the semicolon is the last child, and no comment is below it
        have last : rest = [] := by
          cases rest with
          | nil => rfl
          | cons next more => exact absurd semicolon (unended tree (by simp))
        have code : tree.kind ≠ .comment := by rw [semicolon]; decide
        have bare : Tree.shown (tree.remarks false) = [] := Tree.shown_token (by rw [semicolon]; rfl) code
        rw [if_neg code, bare, last, Tree.remarksIn, ite_self]
        exact shows_nothing _
      · by_cases comment : tree.kind = .comment
        · have text : (part settings (childPlace kind place before (neighbour? rest)) tree).text =
              tree.text := part_text _ _ _
          have unseen : (seenEquals || decide (tree.kind = .equals)) = seenEquals := by simp [comment]
          rw [if_pos comment, unseen, property_children_comment (by rw [part_kind, comment]), ← text]
          exact shows_append (inline_comment_shows outer _) (later seenEquals)
        · rw [if_neg comment, property_children_child (by rwa [part_kind]) (by rwa [part_kind]), part_kind]
          exact shows_append own (later _)

omit preserved in
theorem branch_child_shows {tree : Tree} (preserved : Preserved settings tree) :
    Shows (if tree.isEndif then [] else Tree.shown (tree.remarks true))
      (branchChild context (part settings place tree)) := by
  by_cases branch : tree.kind.isBranch = true
  · have continues : tree.isEndif = false := by simp [Tree.isEndif, branch]
    rw [branchChild, part_kind, if_pos branch, continues]
    exact preserved.branch branch place context
  · have plain : tree.kind.isBranch = false := Bool.eq_false_iff.mpr branch
    have same : tree.remarks true = tree.remarks false := by
      by_cases comment : tree.kind = .comment
      · rw [Tree.remarks_comment true comment, Tree.remarks_comment false comment]
      · rw [Tree.remarks_node true comment, Tree.remarks_node false comment, Reading.of_kind_plain plain]
    rw [same]
    split
    · exact shows_nothing _
    · next continues =>
        have printed : branchChild context (part settings place tree) =
            (part settings place tree).print context := by
          simp only [Tree.isEndif, plain] at continues
          rw [branchChild, part_kind, if_neg branch, part_named, part_text, if_neg (by simpa using continues)]
        rw [printed]
        exact preserved.print place context

theorem branch_children_show : Shows (Tree.shown (Tree.remarksIn (.items true) trees))
    ((parts settings kind place before trees).flatMap (branchChild context)) := by
  induction trees generalizing before with
  | nil => exact shows_nothing _
  | cons tree rest induction =>
      rw [Tree.shown_items, parts, List.flatMap_cons]
      exact shows_append (branch_child_shows _ context (preserved tree (by simp)))
        (induction (fun other member => preserved other (by simp [member])) _)

/-- The keyword of a branch is not a comment; its condition may be one. -/
theorem print_branch_shows (leading : trees.head?.map Tree.kind ≠ some .comment) :
    Shows (Tree.shown (Tree.remarksIn (.line (Tree.branchWords kind)) trees))
      (printBranch kind (parts settings kind place before trees) context) := by
  cases trees with
  | nil =>
      rw [Tree.remarksIn]
      exact shows_nothing _
  | cons head rest =>
      have code : head.kind ≠ .comment := by simpa using leading
      have others : ∀ other ∈ rest, Preserved settings other :=
        fun other member => preserved other (by simp [member])
      rw [Tree.shown_line, if_neg code, List.nil_append, parts]
      by_cases last : kind = .elseBranch
      · rw [if_pos (by simp [Tree.branchWords, last]), last, print_branch_else]
        exact (branch_children_show _ place context others _).behind _
      · rw [if_neg (by simp [Tree.branchWords, last])]
        cases rest with
        | nil =>
            rw [Tree.remarksIn]
            exact shows_nothing _
        | cons condition items =>
            have words : Tree.branchWords kind - 1 ≤ 1 := by simp [Tree.branchWords, last]
            rw [Tree.shown_line, if_pos words, parts, print_branch_condition last, part_token]
            apply shows_append _
              (branch_children_show kind place context (fun other member => others other (by simp [member])) _)
            split
            · exact ((shows_write (holds_self condition.token)).behind
                (writes [context.indentation, _, " "])).before [.write "\n"]
            · exact shows_nothing _

end

/-! ### Trees -/

theorem print_include_shows (settings : Settings) (kind : Kind) (parent place : Place) (trees : List Tree)
    (context : Context) :
    Shows (Tree.shown (Tree.remarksIn .path trees))
      (printInclude place (parts settings kind parent none trees) context) := by
  rw [Tree.shown_path]
  cases chosen : (trees.filter Tree.named).getLast?.filter fun tree => tree.kind = .comment with
  | none => exact shows_nothing _
  | some note =>
      have last : (trees.filter Tree.named).getLast? = some note := (Option.filter_eq_some_iff.mp chosen).1
      have label : (includedPath (parts settings kind parent none trees)).map labelOf =
          some (note.named, note.token) := by
        rw [included_path_label, parts_labels, pathLabel, List.filter_map, List.getLast?_map]
        have named : trees.filter (Prod.fst ∘ fun tree => (tree.named, tree.token)) =
            trees.filter Tree.named := rfl
        rw [named, last]
        rfl
      obtain ⟨path, found, same⟩ := Option.map_eq_some_iff.mp label
      have token : path.token = note.token := congrArg Prod.snd same
      rw [printInclude, found]
      apply Shows.before
      rw [token]
      exact ((shows_write (holds_self note.token)).behind
        (writes [context.indentation, "/include/ "])).before [.write "\n"]

theorem statement_shows {trees : List Tree} (ended : ∀ tree ∈ trees.dropLast, tree.kind ≠ .semicolon)
    (context : Context) :
    Shows (Tree.shown (Tree.remarksIn .words trees)) (printStatement (trees.map Tree.cell) context) := by
  rw [Tree.shown_words]
  apply print_statement_shows
  rw [← List.map_dropLast]
  intro cell member
  obtain ⟨tree, inside, rfl⟩ := List.mem_map.mp member
  exact ended tree inside

theorem directive_shows {trees : List Tree} (filled : trees ≠ [])
    (leading : trees.head?.map Tree.kind ≠ some .comment) (place : Place) (kind : Kind) (context : Context) :
    Shows (Tree.shown (Tree.remarksIn .words trees))
      (printDirective place kind (trees.map Tree.cell) context) := by
  obtain ⟨head, rest, rfl⟩ := List.exists_cons_of_ne_nil filled
  have keyword : head.kind ≠ .comment := by simpa using leading
  have code : ¬head.cell.isComment = true := fun comment => keyword (of_decide_eq_true comment)
  rw [Tree.shown_words, List.map_cons, List.filter_cons_of_neg code]
  exact print_directive_shows place kind head.cell (rest.map Tree.cell) context

theorem preserved_of_children (settings : Settings) {tree : Tree} (interspersed : tree.Interspersed)
    (children : ∀ child ∈ tree.children, Preserved settings child) : Preserved settings tree := by
  have leading := interspersed.leading
  constructor
  case branch =>
    intro branch place context
    have code : tree.kind ≠ .comment := by
      intro comment
      rw [comment] at branch
      cases branch
    rw [Tree.remarks_node true code, Reading.of_kind_branch branch, part_print_branch]
    exact print_branch_shows tree.kind place context children none leading
  case print =>
    intro place context
    have filled := interspersed.filled
    have ended := interspersed.ended
    have cells : (inner settings place tree).map Part.toCell = tree.children.map Tree.cell :=
      inner_cells settings place
    by_cases comment : tree.kind = .comment
    · rw [Tree.remarks_comment false comment, print_comment _ _ _ comment]
      exact print_comment_shows place tree.text context
    have conditional : Shows (Tree.shown (Tree.remarksIn (.line (Tree.branchWords tree.kind)) tree.children))
        (printBranch tree.kind (inner settings place tree) context) :=
      print_branch_shows tree.kind place context children none leading
    rw [Tree.remarks_node false comment, part_print]
    cases kind : tree.kind <;> rw [kind] at comment ended conditional
    case comment => exact absurd rfl comment
    case fileVersion | plugin =>
      have printed := print_header_shows place (tree.children.map Tree.cell) context
      rw [← Tree.shown_words, ← cells] at printed
      exact printed
    case memoryReservation | deleteNode | deleteProperty =>
      have printed := statement_shows (ended rfl) context
      rw [← cells] at printed
      exact printed
    case fileInclude => exact print_include_shows settings _ place place tree.children context
    case omitIfNoRef | labeledItem =>
      exact (wrapper_children_show tree.kind place context children none).behind _
    case includeDirective | defineDirective | functionDirective | callDirective =>
      have printed := directive_shows (filled (by rw [kind]; rfl)) leading place tree.kind context
      rw [← cells, kind] at printed
      exact printed
    case ifDirective | ifdefDirective => exact (conditional.before _).before _
    case node => exact (node_children_show tree.kind place _ children none).behind _
    case property =>
      exact (((property_children_show tree.kind place children none context _ false (ended rfl)).behind _).before
        _).before _
    case integerCells =>
      have printed := print_cells_shows settings.activeLayout (tree.children.map Tree.cell) context
      rw [← Tree.shown_cells, ← cells] at printed
      exact printed
    case byteString => exact shows_of_nil (Tree.shown_digits tree.children) _
    case document | elseBranch | elifBranch | elifdefBranch | unknown =>
      exact print_unhandled_shows tree.kind place context children none _ _ _
    all_goals exact shows_of_nil (Tree.shown_text tree.children) _

/-- The comments of a tree are printed wherever it stands. -/
theorem tree_preserved (settings : Settings) {tree : Tree} (interspersed : tree.Everywhere Tree.Interspersed) :
    Preserved settings tree := by
  apply Tree.spreads.induction _ interspersed
  intro tree here _ children
  exact preserved_of_children settings here children

theorem document_shows (settings : Settings) {root : Tree}
    (interspersed : ∀ item ∈ root.children, item.Everywhere Tree.Interspersed) :
    Shows (Tree.shown (Tree.remarksIn (.items false) root.children)) (documentCommands settings root) :=
  items_show root.kind _ _ (fun item member => tree_preserved settings (interspersed item member)) none

end Printer

end DevicetreeFormat
