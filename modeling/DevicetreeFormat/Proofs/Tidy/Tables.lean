import DevicetreeFormat.Proofs.Rules

/-!
# The binding tables of a tree

A cell list is printed as a table if it is a value of a `bindings` property in a keymap
and its own rule prints it. Nothing else has a table, so the tables of an item are those
of the children whose rules it calls, in the order in which they are printed.
-/

namespace DevicetreeFormat.Tree

set_option autoImplicit false

/-- The children of a property that are printed by their own rules: those from the equals
sign on. `seenEquals` says that they have begun. -/
def valued (seenEquals : Bool) (children : List Tree) : List Tree :=
  if seenEquals then children else children.dropWhile fun child => child.kind ≠ .equals

/-- The children of a node that are printed by their own rules. The others are tokens
of its header or of its first line, or nothing is printed for them. -/
def printedChildren (kind : Kind) (children : List Tree) : List Tree :=
  match kind with
  | .node => children.dropWhile fun child => child.kind ≠ .leftBrace
  | .property => valued false children
  | .omitIfNoRef | .labeledItem => children.filter fun child => child.kind.isWrappable
  | .ifDirective | .ifdefDirective | .elseBranch | .elifBranch | .elifdefBranch =>
      (children.drop (branchWords kind)).filter fun child => !child.isEndif
  | _ => []

/-- The context of those children. -/
def childContext (kind : Kind) (children : List Tree) (context : Context) : Context :=
  match kind with
  | .node =>
      if Printer.nameAmong children = "keymap" then context.deeper.inKeymap else context.deeper
  | .property =>
      if Printer.nameAmong children = "bindings" then context.deeper.inBindings else context
  | _ => context

theorem child_context_indent_unit (kind : Kind) (children : List Tree) (context : Context) :
    (childContext kind children context).indentUnit = context.indentUnit := by
  unfold childContext
  split
  · split <;> rfl
  · split <;> rfl
  · rfl

theorem child_context_node_bindings (children : List Tree) (context : Context) :
    (childContext .node children context).bindings = context.bindings := by
  simp only [childContext]
  split <;> rfl

theorem printed_children_subset (kind : Kind) (children : List Tree) :
    printedChildren kind children ⊆ children := by
  have later (words : Nat) :
      (children.drop words).filter (fun child => !child.isEndif) ⊆ children :=
    List.Subset.trans List.filter_sublist.subset (List.drop_subset _ _)
  cases kind
  case node | property => exact (List.dropWhile_suffix _).subset
  case omitIfNoRef | labeledItem => exact List.filter_sublist.subset
  case ifDirective | ifdefDirective | elseBranch | elifBranch | elifdefBranch => exact later _
  all_goals exact List.nil_subset _

/-- The binding tables of a tree, in order. -/
def tables (layout : Layout) (context : Context) : Tree → List String
  | branch name _ _ _ _ children =>
      let kind := Kind.ofName name
      if kind = .integerCells then
        if context.alignsBindings then
          (Table.render (children.map cell) layout context).toOption.toList
        else []
      else
        (printedChildren kind children).attach.flatMap fun child =>
          tables layout (childContext kind children context) child.val
  termination_by tree => sizeOf tree
  decreasing_by
    have smaller := List.sizeOf_lt_of_mem (printed_children_subset kind children child.property)
    simp only [branch.sizeOf_spec]
    omega

theorem tables_eq (layout : Layout) (context : Context) (tree : Tree) :
    tree.tables layout context =
      if tree.kind = .integerCells then
        if context.alignsBindings then
          (Table.render (tree.children.map cell) layout context).toOption.toList
        else []
      else
        (printedChildren tree.kind tree.children).flatMap
          (tables layout (childContext tree.kind tree.children context)) := by
  obtain ⟨name, text, named, start, stop, children⟩ := tree
  rw [tables]
  congr 1
  rw [List.flatMap_subtype fun _ _ => rfl, List.unattach_attach]
  rfl

section

variable (layout : Layout) (context : Context) {tree : Tree}

theorem tables_childless {kind : Kind} (known : tree.kind = kind) (other : kind ≠ .integerCells)
    (unprinted : ∀ children, printedChildren kind children = []) : tree.tables layout context = [] := by
  rw [tables_eq, known, if_neg other, unprinted, List.flatMap_nil]

theorem tables_verbatim (verbatim : tree.kind.isVerbatim = true) : tree.tables layout context = [] := by
  generalize known : tree.kind = kind at verbatim
  cases kind <;> cases verbatim <;> exact tables_childless layout context known (by decide) fun _ => rfl

theorem tables_punctuation (mark : tree.kind.isPunctuation = true) : tree.tables layout context = [] := by
  rcases Kind.is_punctuation_iff.mp mark with kind | kind | kind <;>
    exact tables_childless layout context kind (by decide) fun _ => rfl

/-- The equals sign has no tables, so it does not matter that the values begin with it. -/
theorem tables_valued_cons (seenEquals : Bool) (rest : List Tree) :
    (valued seenEquals (tree :: rest)).flatMap (tables layout context) =
      (if seenEquals then tree.tables layout context else []) ++
        (valued (seenEquals || tree.kind = .equals) rest).flatMap (tables layout context) := by
  cases seenEquals with
  | true => rfl
  | false =>
      by_cases equals : tree.kind = .equals
      · have none := tables_punctuation layout context (Kind.is_punctuation_iff.mpr (.inl equals))
        simp [valued, equals, none]
      · simp [valued, equals]

theorem tables_node {header items : List Tree} {opening closing ending : Tree}
    (node : tree.kind = .node) (children : tree.children = header ++ opening :: (items ++ [closing, ending]))
    (tokens : ∀ token ∈ header, token.kind ≠ .leftBrace) (brace : opening.kind = .leftBrace)
    (closes : closing.kind = .rightBrace) (ends : ending.kind = .semicolon) :
    tree.tables layout context =
      items.flatMap (tables layout (childContext .node tree.children context)) := by
  have opened : printedChildren .node tree.children = opening :: (items ++ [closing, ending]) := by
    rw [children]
    change (header ++ opening :: (items ++ [closing, ending])).dropWhile _ = _
    rw [List.dropWhile_append_of_pos (by simpa using tokens),
      List.dropWhile_cons_of_neg (by simp [brace])]
  have mark (inner : Context) {token : Tree}
      (known : token.kind = .leftBrace ∨ token.kind = .rightBrace ∨ token.kind = .semicolon) :
      token.tables layout inner = [] := by
    rcases known with known | known | known <;>
      exact tables_childless layout inner known (by decide) fun _ => rfl
  rw [tables_eq, if_neg (by simp [node]), node, opened]
  simp [mark, brace, closes, ends]

theorem tables_wrapper {tokens : List Tree} {item : Tree} (wrapper : tree.kind.isWrapper = true)
    (children : tree.children = tokens ++ [item])
    (plain : ∀ token ∈ tokens, token.kind.isWrappable = false) (wrapped : item.kind.isWrappable = true) :
    tree.tables layout context = item.tables layout context := by
  have kept : tree.children.filter (fun child => child.kind.isWrappable) = [item] := by
    rw [children, List.filter_append, List.filter_eq_nil_iff.mpr (by simpa using plain)]
    simp [wrapped]
  rw [tables_eq]
  generalize tree.kind = kind at wrapper
  cases kind <;> cases wrapper <;> simp [printedChildren, childContext, kept]

/-- The first words of a branch and its closing keyword hold no tables. -/
theorem tables_branch {words contents closing : List Tree}
    (branching : (tree.kind.isConditional || tree.kind.isBranch) = true)
    (children : tree.children = words ++ (contents ++ closing))
    (count : words.length = branchWords tree.kind)
    (shaped : ∀ child ∈ contents, child.isItem = true ∨ child.kind.isBranch = true)
    (closes : ∀ child ∈ closing, child.isEndif = true) :
    tree.tables layout context = contents.flatMap (tables layout context) := by
  have kept : contents.filter (fun child => !child.isEndif) = contents := by
    rw [List.filter_eq_self]
    intro child member
    rcases shaped child member with item | branch
    · rw [is_item_iff] at item
      simp [isEndif, item.1]
    · simp [isEndif, branch]
  have dropped : closing.filter (fun child => !child.isEndif) = [] := by
    rw [List.filter_eq_nil_iff]
    simpa using closes
  have printed : printedChildren tree.kind tree.children = contents := by
    have later : (tree.children.drop (branchWords tree.kind)).filter (fun child => !child.isEndif) =
        contents := by
      rw [children, ← count, List.drop_left, List.filter_append, kept, dropped, List.append_nil]
    rw [← later]
    generalize tree.kind = kind at branching
    cases kind <;> cases branching <;> rfl
  rw [tables_eq, printed]
  generalize tree.kind = kind at branching
  cases kind <;> cases branching <;> rfl

end

end DevicetreeFormat.Tree
