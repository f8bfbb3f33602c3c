import DevicetreeFormat.Proofs.Shift.Lines

/-!
# Items at two depths

An item of a tree that follows the grammar is printed on lines of its own, so at
another depth it is printed with another margin. Wrappers, nodes, properties and
conditionals print their children, and the walk over the tree puts the rules
together.
-/

namespace DevicetreeFormat.Printer

set_option autoImplicit false

open Text

variable {margin front : List Char} {near far : Context}

/-! ### Wrappers and nodes -/

theorem carries_from_line {place : Place} {kind : Kind} {after : List Char → List Char → Prop}
    {left right : List Command} (unwrapped : place.wrapped = false)
    (carries : Carries (entry margin front place kind) after left right) :
    Carries (AtLine margin front) after left right := by
  apply carries_weaken carries _ fun _ _ related => related
  intro near far line
  rw [entry, unwrapped]
  simp only [Bool.false_eq_true, if_false]
  split
  · exact line
  · exact line.toAtStart

theorem wrapper_token_carries {part : Part} (line : OneLine part.text)
    (plain : part.kind.isWrappable = false) :
    Carries (OnLine margin front) (OnLine margin front) (wrapperChild near part)
      (wrapperChild far part) := by
  rw [Kind.isWrappable] at plain
  simp only [wrapperChild, plain, Bool.false_eq_true, if_false]
  split
  · exact carries_word (by decide)
  · apply carries_word
    split
    · exact line
    · exact is_word_append line (by decide)

theorem node_children_carries (settings : Settings) {kind : Kind} (parent : Place)
    {header : List Tree} {opening : Tree} {block : List Tree} (brace : opening.kind = .leftBrace)
    (tokens : ∀ token ∈ header, token.kind ≠ .leftBrace ∧ OneLine token.text)
    (body : ∀ before : Option Kind, Carries (AtLine margin front) (AtLine margin front)
      ((parts settings kind parent before block).flatMap fun child => child.print near)
      ((parts settings kind parent before block).flatMap fun child => child.print far))
    (before : Option Kind) :
    Carries (OnLine margin front) (AtLine margin front)
      (nodeChildren near (parts settings kind parent before (header ++ opening :: block)))
      (nodeChildren far (parts settings kind parent before (header ++ opening :: block))) := by
  induction header generalizing before with
  | nil =>
      have word : IsWord " \x7b" := by decide
      have opens : Carries (OnLine margin front) (AtLine margin front) [.write " \x7b\n"]
          [.write " \x7b\n"] := carries_close word rfl
      simp only [List.nil_append, parts, nodeChildren, part_kind, brace, if_true, List.flatMap_cons,
        print_left_brace _ _ _ brace]
      exact carries_append opens (body (some .leftBrace))
  | cons token rest induction =>
      obtain ⟨other, line⟩ := tokens token (by simp)
      have word : IsWord (if token.kind = .colon then ": " else token.token) := by
        split
        · decide
        · exact line
      have later := induction (fun next member => tokens next (by simp [member])) (some token.kind)
      simp only [List.cons_append, parts, nodeChildren, part_kind, other, if_false, Cell.token, part_text]
      exact carries_cons (carries_word word) later

section

variable (offset : Offset margin near far)

include offset

theorem wrapper_children_carries (settings : Settings) {kind : Kind} (wrapper : kind.isWrapper = true)
    (parent : Place) {tokens : List Tree} {item : Tree} (unbound : near.bindings = false)
    (lines : ∀ token ∈ tokens, token.kind.isWrappable = false ∧ OneLine token.text)
    (wrapped : item.kind.isWrappable = true) (shifts : Shifts margin front settings item)
    (before : Option Kind) (preceded : before.isSome = true ∨ tokens ≠ []) :
    Carries (OnLine margin front) (AtLine margin front)
      ((parts settings kind parent before (tokens ++ [item])).flatMap (wrapperChild near))
      ((parts settings kind parent before (tokens ++ [item])).flatMap (wrapperChild far)) := by
  induction tokens generalizing before with
  | nil =>
      have begun : before.isSome = true := by simpa using preceded
      have isItem : item.kind.isItem = true := by rw [Kind.isItem, wrapped, Bool.or_true]
      have printed := shifts.item isItem (childPlace kind parent before none) offset unbound
        fun _ => wrapped
      have onLine : entry margin front (childPlace kind parent before none) item.kind =
          OnLine margin front := by simp [entry, childPlace, wrapper, begun]
      rw [onLine] at printed
      have other : item.kind ≠ .colon := by
        intro colon
        rw [colon] at wrapped
        cases wrapped
      have child : ∀ context, wrapperChild context (part settings (childPlace kind parent before none) item) =
          (part settings (childPlace kind parent before none) item).print context := by
        intro context
        rw [Kind.isWrappable] at wrapped
        simp only [wrapperChild, part_kind, other, wrapped, if_false, if_true]
      rw [List.nil_append, parts, parts, neighbour?, List.flatMap_singleton, List.flatMap_singleton,
        child, child]
      exact printed
  | cons token rest induction =>
      have here := lines token (by simp)
      rw [List.cons_append, parts, List.flatMap_cons, List.flatMap_cons]
      apply carries_append (wrapper_token_carries _ _)
        (induction (fun other member => lines other (by simp [member])) (some token.kind) (.inl rfl))
      · rw [part_text]
        exact here.2
      · rw [part_kind]
        exact here.1

theorem item_carries (settings : Settings) {kind : Kind} (plain : kind.isWrapper = false)
    (parent : Place) (before : Option Kind) (after : Option Neighbour) (unbound : near.bindings = false)
    {item : Tree} (shaped : item.isItem = true) (shifts : Shifts margin front settings item) :
    Carries (AtLine margin front) (AtLine margin front)
      ((part settings (childPlace kind parent before after) item).print near)
      ((part settings (childPlace kind parent before after) item).print far) := by
  rw [Tree.is_item_iff] at shaped
  have unwrapped : (childPlace kind parent before after).wrapped = false := by
    rw [childPlace, plain]
    rfl
  apply carries_from_line unwrapped
  apply shifts.item shaped.2 _ offset unbound
  intro wrapped
  rw [unwrapped] at wrapped
  cases wrapped

/-- The body of a node, from its first item to its semicolon. -/
theorem block_carries (settings : Settings) {kind : Kind} (plain : kind.isWrapper = false)
    (parent : Place) {items : List Tree} {closing ending : Tree} (unbound : near.bindings = false)
    (below : 1 ≤ near.depth) (shaped : ∀ item ∈ items, item.isItem = true)
    (shifts : ∀ item ∈ items, Shifts margin front settings item)
    (brace : closing.kind = .rightBrace) (semicolon : ending.kind = .semicolon) (before : Option Kind) :
    Carries (AtLine margin front) (AtLine margin front)
      ((parts settings kind parent before (items ++ [closing, ending])).flatMap fun child => child.print near)
      ((parts settings kind parent before (items ++ [closing, ending])).flatMap fun child => child.print far) := by
  induction items generalizing before with
  | nil =>
      have word : IsWord "\x7d" := by decide
      have shallower := offset.shallower below
      simp only [List.nil_append, parts, List.flatMap_cons, List.flatMap_nil, List.append_nil,
        print_right_brace _ _ _ brace, print_semicolon _ _ _ semicolon]
      apply carries_append _ carries_semicolon
      have begun : Carries (AtStart margin front) (OnLine margin front)
          (writes [near.shallower.indentation, "\x7d"]) (writes [far.shallower.indentation, "\x7d"]) :=
        carries_cons (carries_begin shallower.unbroken shallower.indentation) (carries_word word)
      exact carries_weaken begun (fun _ _ line => line.toAtStart) fun _ _ line => line
  | cons item rest induction =>
      have printed := item_carries offset settings plain parent before
        (neighbour? (rest ++ [closing, ending])) unbound (shaped item (by simp)) (shifts item (by simp))
      rw [List.cons_append, parts, List.flatMap_cons, List.flatMap_cons]
      exact carries_append printed
        (induction (fun other member => shaped other (by simp [member]))
          (fun other member => shifts other (by simp [member])) (some item.kind))

/-! ### Properties -/

theorem inline_comment_carries {part : Part} (line : OneLine part.text) :
    Carries (AfterToken margin front) (AfterToken margin front) (inlineComment part near)
      (inlineComment part far) := by
  have word := is_word_normal_comment line
  have spaced : Carries (AfterToken margin front) (OnLine margin front) [.space] [.space] :=
    carries_weaken carries_space (fun _ _ token => token) fun _ _ token => token.onLine
  have blank : Carries (AfterToken margin front) (AfterToken margin front) [.write " "] [.write " "] :=
    carries_weaken (carries_token (by decide)) (fun _ _ token => token.onLine) fun _ _ token => token
  simp only [inlineComment]
  apply carries_cons spaced
  split
  · exact carries_append (carries_last word)
      (carries_resume offset.deeper.unbroken offset.deeper.blank offset.deeper.indentation)
  · apply carries_cons (carries_token word)
    split
    · exact carries_nil _
    · split
      · exact carries_nil _
      · exact blank

theorem value_carries (settings : Settings) (place : Place) {tree : Tree}
    (below : near.bindings = true → 1 ≤ near.depth) (shaped : tree.Shaped) (value : tree.isValue = true) :
    Carries (OnLine margin front) (AfterToken margin front) ((part settings place tree).print near)
      ((part settings place tree).print far) := by
  obtain ⟨verbatim, line⟩ | cells | bytes := Tree.is_value_iff.mp value
  · rw [print_verbatim _ _ _ verbatim, print_verbatim _ _ _ verbatim]
    exact carries_token line
  · rw [print_cells _ _ _ cells, print_cells _ _ _ cells]
    apply print_cells_carries offset _ below
    intro cell member
    obtain ⟨child, inside, rfl⟩ := List.mem_map.mp member
    exact shaped.cells cells child inside
  · rw [print_bytes _ _ _ bytes, print_bytes _ _ _ bytes]
    exact print_bytes_carries offset _ _

/-- The children of a property. A comment needs something before it on the line. -/
theorem property_child_carries (settings : Settings) (place : Place)
    (below : near.bindings = true → 1 ≤ near.depth) {tree : Tree} (shaped : tree.Shaped)
    {seenEquals : Bool}
    (fits : (tree.kind.isPunctuation || if seenEquals then tree.isValue else OneLine tree.text) = true) :
    Carries (OnLine margin front) (AfterToken margin front)
      (propertyChild near seenEquals (part settings place tree))
      (propertyChild far seenEquals (part settings place tree)) := by
  simp only [propertyChild, part_kind]
  by_cases mark : tree.kind.isPunctuation = true
  · have word : IsWord tree.kind.sign := by
      rcases Kind.is_punctuation_iff.mp mark with kind | kind | kind <;> rw [kind] <;> decide
    rw [mark, Bool.or_true, if_pos rfl, if_pos rfl, print_punctuation _ _ _ mark,
      print_punctuation _ _ _ mark]
    exact carries_token word
  · rw [Bool.not_eq_true] at mark
    rw [mark, Bool.false_or] at fits
    rw [mark, Bool.or_false]
    cases seenEquals with
    | true => exact value_carries offset settings place below shaped fits
    | false =>
        rw [if_neg (by decide), decide_eq_true_eq] at fits
        rw [if_neg (by decide), if_neg (by decide), part_token]
        exact carries_token fits

theorem property_children_carries (settings : Settings) (kind : Kind) (parent : Place)
    {innerNear innerFar : Context} (innerOffset : Offset margin innerNear innerFar)
    (below : innerNear.bindings = true → 1 ≤ innerNear.depth) {trees : List Tree}
    (shaped : ∀ tree ∈ trees, tree.Shaped) {seenEquals : Bool}
    (form : Tree.isPropertyForm seenEquals trees = true) {start : List Char → List Char → Prop}
    (onLine : ∀ near far, start near far → OnLine margin front near far)
    (afterToken : trees.head?.map Tree.kind = some .comment →
      ∀ near far, start near far → AfterToken margin front near far) (before : Option Kind) :
    Carries start (OnLine margin front)
      (propertyChildren near innerNear seenEquals (parts settings kind parent before trees))
      (propertyChildren far innerFar seenEquals (parts settings kind parent before trees)) := by
  induction trees generalizing before seenEquals start with
  | nil => cases form
  | cons tree rest induction =>
      -- behind the first child both runs stand after a token, where a comment may follow
      have later : ∀ seen, Tree.isPropertyForm seen rest = true →
          Carries (AfterToken margin front) (OnLine margin front)
            (propertyChildren near innerNear seen (parts settings kind parent (some tree.kind) rest))
            (propertyChildren far innerFar seen (parts settings kind parent (some tree.kind) rest)) :=
        fun seen form => induction (fun other member => shaped other (by simp [member])) form
          (fun _ _ token => token.onLine) (fun _ _ _ token => token) (some tree.kind)
      have here := shaped tree (by simp)
      rw [parts]
      by_cases ending : tree.kind = .semicolon
      · have ends : (part settings (childPlace kind parent before (neighbour? rest)) tree).kind =
            .semicolon := by rw [part_kind, ending]
        rw [property_children_end ends, property_children_end ends]
        exact carries_weaken (carries_nil _) onLine fun _ _ line => line
      · by_cases comment : tree.kind = .comment
        · have remark : (part settings (childPlace kind parent before (neighbour? rest)) tree).kind =
              .comment := by rw [part_kind, comment]
          have line : OneLine
              (part settings (childPlace kind parent before (neighbour? rest)) tree).text := by
            rw [part_text]
            exact here.comment comment
          rw [Tree.is_property_form_comment comment] at form
          rw [property_children_comment remark, property_children_comment remark]
          exact carries_weaken (carries_append (inline_comment_carries offset line) (later _ form))
            (afterToken (by simp [comment])) fun _ _ line => line
        · rw [Tree.is_property_form_child ending comment, Bool.and_eq_true] at form
          rw [property_children_child (by rwa [part_kind]) (by rwa [part_kind]),
            property_children_child (by rwa [part_kind]) (by rwa [part_kind]), part_kind]
          exact carries_weaken (carries_append
            (property_child_carries innerOffset settings _ below here form.1) (later _ form.2))
            onLine fun _ _ line => line

/-! ### Conditionals -/

/-- The items and later branches of a branch, up to the closing keyword. -/
theorem contents_carry (settings : Settings) {kind : Kind} (plain : kind.isWrapper = false)
    (parent : Place) {contents closing : List Tree} (unbound : near.bindings = false)
    (shaped : ∀ child ∈ contents, child.isItem = true ∨ child.kind.isBranch = true)
    (shifts : ∀ child ∈ contents, Shifts margin front settings child)
    (closes : ∀ tree ∈ closing, tree.isEndif = true) (before : Option Kind) :
    Carries (AtLine margin front) (AtLine margin front)
      ((parts settings kind parent before (contents ++ closing)).flatMap (branchChild near))
      ((parts settings kind parent before (contents ++ closing)).flatMap (branchChild far)) := by
  induction contents generalizing before with
  | nil =>
      rw [List.nil_append, branch_children_closing settings kind parent before near closes,
        branch_children_closing settings kind parent before far closes]
      exact carries_nil _
  | cons child rest induction =>
      rw [List.cons_append, parts, List.flatMap_cons, List.flatMap_cons]
      apply carries_append _ (induction (fun other member => shaped other (by simp [member]))
        (fun other member => shifts other (by simp [member])) (some child.kind))
      by_cases branch : child.kind.isBranch = true
      · simp only [branchChild, part_kind, branch, if_true]
        exact (shifts child (by simp)).branch branch _ offset unbound
      · have item : child.isItem = true := (shaped child (by simp)).resolve_right branch
        have named : child.named = true := by
          rw [Tree.is_item_iff] at item
          exact item.1
        rw [Bool.not_eq_true] at branch
        rw [branch_child_item _ _ _ named branch, branch_child_item _ _ _ named branch]
        exact item_carries offset settings plain parent before _ unbound item (shifts child (by simp))

theorem print_branch_carries (settings : Settings) {kind : Kind} (plain : kind.isWrapper = false)
    (parent : Place) {children closing : List Tree} (unbound : near.bindings = false)
    (form : Tree.IsBranchForm kind children)
    (shifts : ∀ child ∈ children, Shifts margin front settings child)
    (closes : ∀ tree ∈ closing, tree.isEndif = true) :
    Carries (AtStart margin front) (AtLine margin front)
      (printBranch kind (parts settings kind parent none (children ++ closing)) near)
      (printBranch kind (parts settings kind parent none (children ++ closing)) far) := by
  by_cases last : kind = .elseBranch
  · subst last
    obtain ⟨head, contents, rfl, line, shaped⟩ := Tree.exists_of_is_branch_form_else form
    have keyword := is_word_directive_keyword line
    have rest := contents_carry offset settings plain parent unbound shaped
      (fun child member => shifts child (by simp [member])) closes (some head.kind)
    rw [List.cons_append, parts, print_branch_else, print_branch_else, part_text]
    exact carries_append (carries_indented_line offset keyword) rest
  · obtain ⟨head, condition, contents, rfl, line, conditionLine, shaped⟩ :=
      Tree.exists_of_is_branch_form last form
    have keyword := is_word_directive_keyword line
    have rest := contents_carry offset settings plain parent unbound shaped
      (fun child member => shifts child (by simp [member])) closes (some condition.kind)
    have first : Carries (AtStart margin front) (AtLine margin front)
        (writes [near.indentation, directiveKeyword head.text, " ", condition.token, "\n"])
        (writes [far.indentation, directiveKeyword head.text, " ", condition.token, "\n"]) := by
      apply carries_cons (carries_begin offset.unbroken offset.indentation)
      apply carries_cons (carries_word keyword)
      apply carries_cons (carries_word (by decide))
      exact carries_last conditionLine
    rw [List.cons_append, List.cons_append, parts, parts, print_branch_condition last,
      print_branch_condition last, part_text, Cell.token, part_text]
    exact carries_append first rest

/-! ### Contexts of bodies and values -/

theorem body_context_offset (parts : List Part) :
    Offset margin (bodyContext parts near) (bodyContext parts far) := by
  unfold bodyContext
  split
  · exact offset.deeper.in_keymap
  · exact offset.deeper

theorem body_context_depth (parts : List Part) : 1 ≤ (bodyContext parts near).depth := by
  have depth : (bodyContext parts near).depth = near.depth + 1 := by
    unfold bodyContext
    split <;> rfl
  have inside := offset.inside
  omega

theorem value_context_offset (parts : List Part) :
    Offset margin (valueContext parts near) (valueContext parts far) := by
  unfold valueContext
  split
  · exact offset.deeper.in_bindings
  · exact offset

theorem value_context_depth (parts : List Part) (unbound : near.bindings = false)
    (bound : (valueContext parts near).bindings = true) : 1 ≤ (valueContext parts near).depth := by
  have inside := offset.inside
  unfold valueContext at bound ⊢
  split
  · have depth : near.deeper.inBindings.depth = near.depth + 1 := rfl
    omega
  · next other =>
      rw [if_neg other, unbound] at bound
      cases bound

/-! ### Trees -/

section

variable (settings : Settings) (place : Place) {tree : Tree} (shaped : tree.Shaped)

include shaped

variable (unbound : near.bindings = false)

include unbound

theorem wrapper_carries
    (shifts : ∀ child ∈ tree.children, Shifts margin front settings child)
    (wrapper : tree.kind.isWrapper = true) :
    Carries (entry margin front place tree.kind) (AtLine margin front)
      ((part settings place tree).print near) ((part settings place tree).print far) := by
  obtain ⟨long, form⟩ := shaped.wrapper wrapper
  obtain ⟨tokens, item, children, lines, wrapped⟩ := Tree.exists_of_is_wrapper_form form
  have plain : tree.kind ≠ .comment := by
    intro comment
    rw [comment] at wrapper
    cases wrapper
  have filled : tokens ≠ [] := by
    rintro rfl
    simp [children] at long
  rw [print_wrapper _ _ _ wrapper, print_wrapper _ _ _ wrapper, printWrapper, printWrapper, inner, children]
  rw [children] at shifts
  exact carries_append (carries_begin_item offset plain)
    (wrapper_children_carries offset settings wrapper place unbound lines wrapped
      (shifts item (by simp)) none (.inr filled))

theorem node_carries
    (shifts : ∀ child ∈ tree.children, Shifts margin front settings child) (node : tree.kind = .node) :
    Carries (entry margin front place tree.kind) (AtLine margin front)
      ((part settings place tree).print near) ((part settings place tree).print far) := by
  obtain ⟨header, opening, block, children, tokens, brace, form⟩ :=
    Tree.exists_of_is_node_form (shaped.node node)
  obtain ⟨items, closing, ending, rfl, isItem, rightBrace, semicolon⟩ := Tree.exists_of_is_block form
  rw [Tree.is_mark_iff] at rightBrace semicolon
  have plain : tree.kind ≠ .comment := by
    intro comment
    rw [node] at comment
    cases comment
  have noWrapper : tree.kind.isWrapper = false := by
    rw [node]
    rfl
  rw [print_node _ _ _ node, print_node _ _ _ node, printNode, printNode]
  apply carries_append (carries_begin_item offset plain)
  generalize outer : inner settings place tree = parts
  have body := body_context_offset offset parts
  have bodyUnbound : (bodyContext parts near).bindings = false := by
    unfold bodyContext
    split <;> exact unbound
  rw [children] at shifts
  rw [← outer, inner, children]
  rw [← outer, inner, children] at body bodyUnbound
  apply node_children_carries settings place brace tokens
  intro before
  apply block_carries body settings noWrapper place bodyUnbound (body_context_depth offset _) isItem
    _ rightBrace.2 semicolon.2
  intro item member
  exact shifts item (by simp [member])

theorem property_carries
    (children : ∀ child ∈ tree.children, child.Shaped) (property : tree.kind = .property) :
    Carries (entry margin front place tree.kind) (AtLine margin front)
      ((part settings place tree).print near) ((part settings place tree).print far) := by
  obtain ⟨first, form⟩ := shaped.property property
  have plain : tree.kind ≠ .comment := by
    intro comment
    rw [property] at comment
    cases comment
  rw [print_property _ _ _ property, print_property _ _ _ property, printProperty, printProperty]
  apply carries_append _ (carries_before_node place)
  apply carries_append _ carries_semicolon
  apply carries_append (carries_begin_item offset plain)
  apply property_children_carries offset settings _ place (value_context_offset offset _)
    (value_context_depth offset _ unbound) children form
  · intro near far line
    exact line
  · intro comment
    exact absurd comment first

theorem conditional_carries
    (shifts : ∀ child ∈ tree.children, Shifts margin front settings child)
    (conditional : tree.kind.isConditional = true) :
    Carries (AtStart margin front) (AtLine margin front)
      ((part settings place tree).print near) ((part settings place tree).print far) := by
  obtain ⟨body, ending, children, form, closes⟩ := Tree.exists_of_conditional shaped conditional
  rw [children] at shifts
  have plain : tree.kind.isWrapper = false := by
    generalize tree.kind = kind at conditional
    cases kind <;> cases conditional <;> rfl
  have word : IsWord "#endif" := by decide
  rw [print_conditional _ _ _ conditional, print_conditional _ _ _ conditional, printConditional,
    printConditional, inner, children]
  apply carries_append _ (carries_end_run place _)
  apply carries_append (print_branch_carries offset settings plain place unbound form _ _)
  · have begun : Carries (AtStart margin front) (AtLine margin front)
        (writes [near.indentation, "#endif\n"]) (writes [far.indentation, "#endif\n"]) :=
      carries_cons (carries_begin offset.unbroken offset.indentation) (carries_close word rfl)
    exact carries_weaken begun (fun _ _ line => line.toAtStart) fun _ _ line => line
  · intro child member
    exact shifts child (by simp [member])
  · intro other member
    rw [List.mem_singleton.mp member]
    exact closes

end

end

theorem entry_start {place : Place} {kind : Kind} (unwrapped : place.wrapped = false)
    (plain : kind ≠ .comment) : entry margin front place kind = AtStart margin front := by
  simp [entry, unwrapped, plain]

/-- A tree that follows the grammar is printed alike at all depths if its
children are. -/
theorem shifts_of_children (settings : Settings) {tree : Tree} (shaped : tree.Shaped)
    (children : ∀ child ∈ tree.children, child.Shaped)
    (shifts : ∀ child ∈ tree.children, Shifts margin front settings child) :
    Shifts margin front settings tree := by
  constructor
  · intro item place near far offset unbound wrapped
    have unwrapped : tree.kind.isWrappable = false → place.wrapped = false := by
      intro alone
      cases begun : place.wrapped with
      | false => rfl
      | true =>
          rw [wrapped begun] at alone
          cases alone
    have start : tree.kind.isWrappable = false → tree.kind ≠ .comment →
        entry margin front place tree.kind = AtStart margin front :=
      fun alone plain => entry_start (unwrapped alone) plain
    generalize known : tree.kind = kind at item start unwrapped
    cases kind
    case comment =>
      rw [print_comment _ _ _ known, print_comment _ _ _ known]
      exact print_comment_carries offset place (unwrapped rfl) (shaped.comment known)
    case fileVersion | plugin =>
      rw [start rfl (by decide)]
      exact header_carries offset settings place shaped (by rw [known]; rfl)
    case fileInclude =>
      rw [start rfl (by decide)]
      exact include_carries offset settings place shaped known
    case memoryReservation | deleteNode | deleteProperty =>
      rw [start rfl (by decide)]
      exact statement_carries offset settings place shaped (by rw [known]; rfl)
    case includeDirective | defineDirective | functionDirective | callDirective =>
      rw [start rfl (by decide)]
      exact directive_carries offset settings place shaped (by rw [known]; rfl)
    case ifDirective | ifdefDirective =>
      rw [start rfl (by decide)]
      exact conditional_carries offset settings place shaped unbound shifts (by rw [known]; rfl)
    case omitIfNoRef | labeledItem =>
      rw [← known]
      exact wrapper_carries offset settings place shaped unbound shifts (by rw [known]; rfl)
    case node =>
      rw [← known]
      exact node_carries offset settings place shaped unbound shifts known
    case property =>
      rw [← known]
      exact property_carries offset settings place shaped unbound children known
    all_goals cases item
  · intro branch place near far offset unbound
    have plain := Kind.is_wrapper_of_is_branch branch
    have printed : Carries (AtStart margin front) (AtLine margin front)
        (printBranch tree.kind (parts settings tree.kind place none (tree.children ++ [])) near)
        (printBranch tree.kind (parts settings tree.kind place none (tree.children ++ [])) far) :=
      print_branch_carries offset settings plain place unbound (shaped.branch branch) shifts (by simp)
    rw [List.append_nil] at printed
    rw [part_print_branch, part_print_branch]
    exact carries_weaken printed (fun _ _ line => line.toAtStart) fun _ _ line => line

theorem tree_shifts (margin front : List Char) (settings : Settings) {tree : Tree}
    (shaped : tree.Everywhere Tree.Shaped) : Shifts margin front settings tree := by
  apply Tree.spreads.induction _ shaped
  intro tree here below shifts
  exact shifts_of_children settings here
    (fun child member => Tree.spreads.self (below child member)) shifts

end DevicetreeFormat.Printer
