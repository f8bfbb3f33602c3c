import DevicetreeFormat.Proofs.Comments.Walk

/-!
# The fate of comments in items

What each rule does with a line comment below it, the comment itself being one
case and a child that holds it the other. The rules with a body print a child by
its own rule, so the fate passes from the child to the node; the rules that read
their children as texts do not read what lies below them.
-/

namespace DevicetreeFormat.Printer

set_option autoImplicit false

open Text DevicetreeFormat.Frame

/-! ### What is printed on the line of a comment -/

section

variable (settings : Settings) (place : Place) {tree : Tree} (context : Context)

theorem node_children_leads (line : tree.kind ≠ .leftBrace → OneLine tree.text) (rest : List Part) :
    Leads tree (nodeChildren context (part settings place tree :: rest)) := by
  rw [nodeChildren, part_kind]
  split
  · next brace =>
      rw [List.flatMap_cons, print_left_brace _ _ _ brace]
      exact leads_symbol (by rw [brace]; rfl) " \x7b\n" ⟨[' '], '\x7b', ['\n'], by decide, rfl, rfl⟩ _
  · next other =>
      rw [part_token]
      split
      · next mark => exact leads_symbol (by rw [mark]; rfl) ": " (ink_first_cons rfl _) _
      · exact leads_token (line other) _

theorem wrapper_token_leads (line : OneLine tree.text) (other : tree.kind.isWrappable = false) :
    Leads tree (wrapperChild context (part settings place tree)) := by
  rw [wrapperChild, part_kind, part_token]
  split
  · next mark => exact leads_symbol (by rw [mark]; rfl) ": " (ink_first_cons rfl _) _
  · rw [if_neg (by simpa [Kind.isWrappable] using other)]
    split
    · exact leads_token line _
    · refine ⟨_, _, rfl, ?_, fun _ => ?_⟩ <;> rw [String.toList_append]
      · exact line.ink_first.append _
      · exact List.prefix_append _ _

theorem property_children_leads (outer inner : Context) {others : List Tree}
    (form : Tree.isPropertyForm false (tree :: others) = true) (other : tree.kind ≠ .comment)
    (rest : List Part) (later : List Command) :
    Leads tree (propertyChildren outer inner false (part settings place tree :: rest) ++ .write ";\n" :: later) := by
  by_cases ending : tree.kind = .semicolon
  · rw [property_children_end (by rw [part_kind, ending])]
    exact leads_symbol (by rw [ending]; rfl) ";\n" (ink_first_cons rfl _) _
  · rw [property_children_child (by rwa [part_kind]) (by rwa [part_kind]), propertyChild, part_kind,
      Bool.false_or]
    split
    · next mark =>
        rw [print_punctuation _ _ _ mark]
        rcases Kind.is_punctuation_iff.mp mark with kind | kind | kind <;> rw [kind]
        · exact leads_symbol (by rw [kind]; rfl) " = " ⟨[' '], '=', [' '], by decide, rfl, rfl⟩ _
        · exact leads_symbol (by rw [kind]; rfl) ", " (ink_first_cons rfl _) _
        · exact leads_symbol (by rw [kind]; rfl) ": " (ink_first_cons rfl _) _
    · next unmarked =>
        rw [Tree.is_property_form_child ending other, Bool.and_eq_true, Bool.or_eq_true,
          or_iff_right unmarked, if_neg (by decide), decide_eq_true_eq] at form
        rw [part_token]
        exact leads_token form.1 _

section

variable {first : Tree} {rest others : List Tree} (children : tree.children = first :: rest)
  (begun : beginItem place context = [])

include children begun

theorem print_node_leads (node : tree.kind = .node) (form : Tree.isNodeForm (first :: others) = true) :
    Leads first ((part settings place tree).print context) := by
  rw [print_node _ _ _ node, printNode, begun, List.nil_append]
  generalize bodyContext _ _ = body
  rw [inner, children, parts]
  apply node_children_leads
  intro other
  rw [Tree.isNodeForm, if_neg other, Bool.and_eq_true, decide_eq_true_eq] at form
  exact form.1

theorem print_property_leads (property : tree.kind = .property) (other : first.kind ≠ .comment)
    (form : Tree.isPropertyForm false (first :: others) = true) :
    Leads first ((part settings place tree).print context) := by
  rw [print_property _ _ _ property, printProperty, begun, List.nil_append, List.append_assoc]
  generalize valueContext _ _ = values
  rw [inner, children, parts]
  exact property_children_leads settings _ context values form other _ _

theorem print_wrapper_leads (wrapper : tree.kind.isWrapper = true) (long : 2 ≤ (first :: others).length)
    (form : Tree.isWrapperForm (first :: others) = true) :
    Leads first ((part settings place tree).print context) := by
  -- the wrapped item comes last, so the first child is a token
  have more : ¬others.isEmpty = true := by
    intro last
    rw [List.isEmpty_iff.mp last] at long
    simp at long
  rw [Tree.isWrapperForm, if_neg more, Bool.and_eq_true, Bool.and_eq_true, Bool.not_eq_true',
    decide_eq_true_eq] at form
  rw [print_wrapper _ _ _ wrapper, printWrapper, begun, List.nil_append, inner, children, parts,
    List.flatMap_cons]
  exact (wrapper_token_leads settings _ context form.1.2 form.1.1).append _

end

/-- A wrapped item goes on on the line of its wrapper. -/
theorem item_opens (commented : tree.Commented) (wrappable : tree.kind.isWrappable = true)
    (wrapped : place.wrapped = true) : Opens ((part settings place tree).print context) := by
  have begun : beginItem place context = [] := by rw [beginItem, if_pos wrapped]
  obtain node | property | wrapper := Kind.is_wrappable_iff.mp wrappable
  · have form := commented.shaped.node (by rwa [Tree.plain_kind])
    obtain ⟨first, rest, children, _, plain⟩ := Tree.exists_first commented (Tree.ne_nil_of_form rfl form)
    rw [plain] at form
    exact (print_node_leads settings place context children begun node form).opens
  · have form := (commented.shaped.property (by rwa [Tree.plain_kind])).2
    obtain ⟨first, rest, children, code, plain⟩ := Tree.exists_first commented (Tree.ne_nil_of_form rfl form)
    rw [plain] at form
    exact (print_property_leads settings place context children begun property code form).opens
  · obtain ⟨long, form⟩ := commented.shaped.wrapper (by rwa [Tree.plain_kind])
    obtain ⟨first, rest, children, _, plain⟩ := Tree.exists_first commented (Tree.ne_nil_of_form rfl form)
    rw [plain] at long form
    exact (print_wrapper_leads settings place context children begun wrapper long form).opens

end

/-! ### Rules that read cells -/

section

variable (settings : Settings) {frame : Frame} {path : List Frame} {given : LineComment}
  (commented : (plug (frame :: path) given).Commented) (place : Place) (context : Context)

/-- A rule that reads only cells does not read what lies below them. -/
theorem cells_keep {fate : Fate} (rule : List Cell → List Command)
    (printed : ∀ note, (part settings place (plug (frame :: path) note)).print context =
      rule ((plug (frame :: path) note).children.map Tree.cell))
    (direct : path = [] → Keeps fate fun note =>
      rule (frame.before.map Tree.cell ++ note.cell :: frame.after.map Tree.cell)) :
    Keeps (if path.isEmpty then fate else .unread) fun note =>
      (part settings place (plug (frame :: path) note)).print context := by
  apply keeps_congr fun note => (printed note).trans (by rw [cells_plug])
  cases path with
  | nil => exact direct rfl
  | cons step path => exact .unread fun note other => rfl

include commented

theorem header_keeps (header : frame.kind.isHeader = true) :
    Keeps (if path.isEmpty then .joined else .unread) fun note =>
      (part settings place (plug (frame :: path) note)).print context := by
  apply cells_keep settings place context (fun cells => printHeader place cells context)
    fun note => print_header settings place context header
  rintro rfl
  obtain ⟨token, member, line⟩ := token_after_header commented rfl header
  apply print_header_joins
  exact ⟨token.cell, List.mem_map_of_mem member, line.1⟩

theorem statement_keeps (statement : frame.kind.isStatement = true) :
    Keeps (if path.isEmpty then .joined else .unread) fun note =>
      (part settings place (plug (frame :: path) note)).print context := by
  apply cells_keep settings place context (fun cells => printStatement cells context)
    fun note => print_statement settings place context statement
  rintro rfl
  apply print_statement_joins
  intro cell member
  obtain ⟨token, inside, rfl⟩ := List.mem_map.mp member
  exact unended_statement commented rfl statement token inside

theorem directive_keeps (directive : (frame.kind.isDirective && !frame.kind.isConditional) = true) :
    Keeps (if path.isEmpty then
        if frame.after.any fun tree => tree.token ≠ "" then .joined else .ended
      else .unread) fun note => (part settings place (plug (frame :: path) note)).print context := by
  apply cells_keep settings place context (fun cells => printDirective place frame.kind cells context)
    fun note => print_directive settings place context directive
  rintro rfl
  obtain ⟨head, operands, shape⟩ := List.exists_cons_of_ne_nil (before_ne_nil commented rfl)
  rw [shape]
  split
  · next more =>
      rw [List.any_eq_true] at more
      obtain ⟨token, member, inked⟩ := more
      apply print_directive_joins
      exact ⟨token.cell, List.mem_map_of_mem member, by simpa using inked⟩
  · next last =>
      rw [List.any_eq_true, not_exists] at last
      apply print_directive_ends
      intro cell member
      obtain ⟨token, inside, rfl⟩ := List.mem_map.mp member
      have blank := last token
      simpa [inside] using blank

omit commented

theorem integer_cells_keep (cells : frame.kind = .integerCells) :
    Keeps (if path.isEmpty then .ended else .unread) fun note =>
      (part settings place (plug (frame :: path) note)).print context := by
  apply cells_keep settings place context (fun cells => printCells settings.activeLayout cells context)
    fun note => print_cells settings place context cells
  intro _
  exact print_cells_ends context _ _ _

theorem byte_string_keeps (bytes : frame.kind = .byteString) :
    Keeps .unread fun note => (part settings place (plug (frame :: path) note)).print context := by
  have kept : Keeps (if path.isEmpty then .unread else .unread) fun note =>
      (part settings place (plug (frame :: path) note)).print context := by
    apply cells_keep settings place context (fun cells => printBytes frame.text cells context)
      fun note => print_bytes settings place context bytes
    intro _
    apply Keeps.unread
    intro note other
    simp [printBytes, byteDigits, LineComment.cell]
  rwa [ite_self] at kept

end

/-! ### Includes -/

theorem included_path_last {front back : List Part} {path : Part} (named : path.named = true)
    (unnamed : (back.any fun part => part.named) = false) :
    includedPath (front ++ path :: back) = some path := by
  have last : (back.filter fun part => part.named) = [] := by
    rw [List.filter_eq_nil_iff]
    intro part member
    exact List.any_eq_false.mp unnamed part member
  rw [includedPath, List.filter_append, List.filter_cons_of_pos named, last, List.getLast?_concat]
  rfl

theorem included_path_later (front : List Part) (path : Part) {back : List Part}
    (named : (back.any fun part => part.named) = true) :
    includedPath (front ++ path :: back) = includedPath back := by
  have filled : (back.filter fun part => part.named) ≠ [] := by
    obtain ⟨part, member, name⟩ := List.any_eq_true.mp named
    exact List.ne_nil_of_mem (List.mem_filter.mpr ⟨member, name⟩)
  rw [List.append_cons, includedPath, includedPath, List.filter_append,
    List.getLast?_append_of_ne_nil _ filled, List.getLast?_eq_some_getLast filled]
  rfl

theorem include_keeps (settings : Settings) {frame : Frame} (path : List Frame) (given : LineComment)
    (place : Place) (context : Context) (included : frame.kind = .fileInclude) :
    Keeps (if path.isEmpty && !frame.after.any Tree.named then .ended else .unread) fun note =>
      (part settings place (plug (frame :: path) note)).print context := by
  obtain ⟨front, last, _, split⟩ := inner_plug settings path frame place given
  generalize childPlace frame.kind place last (neighbour? frame.after) = spot at split
  have named : (parts settings frame.kind place (some (topKind path)) frame.after).any
      (fun part => part.named) = frame.after.any Tree.named := by
    have names := parts_named settings frame.kind place (some (topKind path)) frame.after
    simpa using congrArg (List.any · id) names
  generalize parts settings frame.kind place (some (topKind path)) frame.after = back at split named
  have printed : ∀ note, (part settings place (plug (frame :: path) note)).print context =
      printInclude place (inner settings place (plug (frame :: path) note)) context :=
    fun note => print_include settings place context included
  apply keeps_congr fun note => (printed note).trans (by rw [split])
  rw [← named]
  cases path with
  | cons step path =>
      apply Keeps.unread
      intro note other
      apply print_include_congr
      apply congrArg pathLabel
      rw [List.map_append, List.map_append]
      rfl
  | nil =>
      cases later : back.any fun part => part.named with
      | true =>
          apply Keeps.unread
          intro note other
          rw [printInclude, printInclude, included_path_later _ _ later, included_path_later _ _ later]
      | false =>
          apply keeps_congr _ (keeps_between (writes [context.indentation, "/include/ "])
            (endRun place fun kind => kind = .fileInclude) (ended_writes shown_strip ""))
          intro note
          have chosen : (part settings spot (plug [] note)).named = true := rfl
          rw [printInclude, included_path_last chosen later, String.empty_append]
          rfl

end DevicetreeFormat.Printer
