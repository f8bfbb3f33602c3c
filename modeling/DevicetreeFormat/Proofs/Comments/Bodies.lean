import DevicetreeFormat.Proofs.Comments.Items

/-!
# The fate of comments in bodies

Wrappers, nodes, properties, conditionals and nodes of unknown kind print children
by their own rules, so the fate of a comment in such a child is its fate in the
node. By induction along the path this gives the fate of every line comment of a
document.
-/

namespace DevicetreeFormat.Printer

set_option autoImplicit false

open Text DevicetreeFormat.Frame

section

variable (settings : Settings) {frame : Frame} (path : List Frame) {given : LineComment}
  (place : Place) (context : Context)

/-! ### Wrappers -/

theorem wrapper_child_comment (spot : Place) (note given : LineComment) :
    wrapperChild context (part settings spot (plug [] note)) =
      [.write (strip note.text ++ if (part settings spot (plug [] given)).beforeColon then "" else " ")] := by
  have colon : (part settings spot (plug [] note)).beforeColon =
      (part settings spot (plug [] given)).beforeColon := rfl
  rw [wrapperChild, part_kind, plug_kind, if_neg (by decide), if_neg (by decide), colon]
  split
  · rw [String.append_empty]
    rfl
  · rfl

/-- Behind a comment a wrapper goes on on the same line. -/
theorem wrapper_opens (wrapper : frame.kind.isWrapper = true)
    (commented : (plug [frame] given).Commented) (others : ∀ tree ∈ frame.after, tree.Commented) :
    Opens ((parts settings frame.kind place (some .comment) frame.after).flatMap
      (wrapperChild context)) := by
  have plain : frame.kind.isBranch = false := by
    cases known : frame.kind <;> rw [known] at wrapper <;> cases wrapper <;> rfl
  obtain ⟨next, rest, after⟩ := exists_next commented rfl plain
  have line := others next (by rw [after]; simp)
  rw [after, parts, List.flatMap_cons]
  apply Opens.append
  by_cases item : next.kind.isWrappable = true
  · rw [wrapper_child_item settings context item]
    apply item_opens settings _ context line item
    simp [childPlace, wrapper]
  · have token := (child_after_wrapper commented rfl wrapper after line).resolve_left item
    exact (wrapper_token_leads settings _ context token (by simpa using item)).opens

theorem wrapper_keeps (wrapper : frame.kind.isWrapper = true)
    (commented : (plug (frame :: path) given).Commented) (others : ∀ tree ∈ frame.after, tree.Commented)
    (below : ∀ spot, Keeps (fate false path) fun note =>
      (part settings spot (plug path note)).print context) :
    Keeps (if path.isEmpty then .joined
        else if (topKind path).isWrappable then fate false path else .unread) fun note =>
      (part settings place (plug (frame :: path) note)).print context := by
  obtain ⟨front, last, _, split⟩ := inner_plug settings path frame place given
  generalize childPlace frame.kind place last (neighbour? frame.after) = spot at split
  have printed : ∀ note, (part settings place (plug (frame :: path) note)).print context =
      printWrapper place (inner settings place (plug (frame :: path) note)) context :=
    fun note => print_wrapper settings place context wrapper
  have shape : ∀ note, (part settings place (plug (frame :: path) note)).print context =
      (beginItem place context ++ front.flatMap (wrapperChild context)) ++
        (wrapperChild context (part settings spot (plug path note)) ++
          (parts settings frame.kind place (some (topKind path)) frame.after).flatMap
            (wrapperChild context)) := by
    intro note
    rw [printed, split, printWrapper, List.flatMap_append, List.flatMap_cons]
    simp only [List.append_assoc]
  apply keeps_congr shape
  apply keeps_last
  cases path with
  | nil =>
      have opens := wrapper_opens settings place context wrapper commented others
      have short : '\n' ∉ (if (part settings spot (plug [] given)).beforeColon then "" else " ").toList := by
        split <;> decide
      apply keeps_congr _ (joined_before short opens)
      intro note
      rw [wrapper_child_comment settings context spot note given]
      rfl
  | cons step path =>
      apply keeps_first
      by_cases item : (topKind (step :: path)).isWrappable = true
      · rw [if_neg (by simp), if_pos item]
        apply keeps_congr _ (below spot)
        intro note
        exact wrapper_child_item settings context (by rw [plug_kind]; exact item) spot
      · rw [if_neg (by simp), if_neg item]
        apply Keeps.unread
        intro note other
        have rule : ¬((topKind (step :: path)) = .node || (topKind (step :: path)) = .property ||
            (topKind (step :: path)).isWrapper) = true := item
        rw [wrapperChild, wrapperChild, part_kind, part_kind, plug_kind, plug_kind, if_neg rule, if_neg rule]
        rfl

/-! ### Nodes -/

/-- In the header of a node a comment is printed as a token. -/
theorem node_header_keeps (node : frame.kind = .node) (commented : (plug (frame :: path) given).Commented)
    (others : ∀ tree ∈ frame.after, tree.Commented) (header : ∀ token ∈ frame.before, token.kind ≠ .leftBrace)
    (spot : Place) :
    Keeps (if path.isEmpty then .joined else .unread) fun note =>
      nodeChildren context (part settings spot (plug path note) ::
        parts settings frame.kind place (some (topKind path)) frame.after) := by
  cases path with
  | nil =>
      obtain ⟨next, rest, after⟩ := exists_next commented rfl (by rw [node]; rfl)
      have line := token_after_node commented rfl node header after (others next (by rw [after]; simp))
      have opens : Opens (nodeChildren context
          (parts settings frame.kind place (some .comment) frame.after)) := by
        rw [after, parts]
        exact (node_children_leads settings _ context line _).opens
      have short : '\n' ∉ "".toList := by decide
      apply keeps_congr _ (joined_before short opens)
      intro note
      rw [nodeChildren, part_kind, plug_kind, if_neg (by decide), if_neg (by decide), String.append_empty]
      rfl
  | cons step path =>
      apply Keeps.unread
      intro note other
      rw [nodeChildren, nodeChildren, part_kind, part_kind, plug_kind, plug_kind]
      split
      · next brace =>
          have opening : ∀ note, (part settings spot (plug (step :: path) note)).print context =
              [.write " \x7b\n"] := fun note => print_left_brace settings spot context brace
          rw [List.flatMap_cons, List.flatMap_cons, opening, opening]
      · rfl

theorem node_keeps (node : frame.kind = .node) (commented : (plug (frame :: path) given).Commented)
    (others : ∀ tree ∈ frame.after, tree.Commented)
    (below : ∀ spot context, Keeps (fate false path) fun note =>
      (part settings spot (plug path note)).print context) :
    Keeps (if frame.before.any fun tree => tree.kind = .leftBrace then fate false path
        else if path.isEmpty then .joined else .unread) fun note =>
      (part settings place (plug (frame :: path) note)).print context := by
  obtain ⟨front, last, cells, split⟩ := inner_plug settings path frame place given
  have kinds := kinds_of_cells cells
  generalize childPlace frame.kind place last (neighbour? frame.after) = spot at split
  generalize body : bodyContext (inner settings place (plug (frame :: path) given)) context = inside
  have printed : ∀ note, (part settings place (plug (frame :: path) note)).print context =
      printNode place (inner settings place (plug (frame :: path) note)) context :=
    fun note => print_node settings place context node
  have shape : ∀ note, (part settings place (plug (frame :: path) note)).print context =
      beginItem place context ++ nodeChildren inside (front ++ part settings spot (plug path note) ::
        parts settings frame.kind place (some (topKind path)) frame.after) := by
    intro note
    rw [printed, printNode, body_context_plug settings frame path place context note given, body, split]
  apply keeps_congr shape
  apply keeps_last
  split
  · next opened =>
      obtain ⟨brace, member, kind⟩ := List.any_eq_true.mp opened
      obtain ⟨commands, same⟩ := node_children_opened inside
        (by rw [kinds]; exact List.mem_map.mpr ⟨brace, member, by simpa using kind⟩)
      apply keeps_congr fun note => (same _).trans (by rw [List.flatMap_cons])
      exact keeps_last _ (keeps_first _ (below spot inside))
  · next unopened =>
      have header : ∀ token ∈ frame.before, token.kind ≠ .leftBrace := by
        simpa using unopened
      have early : Kind.leftBrace ∉ front.map fun part => part.kind := by
        rw [kinds]
        intro member
        obtain ⟨token, before, brace⟩ := List.mem_map.mp member
        exact header token before brace
      obtain ⟨commands, same⟩ := node_children_unopened inside early
      apply keeps_congr fun note => same _
      exact keeps_last _ (node_header_keeps settings path place inside node commented others header spot)

/-! ### Properties -/

theorem inline_comment_ends (spot : Place) :
    Keeps .ended fun note => inlineComment (part settings spot (plug [] note)) context := by
  apply keeps_congr _ (keeps_between [.space] (writes [context.deeper.indentation])
    (ended_writes shown_normal_comment ""))
  intro note
  have text : (part settings spot (plug [] note)).text = note.text := rfl
  rw [inlineComment, text, if_pos note.normal_slashes, String.empty_append]
  rfl

/-- A child of a property that is not the comment but holds it. -/
theorem property_child_keeps (seenEquals : Bool) (outer values : Context) (step : Frame) (spot : Place)
    (back : List Part)
    (below : Keeps (fate false (step :: path)) fun note =>
      (part settings spot (plug (step :: path) note)).print values) :
    Keeps (if seenEquals then fate false (step :: path) else .unread) fun note =>
      propertyChildren outer values seenEquals (part settings spot (plug (step :: path) note) :: back) := by
  have constant : ∀ {family : LineComment → List Command}, (step.kind = .semicolon ∨ step.kind = .comment) →
      (∀ note other, family note = family other) →
      Keeps (if seenEquals then fate false (step :: path) else .unread) family := by
    intro family kind same
    have unread : fate false (step :: path) = .unread := by
      rcases kind with kind | kind <;> simp only [fate, kind]
    rw [unread, ite_self]
    exact .unread same
  have top : ∀ note, (part settings spot (plug (step :: path) note)).kind = step.kind := by
    intro note
    rw [part_kind, plug_kind]
    rfl
  by_cases ending : step.kind = .semicolon
  · apply keeps_congr fun note => property_children_end ((top note).trans ending)
    exact constant (.inl ending) fun note other => rfl
  · by_cases comment : step.kind = .comment
    · apply keeps_congr fun note => property_children_comment ((top note).trans comment)
      exact constant (.inr comment) fun note other => rfl
    · apply keeps_congr fun note => property_children_child (by rwa [top note]) (by rwa [top note])
      simp only [top, propertyChild]
      apply keeps_first
      cases seenEquals with
      | true => exact below
      | false =>
          refine .unread fun note other => ?_
          rw [Bool.false_or]
          split
          · next mark =>
              -- punctuation is written by its kind, whatever lies below it
              have kinds : (plug (step :: path) note).kind = (plug (step :: path) other).kind := by
                rw [plug_kind, plug_kind]
              rw [print_punctuation _ _ _ (by rwa [plug_kind]), print_punctuation _ _ _ (by rwa [plug_kind]),
                kinds]
          · rfl

theorem property_keeps (property : frame.kind = .property)
    (commented : (plug (frame :: path) given).Commented)
    (below : ∀ spot context, Keeps (fate false path) fun note =>
      (part settings spot (plug path note)).print context) :
    Keeps (if path.isEmpty || frame.before.any fun tree => tree.kind = .equals then fate false path
        else .unread) fun note => (part settings place (plug (frame :: path) note)).print context := by
  obtain ⟨front, last, cells, split⟩ := inner_plug settings path frame place given
  have kinds := kinds_of_cells cells
  generalize childPlace frame.kind place last (neighbour? frame.after) = spot at split
  generalize parts settings frame.kind place (some (topKind path)) frame.after = back at split
  generalize inside : valueContext (inner settings place (plug (frame :: path) given)) context = values
  have printed : ∀ note, (part settings place (plug (frame :: path) note)).print context =
      printProperty place (inner settings place (plug (frame :: path) note)) context :=
    fun note => print_property settings place context property
  have unended : Kind.semicolon ∉ front.map fun part => part.kind := by
    rw [kinds]
    intro member
    obtain ⟨token, early, semicolon⟩ := List.mem_map.mp member
    exact unended_property commented property token early semicolon
  have equals : (front.any fun part => part.kind = .equals) =
      frame.before.any fun tree => tree.kind = .equals := by
    have same := congrArg (List.any · fun kind => decide (kind = .equals)) kinds
    rw [List.any_map, List.any_map] at same
    exact same
  obtain ⟨commands, children⟩ := property_children_append context values unended false
  have shape : ∀ note, (part settings place (plug (frame :: path) note)).print context =
      (beginItem place context ++ commands) ++
        (propertyChildren context values (frame.before.any fun tree => tree.kind = .equals)
          (part settings spot (plug path note) :: back) ++ ([.write ";\n"] ++ beforeNode place)) := by
    intro note
    rw [printed, printProperty, value_context_plug settings frame path place context note given, inside, split,
      children, Bool.false_or, equals]
    simp only [List.append_assoc]
  apply keeps_congr shape
  apply keeps_last
  apply keeps_first
  cases path with
  | nil =>
      rw [if_pos (by simp)]
      have comment : ∀ seen note, propertyChildren context values seen
          (part settings spot (plug [] note) :: back) = inlineComment (part settings spot (plug [] note))
            context ++ propertyChildren context values seen back := by
        intro seen note
        exact property_children_comment (by rw [part_kind, plug_kind, topKind])
      apply keeps_congr (comment _)
      exact keeps_first _ (inline_comment_ends settings context spot)
  | cons step path =>
      rw [List.isEmpty_cons, Bool.false_or]
      exact property_child_keeps settings path _ context values step spot back (below spot values)

/-! ### Branches -/

theorem fate_unbranching (other : (topKind path).isBranch = false) : fate true path = fate false path := by
  cases path with
  | nil => rfl
  | cons step path =>
      rw [topKind] at other
      cases known : step.kind
      case elseBranch | elifBranch | elifdefBranch =>
        rw [known] at other
        cases other
      all_goals simp only [fate, known]

theorem branch_child_keeps (spot : Place)
    (below : Keeps (fate false path) fun note => (part settings spot (plug path note)).print context)
    (branches : (topKind path).isBranch = true → Keeps (fate true path) fun note =>
      (part settings spot (plug path note)).printBranch context) :
    Keeps (if closes path then .unread else fate true path) fun note =>
      branchChild context (part settings spot (plug path note)) := by
  by_cases branch : (topKind path).isBranch = true
  · have unclosed : closes path = false := by
      cases path with
      | nil => rfl
      | cons step path =>
          rw [topKind] at branch
          rw [closes, branch]
          rfl
    rw [unclosed]
    apply keeps_congr _ (branches branch)
    intro note
    rw [branchChild, part_kind, plug_kind, if_pos branch]
  · have other : (topKind path).isBranch = false := by simpa using branch
    have ends : ∀ note, (!(part settings spot (plug path note)).named &&
        decide (directiveKeyword (part settings spot (plug path note)).text = "#endif")) = closes path := by
      intro note
      rw [part_named, part_text, ← plug_is_endif path note, Tree.isEndif, plug_kind, other]
      rfl
    rw [fate_unbranching path other]
    have shape : ∀ note, branchChild context (part settings spot (plug path note)) =
        if closes path then [] else (part settings spot (plug path note)).print context := by
      intro note
      rw [branchChild, part_kind, plug_kind, if_neg branch, ends]
    apply keeps_congr shape
    split
    · exact .unread fun note other => rfl
    · exact below

theorem branch_children_keep (spot : Place) (front back : List Part)
    (child : Keeps (if closes path then .unread else fate true path) fun note =>
      branchChild context (part settings spot (plug path note))) :
    Keeps (if closes path then .unread else fate true path) fun note =>
      (front ++ part settings spot (plug path note) :: back).flatMap (branchChild context) := by
  apply keeps_congr fun note => by rw [List.flatMap_append, List.flatMap_cons]
  exact keeps_last _ (keeps_first _ child)

theorem condition_keeps (spot : Place) :
    Keeps (if path.isEmpty then .ended else .unread) fun note =>
      writes [(part settings spot (plug path note)).token, "\n"] := by
  cases path with
  | nil =>
      apply keeps_congr _ (ended_writes shown_strip "")
      intro note
      rw [String.empty_append]
      rfl
  | cons step path => exact .unread fun note other => rfl

/-- A comment in a branch: on its first line it ends the line, in its items it has
the fate it has there. -/
theorem branch_keeps (commented : (plug (frame :: path) given).Commented)
    (below : ∀ spot, Keeps (fate false path) fun note =>
      (part settings spot (plug path note)).print context)
    (branches : (topKind path).isBranch = true → ∀ spot, Keeps (fate true path) fun note =>
      (part settings spot (plug path note)).printBranch context) :
    Keeps (frame.fateInBranch path (fate true path)) fun note =>
      printBranch frame.kind (inner settings place (plug (frame :: path) note)) context := by
  obtain ⟨front, last, cells, split⟩ := inner_plug settings path frame place given
  have length : front.length = frame.before.length := by
    have lengths := congrArg List.length cells
    simpa using lengths
  generalize childPlace frame.kind place last (neighbour? frame.after) = spot at split
  generalize parts settings frame.kind place (some (topKind path)) frame.after = back at split
  apply keeps_congr fun note => congrArg (printBranch frame.kind · context) (split note)
  have child := branch_child_keeps settings path context spot (below spot) fun branch => branches branch spot
  have items := fun front => branch_children_keep settings path context spot front back child
  -- the first line has a keyword and, unless it is the last branch, a condition
  rw [fateInBranch, ← length]
  match front, length with
  | [], length =>
      have few : 0 < Tree.branchWords frame.kind := by
        rw [Tree.branchWords]
        split <;> omega
      rw [List.length_nil, if_pos few]
      cases path with
      | nil => exact absurd (List.length_eq_zero_iff.mp length.symm) (before_ne_nil commented rfl)
      | cons step path => exact .unread fun note other => rfl
  | [head], _ =>
      by_cases unconditioned : frame.kind = .elseBranch
      · rw [unconditioned]
        exact keeps_congr (fun note => print_branch_else head _ context) (keeps_last _ (items []))
      · have words : Tree.branchWords frame.kind = 2 := by rw [Tree.branchWords, if_neg unconditioned]
        have shape : ∀ note, printBranch frame.kind ([head] ++ part settings spot (plug path note) :: back)
            context = writes [context.indentation, directiveKeyword head.text, " "] ++
              writes [(part settings spot (plug path note)).token, "\n"] ++
                back.flatMap (branchChild context) :=
          fun note => print_branch_condition unconditioned head _ back context
        rw [words, List.length_singleton, if_pos (by decide)]
        apply keeps_congr shape
        exact keeps_between _ _ (condition_keeps settings path spot)
  | head :: condition :: rest, _ =>
      have enough : ¬(head :: condition :: rest).length < Tree.branchWords frame.kind := by
        rw [Tree.branchWords, List.length_cons, List.length_cons]
        split <;> omega
      rw [if_neg enough]
      by_cases unconditioned : frame.kind = .elseBranch
      · rw [unconditioned]
        exact keeps_congr (fun note => print_branch_else head _ context) (keeps_last _ (items (condition :: rest)))
      · exact keeps_congr (fun note => print_branch_condition unconditioned head condition _ context)
          (keeps_last _ (items rest))

theorem conditional_keeps (conditional : frame.kind.isConditional = true)
    (commented : (plug (frame :: path) given).Commented)
    (below : ∀ spot, Keeps (fate false path) fun note =>
      (part settings spot (plug path note)).print context)
    (branches : (topKind path).isBranch = true → ∀ spot, Keeps (fate true path) fun note =>
      (part settings spot (plug path note)).printBranch context) :
    Keeps (frame.fateInBranch path (fate true path)) fun note =>
      (part settings place (plug (frame :: path) note)).print context := by
  have printed : ∀ note, (part settings place (plug (frame :: path) note)).print context =
      printConditional place frame.kind (inner settings place (plug (frame :: path) note)) context :=
    fun note => print_conditional settings place context conditional
  apply keeps_congr printed
  exact keeps_first _ (keeps_first _ (branch_keeps settings path place context commented below branches))

/-! ### Nodes of unknown kind -/

theorem unhandled_keeps
    (unhandled : (frame.kind = .document || frame.kind = .unknown || frame.kind.isBranch) = true)
    (below : ∀ spot context, Keeps (fate false path) fun note =>
      (part settings spot (plug path note)).print context) (given : LineComment) :
    Keeps (fate false path) fun note => (part settings place (plug (frame :: path) note)).print context := by
  obtain ⟨front, last, _, split⟩ := inner_plug settings path frame place given
  generalize childPlace frame.kind place last (neighbour? frame.after) = spot at split
  generalize parts settings frame.kind place (some (topKind path)) frame.after = back at split
  have printed : ∀ note, (part settings place (plug (frame :: path) note)).print context =
      printUnhandled settings.warnUnhandled frame.name (strip frame.text)
        (inner settings place (plug (frame :: path) note)) context :=
    fun note => print_unhandled settings place context unhandled
  have count : ∀ note, (front ++ part settings spot (plug path note) :: back).length =
      front.length + (back.length + 1) := by
    intro note
    rw [List.length_append, List.length_cons]
  apply keeps_congr printed
  simp only [split, printUnhandled, count]
  apply keeps_last
  cases front with
  | nil => exact keeps_first _ (below spot context)
  | cons first rest =>
      simp only [List.cons_append, List.flatMap_append, List.flatMap_cons]
      exact keeps_last _ (keeps_last _ (keeps_first _ (below spot context.deeper)))

end

/-! ### Paths -/

theorem comment_keeps (settings : Settings) (place : Place) (context : Context) :
    Keeps .ended fun note => (part settings place (plug [] note)).print context := by
  apply keeps_congr _ (keeps_last (apart place) (keeps_last [.write context.indentation]
    (ended_writes shown_normal_comment "")))
  intro note
  rw [print_comment _ _ _ (plug_kind [] note), printComment, String.empty_append]
  rfl

theorem path_keeps (settings : Settings) {path : List Frame} {given : LineComment}
    (commented : (plug path given).Everywhere Tree.Commented) :
    (∀ place context, Keeps (fate false path) fun note =>
      (part settings place (plug path note)).print context) ∧
    ((topKind path).isBranch = true → ∀ place context, Keeps (fate true path) fun note =>
      (part settings place (plug path note)).printBranch context) := by
  induction path with
  | nil => exact ⟨comment_keeps settings, fun branch => absurd branch (by decide)⟩
  | cons frame path induction =>
      obtain ⟨here, children⟩ := Tree.everywhere_iff.mp commented
      obtain ⟨below, branches⟩ := induction (children _ (by simp [plug]))
      have others : ∀ tree ∈ frame.after, tree.Commented :=
        fun tree member => Tree.spreads.self (children tree (by simp [plug, member]))
      constructor
      · intro place context
        -- one rule for each kind, with the fate below it by induction
        cases known : frame.kind <;> simp only [fate, known]
        case fileVersion | plugin => exact header_keeps settings here place context (by rw [known]; rfl)
        case memoryReservation | deleteNode | deleteProperty =>
          exact statement_keeps settings here place context (by rw [known]; rfl)
        case omitIfNoRef | labeledItem =>
          exact wrapper_keeps settings path place context (by rw [known]; rfl) here others fun spot =>
            below spot context
        case node => exact node_keeps settings path place context known here others below
        case includeDirective | defineDirective | functionDirective | callDirective =>
          exact directive_keeps settings here place context (by rw [known]; rfl)
        case fileInclude => exact include_keeps settings path given place context known
        case property => exact property_keeps settings path place context known here below
        case integerCells => exact integer_cells_keep settings place context known
        case byteString => exact byte_string_keeps settings place context known
        case ifDirective | ifdefDirective =>
          exact conditional_keeps settings path place context (by rw [known]; rfl) here
            (fun spot => below spot context) fun branch spot => branches branch spot context
        case document | unknown | elseBranch | elifBranch | elifdefBranch =>
          exact unhandled_keeps settings path place context (by rw [known]; rfl) below given
        -- tokens and expressions are printed as they stand
        all_goals
          apply Keeps.unread
          intro note other
          rw [part_print, part_print, plug_kind, plug_kind, topKind, known]
          rfl
      · intro branch place context
        have fated : fate true (frame :: path) = frame.fateInBranch path (fate true path) := by
          rw [topKind] at branch
          cases known : frame.kind <;> rw [known] at branch <;> cases branch <;> simp only [fate, known] <;> rfl
        rw [fated]
        apply keeps_congr fun note => part_print_branch settings place context
        exact branch_keeps settings path place context here (fun spot => below spot context)
          fun inside spot => branches inside spot context

end DevicetreeFormat.Printer
