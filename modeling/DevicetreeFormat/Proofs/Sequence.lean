import DevicetreeFormat.Proofs.Completion
import DevicetreeFormat.Proofs.Shift.Items

/-!
# Items one after the other

What stands before and after an item decides only about the blank lines around
it: the commands of an item are those of the item alone, with a blank line before
a comment and a blank line at the end of a run or between a property and a node.
Hence a document is the texts of its items with blank lines between some of them,
and the body of a node is the document of its items one level further in.
-/

namespace DevicetreeFormat

set_option autoImplicit false

open Text

namespace Tree

/-- Whether a blank line stands between two neighbours. -/
def parted (item next : Tree) : Bool :=
  (next.kind = .comment && item.kind ≠ .comment) ||
  (item.kind.isDirective && !next.kind.isDirective) ||
  (item.kind.isHeader && !next.kind.isHeader) ||
  (item.kind = .fileInclude && next.kind ≠ .fileInclude) ||
  (item.innerKind = .property && next.innerKind = .node)

/-- The texts of items one after the other, with a blank line between neighbours
that are parted. -/
def weave (print : Tree → String) : List Tree → String
  | [] => ""
  | [item] => print item
  | item :: next :: rest =>
      print item ++ (if item.parted next then "\n" else "") ++ weave print (next :: rest)

theorem inner_kind_of_plain {tree : Tree} (plain : tree.kind.isWrapper = false) :
    tree.innerKind = tree.kind := by
  cases tree
  rw [kind, name] at plain
  rw [innerKind, plain]
  rfl

theorem last_inner_kind_concat (otherwise : Kind) (trees : List Tree) (last : Tree) :
    lastInnerKind otherwise (trees ++ [last]) = last.innerKind := by
  induction trees generalizing otherwise with
  | nil => rfl
  | cons tree rest induction => exact induction tree.innerKind

theorem inner_kind_of_wrapper {tree : Tree} (wrapper : tree.kind.isWrapper = true) {tokens : List Tree}
    {last : Tree} (children : tree.children = tokens ++ [last]) : tree.innerKind = last.innerKind := by
  cases tree
  rw [kind, name] at wrapper
  rw [Tree.children] at children
  rw [innerKind, wrapper, if_pos rfl, children, last_inner_kind_concat]

end Tree

namespace Printer

/-! ### Blank lines around an item -/

def lead (place : Place) (tree : Tree) : List Command :=
  if tree.kind = .comment then apart place else []

def trail (place : Place) (tree : Tree) : List Command :=
  if tree.kind.isHeader then endRun place Kind.isHeader
  else if tree.kind = .fileInclude then endRun place fun kind => kind = .fileInclude
  else if tree.kind.isConditional then endRun place Kind.isDirective
  else if tree.kind.isDirective then endRun place fun kind => kind.isDirective || kind.isBranch
  else if tree.innerKind = .property then beforeNode place
  else []

/-- Only the children of a wrapper see what surrounds their parent. -/
theorem inner_place (settings : Settings) {tree : Tree} (plain : tree.kind.isWrapper = false)
    (place other : Place) : inner settings place tree = inner settings other tree := by
  have each : ∀ (trees : List Tree) (before : Option Kind),
      parts settings tree.kind place before trees = parts settings tree.kind other before trees := by
    intro trees
    induction trees with
    | nil => intro before; rfl
    | cons first rest induction =>
        intro before
        rw [parts, parts, induction]
        simp [childPlace, plain]
  exact each tree.children none

/-- The commands of an item on the line of its wrapper, or on its own, when
nothing follows, and the blank line that its follower asks for. -/
def Follows (settings : Settings) (tree : Tree) : Prop :=
  ∀ (place alone : Place) (context : Context), alone.wrapped = place.wrapped → alone.follower = none →
    (part settings place tree).print context = (part settings alone tree).print context ++
      if tree.innerKind = .property then beforeNode place else []

/-- Tokens of a wrapper see nothing of its follower, and the wrapped item is the
last child. -/
theorem wrapper_children_follow (settings : Settings) {kind : Kind} (wrapper : kind.isWrapper = true)
    (place alone : Place) (context : Context) (nothing : alone.follower = none) {item : Tree}
    (wrapped : item.kind.isWrappable = true) (follows : Follows settings item) {tokens : List Tree}
    (plain : ∀ token ∈ tokens, token.kind.isWrappable = false) (before : Option Kind)
    (begun : before.isSome = true ∨ tokens ≠ []) :
    (parts settings kind place before (tokens ++ [item])).flatMap (wrapperChild context) =
      (parts settings kind alone before (tokens ++ [item])).flatMap (wrapperChild context) ++
        if item.innerKind = .property then beforeNode place else [] := by
  induction tokens generalizing before with
  | nil =>
      -- the wrapped item has no sibling after it and looks past its wrapper for a follower
      have preceded : before.isSome = true := by simpa using begun
      have colon : item.kind ≠ .colon := by
        intro same
        rw [same] at wrapped
        cases wrapped
      have printed := follows (childPlace kind place before none) (childPlace kind alone before none)
        context rfl (by simp [childPlace, wrapper, preceded, nothing])
      have follower : beforeNode (childPlace kind place before none) = beforeNode place := by
        simp [beforeNode, childPlace, wrapper, preceded]
      rw [Kind.isWrappable] at wrapped
      simp only [List.nil_append, parts, neighbour?, List.flatMap_singleton, wrapperChild, part_kind,
        colon, wrapped, if_false, if_true]
      rw [printed, follower]
  | cons token rest induction =>
      have here := plain token (by simp)
      have later := induction (fun other member => plain other (by simp [member])) (some token.kind) (.inl rfl)
      rw [Kind.isWrappable] at here
      simp only [List.cons_append, parts, List.flatMap_cons, later, wrapperChild, part_kind, here,
        Bool.false_eq_true, if_false, Part.beforeColon, part_after, Cell.token, part_text, childPlace,
        List.append_assoc]

theorem follows_of_wrappable (settings : Settings) {tree : Tree} (shaped : tree.Everywhere Tree.Shaped) :
    tree.kind.isWrappable = true → Follows settings tree := by
  apply Tree.spreads.induction _ shaped
  intro tree here _ children wrappable place alone context sameLine nothing
  obtain node | property | wrapper := Kind.is_wrappable_iff.mp wrappable
  · have plain : tree.kind.isWrapper = false := by rw [node]; rfl
    rw [print_node _ _ _ node, print_node _ _ _ node, Tree.inner_kind_of_plain plain, node,
      inner_place settings plain place alone, printNode, printNode, beginItem, beginItem, sameLine]
    simp
  · have plain : tree.kind.isWrapper = false := by rw [property]; rfl
    rw [print_property _ _ _ property, print_property _ _ _ property, Tree.inner_kind_of_plain plain,
      property, inner_place settings plain place alone, printProperty, printProperty, beginItem,
      beginItem, sameLine, beforeNode, beforeNode, nothing]
    simp
  · obtain ⟨long, form⟩ := here.wrapper wrapper
    obtain ⟨tokens, item, split, lines, wrapped⟩ := Tree.exists_of_is_wrapper_form form
    have filled : tokens ≠ [] := by
      rintro rfl
      simp [split] at long
    have follows := wrapper_children_follow settings wrapper place alone context nothing wrapped
      (children item (by simp [split]) wrapped) (fun token member => (lines token member).1) none
      (.inr filled)
    rw [print_wrapper _ _ _ wrapper, print_wrapper _ _ _ wrapper, printWrapper, printWrapper, beginItem,
      beginItem, sameLine, Tree.inner_kind_of_wrapper wrapper split, inner, inner, split, follows,
      List.append_assoc]

theorem print_include_run (place : Place) {parts : List Part} (filled : parts ≠ []) (context : Context) :
    printInclude place parts context =
      printInclude {} parts context ++ endRun place fun kind => kind = .fileInclude := by
  obtain ⟨path, _, found⟩ := exists_included_path filled
  simp [printInclude, found, endRun]

theorem print_directive_run (place : Place) (kind : Kind) {cells : List Cell} (filled : cells ≠ [])
    (context : Context) :
    printDirective place kind cells context =
      printDirective {} kind cells context ++ endRun place fun kind => kind.isDirective || kind.isBranch := by
  cases cells with
  | nil => exact absurd rfl filled
  | cons head rest => simp [printDirective, endRun]

/-- The kinds that follow a directive or a branch without an empty line. -/
def joins (kind next : Kind) : Bool :=
  if kind.isConditional then next.isDirective
  else if kind.isDirective then next.isDirective || next.isBranch
  else next.isBranch

theorem plain_of_directive {kind : Kind} (directive : kind.isDirective = true) :
    kind.isWrapper = false ∧ kind.isBranch = false := by
  cases kind <;> cases directive <;> decide

theorem trail_directive {tree : Tree} (directive : tree.kind.isDirective = true) (place : Place) :
    trail place tree = endRun place (joins tree.kind) := by
  unfold trail joins
  generalize tree.kind = kind at directive
  cases kind <;> cases directive <;> rfl

theorem print_trail (settings : Settings) {item : Tree} (directive : item.kind.isDirective = true)
    (filled : item.children ≠ []) (place : Place) (context : Context) :
    (part settings place item).print context =
      (part settings {} item).print context ++ trail place item := by
  have plain := (plain_of_directive directive).1
  rw [trail_directive directive]
  by_cases conditional : item.kind.isConditional = true
  · have similar : joins item.kind = Kind.isDirective := by
      funext next
      rw [joins, if_pos conditional]
    rw [print_conditional _ _ _ conditional, print_conditional _ _ _ conditional,
      inner_place settings plain place {}, similar]
    simp [printConditional, endRun]
  · have similar : joins item.kind = fun next => next.isDirective || next.isBranch := by
      funext next
      rw [joins, if_neg conditional, if_pos directive]
    have only : (item.kind.isDirective && !item.kind.isConditional) = true := by
      simp [directive, conditional]
    rw [print_directive _ _ _ only, print_directive _ _ _ only,
      print_directive_run place _ (by simpa using filled), similar]

/-- An item among others is the item alone, with blank lines around it. -/
theorem print_split (settings : Settings) {tree : Tree} (shaped : tree.Everywhere Tree.Shaped)
    (item : tree.kind.isItem = true) (place : Place) (unwrapped : place.wrapped = false)
    (context : Context) :
    (part settings place tree).print context =
      lead place tree ++ (part settings {} tree).print context ++ trail place tree := by
  have filled := Tree.filled_of_shaped (Tree.spreads.self shaped)
  have follows : tree.kind.isWrappable = true → Follows settings tree :=
    follows_of_wrappable settings shaped
  have plainKind : tree.kind.isWrapper = false → tree.innerKind = tree.kind := Tree.inner_kind_of_plain
  have sameInner : tree.kind.isWrapper = false → inner settings place tree = inner settings {} tree :=
    fun plain => inner_place settings plain place {}
  rw [Tree.Filled] at filled
  generalize known : tree.kind = kind at item follows plainKind sameInner filled
  -- only a comment looks back, and each kind looks ahead in at most one way
  rw [lead, trail, known]
  cases kind
  case comment =>
    rw [print_comment _ _ _ known, print_comment _ _ _ known, plainKind rfl]
    simp [printComment, apart, Kind.isHeader, Kind.isConditional, Kind.isDirective]
  case fileVersion | plugin =>
    have header : tree.kind.isHeader = true := by rw [known]; rfl
    rw [print_header _ _ _ header, print_header _ _ _ header]
    simp [printHeader, endRun, Kind.isHeader]
  case fileInclude =>
    have nonempty := inner_ne_nil settings {} (filled rfl)
    rw [print_include _ _ _ known, print_include _ _ _ known, sameInner rfl,
      print_include_run place nonempty]
    simp [Kind.isHeader]
  case memoryReservation | deleteNode | deleteProperty =>
    have statement : tree.kind.isStatement = true := by rw [known]; rfl
    rw [print_statement _ _ _ statement, print_statement _ _ _ statement, plainKind rfl]
    simp [Kind.isHeader, Kind.isConditional, Kind.isDirective]
  case includeDirective | defineDirective | functionDirective | callDirective | ifDirective
      | ifdefDirective =>
    have directive : tree.kind.isDirective = true := by rw [known]; rfl
    have trailing := trail_directive directive place
    rw [trail, known] at trailing
    rw [print_trail settings directive (filled rfl), trail_directive directive, known, trailing]
    rfl
  case omitIfNoRef | labeledItem | node | property =>
    rw [follows rfl place {} context unwrapped.symm rfl]
    simp [Kind.isHeader, Kind.isConditional, Kind.isDirective]
  all_goals cases item

/-! ### The end of an item -/

/-- The commands end a line that is not empty. -/
def EndsLine (commands : List Command) : Prop :=
  ∀ output : Output, ∃ front c, c ≠ '\n' ∧ (output.after commands).written = front ++ [c, '\n']

theorem ends_line_append (first : List Command) {second : List Command} (ends : EndsLine second) :
    EndsLine (first ++ second) := by
  intro output
  rw [Output.after_append]
  exact ends _

theorem ends_line_write {text : String} {body : List Char} {c : Char} (other : c ≠ '\n')
    (shape : text.toList = body ++ [c, '\n']) : EndsLine [.write text] := by
  intro output
  refine ⟨output.written ++ body, c, other, ?_⟩
  rw [Output.after_cons, Output.after_nil, Output.step, Output.written_write, shape, List.append_assoc]

theorem ends_line_word (lead : List String) {text : String} (word : IsWord text) :
    EndsLine (writes (lead ++ [text, "\n"])) := by
  obtain ⟨body, c, shape⟩ := List.eq_nil_or_concat text.toList |>.resolve_left word.filled
  rw [List.concat_eq_append] at shape
  have other : c ≠ '\n' := by
    rintro rfl
    exact word.2 (by rw [shape]; simp)
  rw [writes, List.map_append]
  apply ends_line_append
  intro output
  refine ⟨output.written ++ body, c, other, ?_⟩
  simp [Output.step, shape]

theorem ends_line_semicolon : EndsLine [.write ";\n"] := by
  have shape : ";\n".toList = [] ++ [';', '\n'] := rfl
  exact ends_line_write (by decide) shape

theorem node_ends_line (settings : Settings) {tree : Tree} (shaped : tree.Shaped) (place : Place)
    (context : Context) (node : tree.kind = .node) :
    EndsLine ((part settings place tree).print context) := by
  obtain ⟨header, opening, block, children, _, brace, form⟩ :=
    Tree.exists_of_is_node_form (shaped.node node)
  obtain ⟨items, closing, ending, rfl, _, _, semicolon⟩ := Tree.exists_of_is_block form
  rw [Tree.is_mark_iff] at semicolon
  have split : tree.children = (header ++ opening :: (items ++ [closing])) ++ [ending] := by
    rw [children]
    simp
  rw [print_node _ _ _ node, printNode]
  generalize bodyContext (inner settings place tree) context = body
  obtain ⟨front, earlier, parted, cells⟩ := exists_parts_concat settings tree.kind place none
    (header ++ opening :: (items ++ [closing])) ending
  have opened : Kind.leftBrace ∈ front.map fun part => part.kind := by
    rw [kinds_of_cells cells, ← brace]
    simp
  obtain ⟨commands, printed⟩ := node_children_opened body opened
  rw [inner, split, parted, printed, List.flatMap_singleton, print_semicolon _ _ _ semicolon.2]
  exact ends_line_append _ (ends_line_append _ ends_line_semicolon)

/-- An item with nothing after it ends its last line. -/
theorem item_ends_line (settings : Settings) {tree : Tree} (shaped : tree.Everywhere Tree.Shaped) :
    tree.kind.isItem = true → ∀ (place : Place) (context : Context), place.after = none →
      place.follower = none → EndsLine ((part settings place tree).print context) := by
  apply Tree.spreads.induction _ shaped
  intro tree here _ children item place context quiet unfollowed
  have noRun : ∀ similar, endRun place similar = [] := by
    intro similar
    rw [endRun, quiet]
  generalize known : tree.kind = kind at item
  cases kind
  case comment =>
    rw [print_comment _ _ _ known]
    exact ends_line_append _ (ends_line_word [_] (is_word_normal_comment (here.comment known)))
  case fileVersion | plugin =>
    have header : tree.kind.isHeader = true := by rw [known]; rfl
    rw [print_header _ _ _ header, printHeader, noRun, List.append_nil]
    exact ends_line_word [_] (header_solid here header).word
  case fileInclude =>
    obtain ⟨path, found, solid⟩ := include_solid here settings place known
    rw [print_include _ _ _ known]
    simp only [printInclude, found, noRun, List.append_nil]
    exact ends_line_word [_, _] solid.word
  case memoryReservation | deleteNode | deleteProperty =>
    rw [print_statement _ _ _ (by rw [known]; rfl)]
    exact ends_line_append [_, _] ends_line_semicolon
  case includeDirective | defineDirective | functionDirective | callDirective =>
    have directive : (tree.kind.isDirective && !tree.kind.isConditional) = true := by rw [known]; rfl
    obtain ⟨head, operands, cells, solid⟩ := directive_solid here directive tree.kind
    rw [print_directive _ _ _ directive, cells, printDirective, noRun, List.append_nil]
    exact ends_line_word [_] solid.word
  case ifDirective | ifdefDirective =>
    have shape : "#endif\n".toList = "#endi".toList ++ ['f', '\n'] := rfl
    rw [print_conditional _ _ _ (by rw [known]; rfl), printConditional, noRun, List.append_nil]
    exact ends_line_append _ (ends_line_append [_] (ends_line_write (by decide) shape))
  case node => exact node_ends_line settings here place context known
  case property =>
    rw [print_property _ _ _ known, printProperty, beforeNode, unfollowed, List.append_nil]
    exact ends_line_append _ ends_line_semicolon
  case omitIfNoRef | labeledItem =>
    have wrapper : tree.kind.isWrapper = true := by rw [known]; rfl
    obtain ⟨_, form⟩ := here.wrapper wrapper
    obtain ⟨tokens, last, split, _, wrapped⟩ := Tree.exists_of_is_wrapper_form form
    obtain ⟨front, earlier, concat, _⟩ := exists_parts_concat settings tree.kind place none tokens last
    -- the wrapped item ends the line, by induction
    have ends := children last (by simp [split]) (by rw [Kind.isItem, wrapped, Bool.or_true])
      (childPlace tree.kind place earlier none) context rfl (by simp [childPlace, unfollowed])
    have colon : last.kind ≠ .colon := by
      intro same
      rw [same] at wrapped
      cases wrapped
    rw [Kind.isWrappable] at wrapped
    rw [print_wrapper _ _ _ wrapper, printWrapper, inner, split, concat, List.flatMap_append,
      List.flatMap_singleton]
    apply ends_line_append
    apply ends_line_append
    simpa only [wrapperChild, part_kind, colon, wrapped, if_false, if_true] using ends
  all_goals cases item

/-! ### Between two items -/

/-- Whether the first of two neighbours asks for a blank line after it. -/
def breaks (item next : Tree) : Bool :=
  (item.kind.isDirective && !next.kind.isDirective) ||
  (item.kind.isHeader && !next.kind.isHeader) ||
  (item.kind = .fileInclude && next.kind ≠ .fileInclude) ||
  (item.innerKind = .property && next.innerKind = .node)

theorem trail_eq (item : Tree) {next : Tree} (named : next.isItem = true) {place : Place}
    (after : place.after = some ⟨next.kind, next.named, next.innerKind⟩)
    (follower : place.follower = place.after) :
    trail place item = if breaks item next then [.write "\n"] else [] := by
  rw [Tree.is_item_iff] at named
  have noBranch : next.kind.isBranch = false := by
    cases known : next.kind
    case elseBranch | elifBranch | elifdefBranch =>
      rw [known] at named
      cases named.2
    all_goals rfl
  have plainKind : item.kind.isWrapper = false → item.innerKind = item.kind := Tree.inner_kind_of_plain
  rw [trail, breaks, beforeNode, follower]
  simp only [endRun, after, named.1, noBranch, Bool.true_and, Bool.or_false]
  generalize item.kind = kind at plainKind
  cases kind <;> simp_all [Kind.isHeader, Kind.isConditional, Kind.isDirective, Kind.isWrapper, ite_and]

/-- The blank line between two items, from wherever it comes. -/
theorem gap_written {item next : Tree} {here : Place} (there : Place) {output : Output}
    (trailing : trail here item = if breaks item next then [.write "\n"] else [])
    (before : there.before = some item.kind) {front : List Char} {c : Char} (other : c ≠ '\n')
    (line : output.written = front ++ [c, '\n']) :
    (output.after (trail here item ++ lead there next)).written =
      output.written ++ if item.parted next then ['\n'] else [] := by
  -- a comment separates itself only where its neighbour has not left a blank line
  have separated : ∀ output : Output, output.written ≠ [] →
      output.separate.written = if endsBlankLine output.written then output.written
        else output.written ++ ['\n'] := by
    intro output filled
    simp [Output.written_separate, Output.fragments_ne_nil filled]
  have single : endsBlankLine output.written = false := by
    rw [line, ends_blank_line_concat, decide_eq_false other]
  have double : endsBlankLine (output.written ++ ['\n']) = true := by
    have shape : output.written ++ ['\n'] = (front ++ [c]) ++ ['\n', '\n'] := by simp [line]
    rw [shape, ends_blank_line_concat]
    rfl
  have parted : item.parted next =
      ((next.kind = .comment && item.kind ≠ .comment) || breaks item next) := by
    simp [Tree.parted, breaks, Bool.or_assoc]
  have separateLine := separated output (by rw [line]; simp)
  have separateBlank := separated (output.write "\n") (by simp)
  rw [Output.written_write] at separateBlank
  rw [trailing, lead, apart, before, parted]
  by_cases comment : next.kind = .comment <;> by_cases same : item.kind = .comment <;>
    cases breaks item next <;> simp_all [Output.step]

/-! ### Lists of items -/

def rootContext (settings : Settings) : Context :=
  { indentUnit := settings.indentUnit }

def alone (settings : Settings) (tree : Tree) : String :=
  (({} : Output).after ((part settings {} tree).print (rootContext settings))).text

section

variable (settings : Settings) {margin : String} {context : Context}
  (offset : Offset margin.toList (rootContext settings) context)

include offset

/-- Anywhere and at any depth an item is written as it is alone, with a margin. -/
theorem written_alone {tree : Tree} (shaped : tree.Everywhere Tree.Shaped)
    (item : tree.kind.isItem = true) (output : Output) :
    (output.after ((part settings {} tree).print context)).written =
      output.written ++ (indentLines margin (alone settings tree)).toList := by
  have carries := (tree_shifts margin.toList output.written settings shaped).item item {} offset rfl
    (by simp)
  have start : entry margin.toList output.written {} tree.kind [] output.written := by
    simp only [entry, Option.isSome_none, Bool.and_false, Bool.false_eq_true, if_false]
    exact ⟨rfl, by simp, by simp⟩
  have line := carries.carry {} output start
  rw [line.shifted, indentLines, String.toList_ofList]
  rfl

/-- Items one after the other, with something after them that asks for no blank
line. -/
theorem items_run {kind : Kind} (plain : kind.isWrapper = false) (parent : Place) {next : List Tree}
    (quiet : ∀ before tree, trail (childPlace kind parent before (neighbour? next)) tree = [])
    {item : Tree} {items : List Tree}
    (shaped : ∀ tree ∈ item :: items, tree.isItem = true ∧ tree.Everywhere Tree.Shaped)
    (before : Option Kind) (output : Output) :
    ∃ (later : Output) (last : Option Kind),
      later.written = output.written ++
        (Tree.weave (fun tree => indentLines margin (alone settings tree)) (item :: items)).toList ∧
      output.after ((part settings {} item).print context ++
          trail (childPlace kind parent before (neighbour? (items ++ next))) item ++
          (parts settings kind parent (some item.kind) (items ++ next)).flatMap
            fun child => child.print context) =
        later.after ((parts settings kind parent last next).flatMap fun child => child.print context) := by
  induction items generalizing item before output with
  | nil =>
      obtain ⟨isItem, everywhere⟩ := shaped item (by simp)
      rw [Tree.is_item_iff] at isItem
      refine ⟨output.after ((part settings {} item).print context), some item.kind, ?_, ?_⟩
      · exact written_alone settings offset everywhere isItem.2 output
      · rw [List.nil_append, quiet, List.append_nil, Output.after_append]
  | cons second rest induction =>
      obtain ⟨isItem, everywhere⟩ := shaped item (by simp)
      obtain ⟨secondItem, secondEverywhere⟩ := shaped second (by simp)
      rw [Tree.is_item_iff] at isItem
      have secondKind : second.kind.isItem = true := by
        rw [Tree.is_item_iff] at secondItem
        exact secondItem.2
      have here : trail (childPlace kind parent before (neighbour? (second :: rest ++ next))) item =
          if breaks item second then [.write "\n"] else [] :=
        trail_eq item secondItem rfl (by simp [childPlace, plain])
      have split := print_split settings secondEverywhere secondKind
        (childPlace kind parent (some item.kind) (neighbour? (rest ++ next)))
        (by simp [childPlace, plain]) context
      -- the item is written, then the blank line, and the others follow by induction
      obtain ⟨front, c, other, line⟩ := item_ends_line settings everywhere isItem.2 {} context rfl rfl output
      have gap := gap_written (childPlace kind parent (some item.kind) (neighbour? (rest ++ next))) here
        rfl other line
      obtain ⟨later, last, written, same⟩ := induction
        (fun tree member => shaped tree (List.mem_cons_of_mem _ member)) (some item.kind)
        ((output.after ((part settings {} item).print context)).after
          (trail (childPlace kind parent before (neighbour? (second :: rest ++ next))) item ++
            lead (childPlace kind parent (some item.kind) (neighbour? (rest ++ next))) second))
      refine ⟨later, last, ?_, ?_⟩
      · rw [written, gap, written_alone settings offset everywhere isItem.2 output, Tree.weave]
        split <;> simp
      · rw [← same, List.cons_append, parts, List.flatMap_cons, split]
        simp only [Output.after_append, List.append_assoc]

end

/-! ### Documents -/

theorem document_commands_spanning (settings : Settings) (items : List Tree) :
    documentCommands settings (.spanning .document items) =
      (parts settings .document {} none items).flatMap fun item => item.print (rootContext settings) := by
  rw [documentCommands, Tree.spanning_kind, Tree.spanning_children]
  rfl

theorem root_offset (settings : Settings) :
    Offset "".toList (rootContext settings) (rootContext settings) :=
  ⟨Int.le_refl 0, settings.indentUnit_blank, 0, rfl, rfl⟩

theorem indent_lines_empty (text : String) : indentLines "" text = text := by
  rw [indentLines, String.toList_empty, shift_from_no_margin, String.ofList_toList]

theorem print_first (settings : Settings) {tree : Tree} (shaped : tree.Everywhere Tree.Shaped)
    (item : tree.isItem = true) (after : Option Neighbour) (context : Context) :
    (part settings (childPlace .document {} none after) tree).print context =
      (part settings {} tree).print context ++ trail (childPlace .document {} none after) tree := by
  rw [Tree.is_item_iff] at item
  rw [print_split settings shaped item.2 (childPlace .document {} none after) rfl]
  simp [lead, apart, childPlace]

theorem format_tree_items {settings : Settings} {items : List Tree}
    (shaped : ∀ item ∈ items, item.isItem = true ∧ item.Everywhere Tree.Shaped) :
    (formatTree settings (.spanning .document items)).outcome = .ok (Tree.weave (alone settings) items) := by
  have complete : Complete (documentCommands settings (.spanning .document items)) := by
    apply document_complete
    intro item member
    exact Tree.spreads.mono (fun _ => Tree.filled_of_shaped) (shaped item member).2
  rw [format_tree_of_complete complete, document_commands_spanning]
  cases items with
  | nil => rfl
  | cons item rest =>
      obtain ⟨isItem, everywhere⟩ := shaped item (by simp)
      have quiet : ∀ before tree, trail (childPlace .document {} before (neighbour? [])) tree = [] := by
        intro before tree
        simp [trail, endRun, beforeNode, childPlace, neighbour?]
      have plain : Kind.document.isWrapper = false := rfl
      obtain ⟨later, last, written, same⟩ := items_run settings (root_offset settings) plain {} quiet
        shaped none {}
      rw [List.append_nil] at same
      simp only [indent_lines_empty, Output.written_empty, List.nil_append] at written
      rw [parts, List.flatMap_cons, print_first settings everywhere isItem, same]
      apply congrArg Except.ok
      rw [← String.toList_inj]
      exact written

theorem alone_ends (settings : Settings) {tree : Tree} (shaped : tree.Everywhere Tree.Shaped)
    (item : tree.isItem = true) :
    (alone settings tree).toList.head? ≠ some '\n' ∧
      ∃ front c, c ≠ '\n' ∧ (alone settings tree).toList = front ++ [c, '\n'] := by
  rw [Tree.is_item_iff] at item
  constructor
  · have carries := (tree_shifts [] [] settings shaped).item item.2 {} (root_offset settings) rfl (by simp)
    have start : entry [] [] {} tree.kind [] [] := by
      simp only [entry, Option.isSome_none, Bool.and_false, Bool.false_eq_true, if_false]
      exact ⟨rfl, by simp, by simp⟩
    exact (carries.carry {} {} start).first
  · exact item_ends_line settings shaped item.2 {} (rootContext settings) rfl rfl {}

/-- **Documents are printed item by item.** A document of items is the texts that
the items have alone, each of whole lines, with one blank line between neighbours
that are parted by their kinds. -/
theorem format_tree_item_by_item (settings : Settings) (items : List Tree)
    (shaped : ∀ item ∈ items, item.isItem = true ∧ item.Everywhere Tree.Shaped) :
    ∃ print : Tree → String,
      (∀ item ∈ items, (formatTree settings (.spanning .document [item])).outcome = .ok (print item) ∧
        (print item).toList.head? ≠ some '\n' ∧
        ∃ front c, c ≠ '\n' ∧ (print item).toList = front ++ [c, '\n']) ∧
      (formatTree settings (.spanning .document items)).outcome = .ok (Tree.weave print items) := by
  refine ⟨alone settings, ?_, format_tree_items shaped⟩
  intro item member
  obtain ⟨isItem, everywhere⟩ := shaped item member
  refine ⟨?_, alone_ends settings everywhere isItem⟩
  have single : ∀ other ∈ [item], other.isItem = true ∧ other.Everywhere Tree.Shaped := by
    simpa using ⟨isItem, everywhere⟩
  exact format_tree_items single

/-- Settings with a tab for each level. -/
def sampleSettings : Settings where
  layout := "corne"
  indentUnit := "\t"
  warnUnhandled := true
  layouts := []
  layout_known := rfl
  indentUnit_blank := rfl

/-- A declaration, an include, a directive, a comment, a labelled property and a
node with a comment in its body. -/
def itemsSample : List Tree :=
  [.spanning .fileVersion [.leaf .unknown "/dts-v1/", .mark .semicolon],
   .spanning .fileInclude [.leaf .unknown "/include/", .leaf .stringLiteral " \"a.dtsi\""],
   .spanning .defineDirective [.leaf .unknown "# define", .leaf .identifier "N", .leaf .directiveArgument ""],
   .leaf .comment "//note",
   .spanning .labeledItem
    [.leaf .identifier "l", .mark .colon,
     .spanning .property
      [.leaf .identifier "p", .mark .equals, .spanning .integerCells [.mark .leftAngle, .leaf .integerLiteral "1",
        .mark .rightAngle], .leaf .comment "// one", .mark .semicolon]],
   .spanning .node
    [.leaf .identifier "n", .mark .leftBrace, .leaf .comment "/* body */", .mark .rightBrace,
     .mark .semicolon]]

theorem format_tree_item_by_item_sample :
    (∀ item ∈ itemsSample, item.isItem = true ∧ item.Everywhere Tree.Shaped) ∧
      ∃ print : Tree → String,
        (∀ item ∈ itemsSample,
          (formatTree sampleSettings (.spanning .document [item])).outcome = .ok (print item) ∧
          (print item).toList.head? ≠ some '\n' ∧
          ∃ front c, c ≠ '\n' ∧ (print item).toList = front ++ [c, '\n']) ∧
        (formatTree sampleSettings (.spanning .document itemsSample)).outcome =
          .ok (Tree.weave print itemsSample) := by
  have shaped : ∀ item ∈ itemsSample, item.isItem = true ∧ item.Everywhere Tree.Shaped := by
    decide +kernel
  exact ⟨shaped, format_tree_item_by_item sampleSettings itemsSample shaped⟩

end Printer

end DevicetreeFormat
