import DevicetreeFormat.Proofs.Rules
import Mathlib.Data.List.Forall2

/-!
# What rules cannot tell apart

A rule reads little of what surrounds a node: of the node before it whether it is
a comment, of the node after it a few kinds. A node, a property and a wrapper in
the place of one another make no difference to their neighbours. Places that
differ only in this are alike.

Parts are similar if they have the same cell, stand before like neighbours and
print commands that agree. What agreement means is left open: any relation that
goes through concatenation is kept by every rule.
-/

namespace DevicetreeFormat.Printer

set_option autoImplicit false

/-! ### Places -/

structure Neighbour.Alike (left right : Neighbour) : Prop where
  named : left.named = right.named
  inner : left.inner = right.inner
  kind : left.kind = right.kind ∨ left.kind.isWrappable = true ∧ right.kind.isWrappable = true

theorem Neighbour.alike_refl (next : Neighbour) : next.Alike next :=
  ⟨rfl, rfl, .inl rfl⟩

theorem alike_rel_refl (next : Option Neighbour) : Option.Rel Neighbour.Alike next next := by
  cases next with
  | none => exact .none
  | some next => exact .some next.alike_refl

theorem Neighbour.Alike.test {left right : Neighbour} (alike : left.Alike right) {test : Kind → Bool}
    (blind : ∀ kind : Kind, kind.isWrappable = true → test kind = false) :
    test left.kind = test right.kind := by
  rcases alike.kind with same | ⟨leftItem, rightItem⟩
  · rw [same]
  · rw [blind _ leftItem, blind _ rightItem]

/-- Places from which a rule sees the same. -/
structure Place.Alike (left right : Place) : Prop where
  before : left.before.map (fun kind => decide (kind = .comment)) =
    right.before.map fun kind => decide (kind = .comment)
  after : Option.Rel Neighbour.Alike left.after right.after
  wrapped : left.wrapped = right.wrapped
  follower : left.follower.map Neighbour.inner = right.follower.map Neighbour.inner

theorem Place.alike_refl (place : Place) : place.Alike place :=
  ⟨rfl, alike_rel_refl place.after, rfl, rfl⟩

section

variable {left right : Place} (alike : left.Alike right)

include alike

theorem apart_alike : apart left = apart right := by
  have seen : ∀ place : Place, apart place =
      if place.before.map (fun kind => decide (kind = .comment)) = some false then [.separate] else [] := by
    intro place
    rw [apart]
    cases place.before with
    | none => rfl
    | some kind => by_cases comment : kind = .comment <;> simp [comment]
  rw [seen, seen, alike.before]

theorem end_run_alike {similar : Kind → Bool}
    (blind : ∀ kind : Kind, kind.isWrappable = true → similar kind = false) :
    endRun left similar = endRun right similar := by
  have related := alike.after
  rw [endRun, endRun]
  generalize left.after = before, right.after = after at related
  cases related with
  | none => rfl
  | some next => simp only [next.named, next.test blind]

theorem begin_item_alike (context : Context) : beginItem left context = beginItem right context := by
  rw [beginItem, beginItem, alike.wrapped]

theorem before_node_alike : beforeNode left = beforeNode right := by
  have seen : ∀ place : Place, beforeNode place =
      if place.follower.map Neighbour.inner = some .node then [.write "\n"] else [] := by
    intro place
    rw [beforeNode]
    cases place.follower with
    | none => rfl
    | some next => simp
  rw [seen, seen, alike.follower]

end

/-! ### Parts -/

/-- The flags of a context are among the given ones. -/
structure Flagged (keymap bindings : Bool) (context : Context) : Prop where
  keymap : context.keymap = true → keymap = true
  bindings : context.bindings = true → bindings = true

theorem flagged_true (context : Context) : Flagged true true context :=
  ⟨fun _ => rfl, fun _ => rfl⟩

theorem Flagged.body {keymap bindings : Bool} {context : Context} (flagged : Flagged keymap bindings context)
    (parts : List Part) :
    Flagged (keymap || decide (Part.nameOf parts = "keymap")) bindings (bodyContext parts context) := by
  rw [bodyContext]
  split
  · next named => exact ⟨fun _ => by simp [named], flagged.bindings⟩
  · exact ⟨fun on => by simp [flagged.keymap on], flagged.bindings⟩

theorem Flagged.values {keymap bindings : Bool} {context : Context} (flagged : Flagged keymap bindings context)
    (parts : List Part) :
    Flagged keymap (bindings || decide (Part.nameOf parts = "bindings")) (valueContext parts context) := by
  rw [valueContext]
  split
  · next named => exact ⟨flagged.keymap, fun _ => by simp [named]⟩
  · exact ⟨flagged.keymap, fun on => by simp [flagged.bindings on]⟩

/-- A relation between commands that goes through concatenation. -/
structure Agreement (agree : List Command → List Command → Prop) : Prop where
  refl : ∀ commands, agree commands commands
  append : ∀ {left right laterLeft laterRight}, agree left right → agree laterLeft laterRight →
    agree (left ++ laterLeft) (right ++ laterRight)

theorem agreement_eq : Agreement Eq :=
  ⟨fun _ => rfl, fun first second => by rw [first, second]⟩

/-- Parts that print commands that agree, in contexts with no more than the given
flags, and that no rule tells apart otherwise. -/
structure Similar (agree : List Command → List Command → Prop) (keymap bindings : Bool)
    (left right : Part) : Prop where
  cell : left.toCell = right.toCell
  named : left.named = right.named
  after : Option.Rel Neighbour.Alike left.after right.after
  print : ∀ context, Flagged keymap bindings context → agree (left.print context) (right.print context)
  branch : left.kind.isBranch = true → ∀ context, Flagged keymap bindings context →
    agree (left.printBranch context) (right.printBranch context)

section

variable {agree : List Command → List Command → Prop} {keymap bindings : Bool}

section

variable {left right : Part} (similar : Similar agree keymap bindings left right)

include similar

theorem Similar.kind : left.kind = right.kind :=
  congrArg Cell.kind similar.cell

theorem Similar.text : left.text = right.text :=
  congrArg Cell.text similar.cell

theorem Similar.token : left.token = right.token :=
  congrArg Cell.token similar.cell

theorem Similar.before_colon : left.beforeColon = right.beforeColon := by
  have blind : ∀ kind : Kind, kind.isWrappable = true → decide (kind = .colon) = false := by
    intro kind wrappable
    cases kind <;> cases wrappable <;> rfl
  have related := similar.after
  rw [Part.beforeColon, Part.beforeColon]
  generalize left.after = before, right.after = after at related
  cases related with
  | none => rfl
  | some next => exact next.test blind

theorem inline_comment_similar (context : Context) : inlineComment left context = inlineComment right context := by
  have blind : ∀ kind : Kind, kind.isWrappable = true →
      (kind = .comma || kind = .semicolon || kind = .equals) = false := by
    intro kind wrappable
    cases kind <;> cases wrappable <;> rfl
  have related := similar.after
  rw [inlineComment, inlineComment, similar.text]
  generalize left.after = before, right.after = after at related
  cases related with
  | none => rfl
  | some next => simp only [next.test blind]

end

variable {lefts rights : List Part} (similar : List.Forall₂ (Similar agree keymap bindings) lefts rights)

include similar

theorem cells_similar : lefts.map Part.toCell = rights.map Part.toCell := by
  induction similar with
  | nil => rfl
  | cons first _ induction => rw [List.map_cons, List.map_cons, first.cell, induction]

theorem labels_similar : lefts.map labelOf = rights.map labelOf := by
  induction similar with
  | nil => rfl
  | cons first _ induction =>
      rw [List.map_cons, List.map_cons, induction, labelOf, labelOf, first.named, first.token]

theorem name_of_similar : Part.nameOf lefts = Part.nameOf rights := by
  induction similar with
  | nil => rfl
  | cons first _ induction =>
      rw [Part.nameOf, Part.nameOf, induction, first.kind, first.before_colon, first.token]

theorem body_context_similar (context : Context) : bodyContext lefts context = bodyContext rights context := by
  rw [bodyContext, bodyContext, name_of_similar similar]

theorem value_context_similar (context : Context) : valueContext lefts context = valueContext rights context := by
  rw [valueContext, valueContext, name_of_similar similar]

/-! ### Rules -/

variable (agreement : Agreement agree)

include agreement

theorem flatMap_agree {print : Part → List Command}
    (each : ∀ left right, Similar agree keymap bindings left right → agree (print left) (print right)) :
    agree (lefts.flatMap print) (rights.flatMap print) := by
  induction similar with
  | nil => exact agreement.refl []
  | cons first _ induction =>
      rw [List.flatMap_cons, List.flatMap_cons]
      exact agreement.append (each _ _ first) induction

variable {context : Context} (flagged : Flagged keymap bindings context)

include flagged

theorem print_agree : agree (lefts.flatMap fun child => child.print context)
    (rights.flatMap fun child => child.print context) :=
  flatMap_agree similar agreement fun _ _ child => child.print context flagged

theorem wrapper_children_agree :
    agree (lefts.flatMap (wrapperChild context)) (rights.flatMap (wrapperChild context)) := by
  apply flatMap_agree similar agreement
  intro left right child
  rw [wrapperChild, wrapperChild, child.kind, child.before_colon, child.token]
  split
  · exact agreement.refl _
  · split
    · exact child.print context flagged
    · exact agreement.refl _

theorem node_children_agree : agree (nodeChildren context lefts) (nodeChildren context rights) := by
  induction similar with
  | nil => exact agreement.refl []
  | cons first later induction =>
      rw [nodeChildren, nodeChildren, first.kind, first.token]
      split
      · exact print_agree (.cons first later) agreement flagged
      · exact agreement.append (agreement.refl [_]) induction

theorem property_children_agree (outer : Context) (seenEquals : Bool) :
    agree (propertyChildren outer context seenEquals lefts)
      (propertyChildren outer context seenEquals rights) := by
  induction similar generalizing seenEquals with
  | nil => exact agreement.refl []
  | @cons left right _ _ first _ induction =>
      have printed := first.print context flagged
      have kind := first.kind
      by_cases ending : right.kind = .semicolon
      · rw [property_children_end ending, property_children_end (kind.trans ending)]
        exact agreement.refl []
      · by_cases comment : right.kind = .comment
        · rw [property_children_comment comment, property_children_comment (kind.trans comment),
            inline_comment_similar first]
          exact agreement.append (agreement.refl _) (induction _)
        · rw [property_children_child ending comment,
            property_children_child (kind ▸ ending) (kind ▸ comment), propertyChild, propertyChild, kind,
            first.token]
          apply agreement.append _ (induction _)
          split
          · exact printed
          · exact agreement.refl _

theorem branch_children_agree :
    agree (lefts.flatMap (branchChild context)) (rights.flatMap (branchChild context)) := by
  apply flatMap_agree similar agreement
  intro left right child
  rw [branchChild, branchChild, ← child.kind, child.named, child.text]
  split
  · next branch => exact child.branch branch context flagged
  · split
    · exact agreement.refl []
    · exact child.print context flagged

theorem print_branch_agree (kind : Kind) :
    agree (printBranch kind lefts context) (printBranch kind rights context) := by
  cases similar with
  | nil => exact agreement.refl _
  | cons head body =>
      rw [printBranch, printBranch, head.text]
      cases body with
      | nil => exact agreement.refl _
      | cons first rest =>
          by_cases last : kind = .elseBranch
          · simp only [splitCondition, last, if_true]
            exact agreement.append (agreement.refl _)
              (branch_children_agree (.cons first rest) agreement flagged)
          · simp only [splitCondition, last, if_false, branchLine, first.token]
            exact agreement.append (agreement.refl _) (branch_children_agree rest agreement flagged)

theorem print_unhandled_agree {warnLeft warnRight : Bool} (name token : String)
    (reports : ∀ message, agree (if warnLeft then [.report message] else [])
      (if warnRight then [.report message] else [])) :
    agree (printUnhandled warnLeft name token lefts context)
      (printUnhandled warnRight name token rights context) := by
  have deeper : Flagged keymap bindings context.deeper := ⟨flagged.keymap, flagged.bindings⟩
  unfold printUnhandled
  rw [similar.length_eq]
  apply agreement.append (reports _)
  cases similar with
  | nil => exact agreement.refl _
  | cons first later =>
      exact agreement.append (first.print context flagged) (print_agree later agreement deeper)

end

/-! ### Nodes of any kind -/

theorem wrappable_outside_runs {kind : Kind} (wrappable : kind.isWrappable = true) :
    kind.isHeader = false ∧ kind.isDirective = false ∧ kind.isBranch = false ∧ kind ≠ .fileInclude := by
  cases kind <;> cases wrappable <;> decide

/-- Similar children are printed by commands that agree, if the cell lists and the
messages about unknown nodes do. -/
theorem print_node_of_kind_agree {agree : List Command → List Command → Prop} (agreement : Agreement agree)
    {near far : Settings} {place other : Place} (alike : place.Alike other) {kind : Kind}
    (name text : String) {keymap bindings : Bool} {lefts rights : List Part}
    (similar : List.Forall₂ (Similar agree
      (keymap || (kind = .node && Part.nameOf lefts = "keymap"))
      (bindings || (kind = .property && Part.nameOf lefts = "bindings"))) lefts rights)
    {context : Context} (flagged : Flagged keymap bindings context)
    (tables : kind = .integerCells →
      agree (printCells near.activeLayout (lefts.map Part.toCell) context)
        (printCells far.activeLayout (lefts.map Part.toCell) context))
    (reports : ∀ message, agree (if near.warnUnhandled then [.report message] else [])
      (if far.warnUnhandled then [.report message] else [])) :
    agree (printNodeOfKind near place kind name text lefts context)
      (printNodeOfKind far other kind name text rights context) := by
  have cells := cells_similar similar
  have header := end_run_alike alike fun _ wrappable => (wrappable_outside_runs wrappable).1
  have directives := end_run_alike alike fun _ wrappable => (wrappable_outside_runs wrappable).2.1
  have directive : endRun place (fun kind => kind.isDirective || kind.isBranch) =
      endRun other fun kind => kind.isDirective || kind.isBranch := by
    apply end_run_alike alike
    intro kind wrappable
    obtain ⟨_, outside, noBranch, _⟩ := wrappable_outside_runs wrappable
    rw [outside, noBranch]
    rfl
  have inclusion : endRun place (fun kind => kind = .fileInclude) =
      endRun other fun kind => kind = .fileInclude := by
    apply end_run_alike alike
    intro kind wrappable
    exact decide_eq_false (wrappable_outside_runs wrappable).2.2.2
  have begins := begin_item_alike alike context
  cases kind
  case comment =>
    simp only [printNodeOfKind, printComment, apart_alike alike]
    exact agreement.refl _
  case fileVersion | plugin =>
    simp only [printNodeOfKind, printHeader, header, cells]
    exact agreement.refl _
  case fileInclude =>
    have path : printInclude place lefts context = printInclude other rights context := by
      rw [print_include_congr place (congrArg pathLabel (labels_similar similar)), printInclude, printInclude,
        inclusion]
    simp only [printNodeOfKind, path]
    exact agreement.refl _
  case memoryReservation | deleteNode | deleteProperty =>
    simp only [printNodeOfKind, cells]
    exact agreement.refl _
  case includeDirective | defineDirective | functionDirective | callDirective =>
    simp only [printNodeOfKind, printDirective, directive, cells]
    exact agreement.refl _
  case omitIfNoRef | labeledItem =>
    simp only [printNodeOfKind, printWrapper, begins]
    exact agreement.append (agreement.refl _)
      (wrapper_children_agree similar agreement ⟨by simpa using flagged.keymap, by simpa using flagged.bindings⟩)
  case ifDirective | ifdefDirective =>
    simp only [printNodeOfKind, printConditional, directives]
    apply agreement.append _ (agreement.refl _)
    apply agreement.append _ (agreement.refl _)
    exact print_branch_agree similar agreement
      ⟨by simpa using flagged.keymap, by simpa using flagged.bindings⟩ _
  case node =>
    have body : Flagged (keymap || (Kind.node = .node && Part.nameOf lefts = "keymap"))
        (bindings || (Kind.node = .property && Part.nameOf lefts = "bindings"))
        (bodyContext lefts context) := by
      simpa using flagged.body lefts
    simp only [printNodeOfKind, printNode, begins, ← body_context_similar similar]
    exact agreement.append (agreement.refl _) (node_children_agree similar agreement body)
  case property =>
    have values : Flagged (keymap || (Kind.property = .node && Part.nameOf lefts = "keymap"))
        (bindings || (Kind.property = .property && Part.nameOf lefts = "bindings"))
        (valueContext lefts context) := by
      simpa using flagged.values lefts
    simp only [printNodeOfKind, printProperty, begins, before_node_alike alike,
      ← value_context_similar similar]
    apply agreement.append _ (agreement.refl _)
    apply agreement.append _ (agreement.refl _)
    exact agreement.append (agreement.refl _) (property_children_agree similar agreement values _ _)
  case integerCells =>
    simp only [printNodeOfKind, ← cells]
    exact tables rfl
  case byteString =>
    simp only [printNodeOfKind, cells]
    exact agreement.refl _
  case document | elseBranch | elifBranch | elifdefBranch | unknown =>
    exact print_unhandled_agree similar agreement
      ⟨by simpa using flagged.keymap, by simpa using flagged.bindings⟩ _ _ reports
  all_goals exact agreement.refl _

/-! ### Trees -/

theorem child_place_alike (kind : Kind) {place other : Place} (alike : place.Alike other)
    {before earlier : Option Kind}
    (comments : before.map (fun kind => decide (kind = .comment)) =
      earlier.map fun kind => decide (kind = .comment))
    {after later : Option Neighbour} (related : Option.Rel Neighbour.Alike after later) :
    (childPlace kind place before after).Alike (childPlace kind other earlier later) := by
  have present : before.isSome = earlier.isSome := by
    simpa using congrArg Option.isSome comments
  have inner : after.map Neighbour.inner = later.map Neighbour.inner := by
    cases related with
    | none => rfl
    | some next => exact congrArg some next.inner
  refine ⟨comments, related, ?_, ?_⟩
  · simp only [childPlace, present]
  · simp only [childPlace, present]
    split
    · exact alike.follower
    · exact inner

/-- Settings under which binding tables that satisfy `condition`, and messages about
unknown nodes, give commands that agree. -/
structure Comparable (agree : List Command → List Command → Prop) (condition : List Cell → Prop)
    (near far : Settings) : Prop where
  agreement : Agreement agree
  tables : ∀ cells context, condition cells → agree (printCells near.activeLayout cells context)
    (printCells far.activeLayout cells context)
  reports : ∀ message, agree (if near.warnUnhandled then [.report message] else [])
    (if far.warnUnhandled then [.report message] else [])

theorem comparable_self (settings : Settings) : Comparable Eq (fun _ => True) settings settings :=
  ⟨agreement_eq, fun _ _ _ => rfl, fun _ => rfl⟩

mutual

/-- A tree in like places is printed by commands that agree, if those of its binding
tables do. -/
theorem part_similar {agree : List Command → List Command → Prop} {condition : List Cell → Prop}
    {near far : Settings} (comparable : Comparable agree condition near far)
    {place other : Place} (alike : place.Alike other) :
    ∀ {keymap bindings : Bool} (tree : Tree), tree.TableLists condition keymap bindings →
      Similar agree keymap bindings (part near place tree) (part far other tree)
  | keymap, bindings, .branch name text named start stop children, lists => by
      obtain ⟨here, below⟩ := lists
      have similar := parts_similar comparable (Kind.ofName name) alike none none rfl children below
      have agreement := comparable.agreement
      refine ⟨rfl, rfl, alike.after, ?_, ?_⟩
      · intro context flagged
        apply print_node_of_kind_agree agreement alike name text _ flagged _ comparable.reports
        · rw [name_of_parts]
          exact similar
        · intro list
          rw [parts_cells]
          by_cases aligned : context.alignsBindings = true
          · rw [Context.alignsBindings, Bool.and_eq_true] at aligned
            apply comparable.tables
            apply here list
            · rw [flagged.keymap aligned.1]
              rfl
            · rw [flagged.bindings aligned.2]
              rfl
          · rw [printCells, printCells, if_neg aligned, if_neg aligned]
            exact agreement.refl _
      · intro _ context flagged
        exact print_branch_agree similar agreement
          ⟨fun on => by simp [flagged.keymap on], fun on => by simp [flagged.bindings on]⟩ _

theorem parts_similar {agree : List Command → List Command → Prop} {condition : List Cell → Prop}
    {near far : Settings} (comparable : Comparable agree condition near far) (kind : Kind)
    {place other : Place} (alike : place.Alike other) (before earlier : Option Kind)
    (comments : before.map (fun kind => decide (kind = .comment)) =
      earlier.map fun kind => decide (kind = .comment)) :
    ∀ {keymap bindings : Bool} (trees : List Tree), Tree.TableListsIn condition keymap bindings trees →
      List.Forall₂ (Similar agree keymap bindings) (parts near kind place before trees)
        (parts far kind other earlier trees)
  | _, _, [], _ => .nil
  | _, _, tree :: rest, lists =>
      .cons (part_similar comparable (child_place_alike kind alike comments (alike_rel_refl _)) tree lists.1)
        (parts_similar comparable kind alike _ _ rfl rest lists.2)

end

mutual

/-- What holds of all cell lists holds of those in tables. -/
theorem table_lists_of_forall {condition : List Cell → Prop} (all : ∀ cells, condition cells) :
    ∀ (keymap bindings : Bool) (tree : Tree), tree.TableLists condition keymap bindings
  | _, _, .branch _ _ _ _ _ children =>
      ⟨fun _ _ _ => all _, table_lists_in_of_forall all _ _ children⟩

theorem table_lists_in_of_forall {condition : List Cell → Prop} (all : ∀ cells, condition cells) :
    ∀ (keymap bindings : Bool) (trees : List Tree), Tree.TableListsIn condition keymap bindings trees
  | _, _, [] => trivial
  | _, _, tree :: rest => ⟨table_lists_of_forall all _ _ tree, table_lists_in_of_forall all _ _ rest⟩

end

end DevicetreeFormat.Printer
