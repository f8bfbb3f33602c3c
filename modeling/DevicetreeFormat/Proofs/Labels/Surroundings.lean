import DevicetreeFormat.Proofs.Comments.Walk
import DevicetreeFormat.Proofs.Similar

/-!
# What surrounds an item

An item stands at the top of a document, in the body of a node, in a branch of a
conditional or in a wrapper, at any depth. The nodes above it see of the item
whether it is named and what kind of item lies inside its wrappers. Items that
agree in this are printed between the same commands, in the same place and in
the same context.
-/

namespace DevicetreeFormat

set_option autoImplicit false

namespace Frame

/-- The tree with an item at the end of a path, outermost node first. -/
def enclose : List Frame → Tree → Tree
  | [], item => item
  | frame :: path, item => frame.fill (enclose path item)

/-- Whether a node has its name among the given first children. -/
def titled : List Tree → Bool
  | [] => false
  | tree :: rest => !Printer.passesName tree.kind rest || titled rest

/-- Whether the gap of every node on the path is a place for items: the body of a
named node, the contents of a branch, or the wrapped item of a wrapper. `branching`
says that the node above is a conditional or a branch. -/
def hosts : Bool → List Frame → Bool
  | _, [] => true
  | branching, frame :: path =>
      frame.named &&
        match frame.kind with
        | .node =>
            frame.before.any (fun tree => tree.kind = .leftBrace) && titled frame.before && hosts false path
        | .omitIfNoRef | .labeledItem =>
            (path.head?.all fun below => below.kind.isWrappable) && hosts false path
        | .ifDirective | .ifdefDirective =>
            Tree.branchWords frame.kind ≤ frame.before.length && hosts true path
        | .elseBranch | .elifBranch | .elifdefBranch =>
            branching && Tree.branchWords frame.kind ≤ frame.before.length && hosts true path
        | _ => false

/-- The four kinds of places for items. -/
theorem hosts_cases {branching : Bool} {frame : Frame} {path : List Frame}
    (hosted : hosts branching (frame :: path) = true) :
    frame.named = true ∧
      (frame.kind.isBranch = false ∧
          (frame.kind = .node ∧ (frame.before.any fun tree => tree.kind = .leftBrace) = true ∧
              titled frame.before = true ∧ hosts false path = true ∨
            frame.kind.isWrapper = true ∧ (path.head?.all fun below => below.kind.isWrappable) = true ∧
              hosts false path = true ∨
            frame.kind.isConditional = true ∧ Tree.branchWords frame.kind ≤ frame.before.length ∧
              hosts true path = true) ∨
        frame.kind.isBranch = true ∧ branching = true ∧
          Tree.branchWords frame.kind ≤ frame.before.length ∧ hosts true path = true) := by
  rw [hosts, Bool.and_eq_true] at hosted
  refine ⟨hosted.1, ?_⟩
  have place := hosted.2
  cases known : frame.kind <;> simp only [known, Bool.and_eq_true, decide_eq_true_eq] at place
  case node => exact .inl ⟨rfl, .inl ⟨rfl, place.1.1, place.1.2, place.2⟩⟩
  case omitIfNoRef | labeledItem => exact .inl ⟨rfl, .inr (.inl ⟨rfl, place⟩)⟩
  case ifDirective | ifdefDirective => exact .inl ⟨rfl, .inr (.inr ⟨rfl, place⟩)⟩
  case elseBranch | elifBranch | elifdefBranch => exact .inr ⟨rfl, place.1.1, place.1.2, place.2⟩
  all_goals cases place

end Frame

namespace Printer

open DevicetreeFormat.Frame

/-- What the nodes around a tree see of it. -/
def seen (tree : Tree) : Neighbour :=
  ⟨tree.kind, tree.named, tree.innerKind⟩

theorem enclose_seen (path : List Frame) {item other : Tree} (alike : (seen item).Alike (seen other)) :
    (seen (enclose path item)).Alike (seen (enclose path other)) := by
  have inner : ∀ path, (enclose path item).innerKind = (enclose path other).innerKind := by
    intro path
    induction path with
    | nil => exact alike.inner
    | cons frame path induction => exact fill_inner_kind frame induction
  cases path with
  | nil => exact alike
  | cons frame path => exact ⟨rfl, inner (frame :: path), .inl rfl⟩

/-! ### Children on both sides of a gap -/

/-- The children before a gap in their places, with `next` in the gap. -/
def partsBefore (settings : Settings) (kind : Kind) (parent : Place) (next : Option Neighbour) :
    Option Kind → List Tree → List Part
  | _, [] => []
  | before, tree :: rest =>
      part settings (childPlace kind parent before ((neighbour? rest).or next)) tree ::
        partsBefore settings kind parent next (some tree.kind) rest

theorem parts_before_cells (settings : Settings) (kind : Kind) (parent : Place) (next : Option Neighbour)
    (before : Option Kind) (trees : List Tree) :
    (partsBefore settings kind parent next before trees).map Part.toCell = trees.map Tree.cell := by
  induction trees generalizing before with
  | nil => rfl
  | cons tree rest induction => rw [partsBefore, List.map_cons, List.map_cons, part_cell, induction]

theorem parts_append (settings : Settings) (kind : Kind) (parent : Place) (before : Option Kind)
    (front : List Tree) (tree : Tree) (after : List Tree) :
    parts settings kind parent before (front ++ tree :: after) =
      partsBefore settings kind parent (some (seen tree)) before front ++
        part settings (childPlace kind parent ((front.getLast?.map Tree.kind).or before) (neighbour? after)) tree ::
          parts settings kind parent (some tree.kind) after := by
  induction front generalizing before with
  | nil => rfl
  | cons first rest induction =>
      have next : neighbour? (rest ++ tree :: after) = (neighbour? rest).or (some (seen tree)) := by
        cases rest <;> rfl
      have last : ((first :: rest).getLast?.map Tree.kind).or before =
          (rest.getLast?.map Tree.kind).or (some first.kind) := by
        rw [List.getLast?_cons]
        cases rest.getLast? <;> rfl
      rw [List.cons_append, parts, induction, next, last]
      rfl

/-- The children before the gap of a node with `tree` in it. -/
def ahead (settings : Settings) (place : Place) (frame : Frame) (tree : Tree) : List Part :=
  partsBefore settings frame.kind place (some (seen tree)) none frame.before

/-- The children after the gap. -/
def behind (settings : Settings) (place : Place) (frame : Frame) (tree : Tree) : List Part :=
  parts settings frame.kind place (some tree.kind) frame.after

/-- The place of the gap. -/
def spot (place : Place) (frame : Frame) : Place :=
  childPlace frame.kind place (frame.before.getLast?.map Tree.kind) (neighbour? frame.after)

theorem inner_fill (settings : Settings) (place : Place) (frame : Frame) (tree : Tree) :
    inner settings place (frame.fill tree) =
      ahead settings place frame tree ++ part settings (spot place frame) tree ::
        behind settings place frame tree := by
  rw [inner, fill_children, fill_kind, parts_append, Option.or_none]
  rfl

theorem passes_name_word (kind : Kind) (rest : List Tree) {tree : Tree} (word : tree.kind ≠ .colon)
    (after : List Tree) : passesName kind (rest ++ tree :: after) = passesName kind rest := by
  cases rest <;> simp [passesName, word]

/-- A node with a title has the same name whatever word stands in its gap. -/
theorem name_among_titled {before : List Tree} (named : titled before = true) {tree other : Tree}
    (word : tree.kind ≠ .colon) (also : other.kind ≠ .colon) (after : List Tree) :
    nameAmong (before ++ tree :: after) = nameAmong (before ++ other :: after) := by
  induction before with
  | nil => cases named
  | cons first rest induction =>
      rw [titled, Bool.or_eq_true, Bool.not_eq_true'] at named
      rw [List.cons_append, List.cons_append, name_among_cons, name_among_cons, passes_name_word _ _ word,
        passes_name_word _ _ also]
      split
      · next passed =>
          apply induction
          apply named.resolve_left
          rw [passed]
          decide
      · rfl

section

variable {tree other : Tree} (alike : (seen tree).Alike (seen other))

include alike

theorem ahead_similar (settings : Settings) (place : Place) (frame : Frame) :
    List.Forall₂ (Similar Eq true true) (ahead settings place frame tree)
      (ahead settings place frame other) := by
  have each : ∀ (trees : List Tree) (before : Option Kind), List.Forall₂ (Similar Eq true true)
      (partsBefore settings frame.kind place (some (seen tree)) before trees)
      (partsBefore settings frame.kind place (some (seen other)) before trees) := by
    intro trees
    induction trees with
    | nil => intro before; exact .nil
    | cons first rest induction =>
        intro before
        have next : Option.Rel Neighbour.Alike ((neighbour? rest).or (some (seen tree)))
            ((neighbour? rest).or (some (seen other))) := by
          cases rest with
          | nil => exact .some alike
          | cons second later => exact .some (Neighbour.alike_refl _)
        exact .cons (part_similar (comparable_self settings)
          (child_place_alike frame.kind place.alike_refl rfl next) first
          (table_lists_of_forall (fun _ => trivial) _ _ _))
          (induction (some first.kind))
  exact each frame.before none

theorem behind_similar (settings : Settings) (place : Place) (frame : Frame) :
    List.Forall₂ (Similar Eq true true) (behind settings place frame tree)
      (behind settings place frame other) := by
  have blind : ∀ kind : Kind, kind.isWrappable = true → decide (kind = .comment) = false := by
    intro kind wrappable
    cases kind <;> cases wrappable <;> rfl
  have comments : (some tree.kind).map (fun kind => decide (kind = Kind.comment)) =
      (some other.kind).map fun kind => decide (kind = Kind.comment) :=
    congrArg some (alike.test blind)
  exact parts_similar (comparable_self settings) frame.kind place.alike_refl _ _ comments frame.after
    (table_lists_in_of_forall (fun _ => trivial) _ _ _)

end

/-! ### Rules with a gap -/

theorem node_children_append (context : Context) {front : List Part}
    (opened : Kind.leftBrace ∈ front.map fun part => part.kind) (rest : List Part) :
    nodeChildren context (front ++ rest) =
      nodeChildren context front ++ rest.flatMap fun child => child.print context := by
  obtain ⟨commands, split⟩ := node_children_opened context opened
  have whole := split []
  rw [List.append_nil, List.flatMap_nil, List.append_nil] at whole
  rw [split, whole]

theorem print_branch_append {kind : Kind} {front : List Part}
    (words : Tree.branchWords kind ≤ front.length) (rest : List Part) (context : Context) :
    printBranch kind (front ++ rest) context =
      printBranch kind front context ++ rest.flatMap (branchChild context) := by
  by_cases last : kind = .elseBranch
  · rw [Tree.branchWords, if_pos last] at words
    obtain ⟨head, body, rfl⟩ := List.exists_cons_of_length_pos words
    rw [last, List.cons_append, print_branch_else, print_branch_else, List.flatMap_append, List.append_assoc]
  · rw [Tree.branchWords, if_neg last] at words
    obtain ⟨head, others, rfl⟩ := List.exists_cons_of_length_pos (Nat.lt_of_succ_lt words)
    obtain ⟨condition, body, rfl⟩ := List.exists_cons_of_length_pos (Nat.lt_of_succ_lt_succ words)
    rw [List.cons_append, List.cons_append, print_branch_condition last, print_branch_condition last,
      List.flatMap_append, List.append_assoc]

/-- Commands that print an item like `given` in the same place and context, between
the same commands. The context indents by `unit`. -/
def Surrounded (unit : String) (settings : Settings) (given : Tree) (family : Tree → List Command) :
    Prop :=
  ∃ front place context back, context.indentUnit = unit ∧ ∀ item, (seen given).Alike (seen item) →
    family item = front ++ (part settings place item).print context ++ back

theorem surrounded_congr {unit : String} {settings : Settings} {given : Tree}
    {family other : Tree → List Command} (surrounded : Surrounded unit settings given other)
    (same : ∀ item, (seen given).Alike (seen item) → family item = other item) :
    Surrounded unit settings given family := by
  obtain ⟨front, place, context, back, indents, shape⟩ := surrounded
  exact ⟨front, place, context, back, indents,
    fun item alike => (same item alike).trans (shape item alike)⟩

theorem surrounded_between {unit : String} {settings : Settings} {given : Tree}
    {family narrower : Tree → List Command} (surrounded : Surrounded unit settings given narrower)
    (front back : List Command)
    (split : ∀ item, (seen given).Alike (seen item) → family item = front ++ narrower item ++ back) :
    Surrounded unit settings given family := by
  obtain ⟨before, place, context, after, indents, shape⟩ := surrounded
  refine ⟨front ++ before, place, context, after ++ back, indents, fun item alike => ?_⟩
  rw [split item alike, shape item alike]
  simp only [List.append_assoc]

/-! ### Along a path -/

section

variable (settings : Settings) {given : Tree} {frame : Frame} {path : List Frame} (place : Place)
  (context : Context)

theorem ahead_kinds (frame : Frame) (tree : Tree) :
    (ahead settings place frame tree).map (fun part => part.kind) = frame.before.map Tree.kind :=
  kinds_of_cells (parts_before_cells settings frame.kind place (some (seen tree)) none frame.before)

theorem node_surrounded (node : frame.kind = .node)
    (opened : (frame.before.any fun tree => tree.kind = .leftBrace) = true)
    (named : titled frame.before = true)
    (word : ∀ item, (seen given).Alike (seen item) → (enclose path item).kind ≠ .colon)
    (below : ∀ (place : Place) (inside : Context), inside.indentUnit = context.indentUnit →
      Surrounded context.indentUnit settings given fun item =>
        (part settings place (enclose path item)).print inside) :
    Surrounded context.indentUnit settings given fun item =>
      (part settings place (enclose (frame :: path) item)).print context := by
  have brace : ∀ tree, Kind.leftBrace ∈ (ahead settings place frame tree).map fun part => part.kind := by
    intro tree
    rw [ahead_kinds]
    simpa using opened
  -- what stands in the gap does not make the node a keymap
  have body : ∀ item, (seen given).Alike (seen item) →
      bodyContext (inner settings place (frame.fill (enclose path item))) context =
        bodyContext (inner settings place (frame.fill (enclose path given))) context := by
    intro item alike
    have name := name_among_titled named (word item alike) (word given (Neighbour.alike_refl _)) frame.after
    rw [bodyContext, bodyContext, inner, inner, name_of_parts, name_of_parts, fill_children, fill_children, name]
  have indents : (bodyContext (inner settings place (frame.fill (enclose path given))) context).indentUnit =
      context.indentUnit := by
    rw [bodyContext]
    split <;> rfl
  generalize bodyContext (inner settings place (frame.fill (enclose path given))) context = inside
    at body indents
  apply surrounded_between (below (spot place frame) inside indents)
    (beginItem place context ++ nodeChildren inside (ahead settings place frame (enclose path given)))
    ((behind settings place frame (enclose path given)).flatMap fun child => child.print inside)
  intro item alike
  have around := enclose_seen path alike
  have kind : (frame.fill (enclose path item)).kind = .node := node
  rw [enclose, print_node _ _ _ kind, printNode, body item alike, inner_fill,
    node_children_append inside (brace _), List.flatMap_cons,
    node_children_agree (ahead_similar around settings place frame) agreement_eq (flagged_true inside),
    print_agree (behind_similar around settings place frame) agreement_eq (flagged_true inside)]
  simp only [List.append_assoc]

theorem wrapper_surrounded (wrapper : frame.kind.isWrapper = true)
    (wrapped : ∀ item, (seen given).Alike (seen item) → (enclose path item).kind.isWrappable = true)
    (below : ∀ place, Surrounded context.indentUnit settings given fun item =>
      (part settings place (enclose path item)).print context) :
    Surrounded context.indentUnit settings given fun item =>
      (part settings place (enclose (frame :: path) item)).print context := by
  apply surrounded_between (below (spot place frame))
    (beginItem place context ++
      (ahead settings place frame (enclose path given)).flatMap (wrapperChild context))
    ((behind settings place frame (enclose path given)).flatMap (wrapperChild context))
  intro item alike
  have around := enclose_seen path alike
  have kind : (frame.fill (enclose path item)).kind.isWrapper = true := wrapper
  rw [enclose, print_wrapper _ _ _ kind, printWrapper, inner_fill, List.flatMap_append,
    List.flatMap_cons, wrapper_child_item settings context (wrapped item alike),
    wrapper_children_agree (ahead_similar around settings place frame) agreement_eq (flagged_true context),
    wrapper_children_agree (behind_similar around settings place frame) agreement_eq (flagged_true context)]
  simp only [List.append_assoc]

theorem print_branch_fill (words : Tree.branchWords frame.kind ≤ frame.before.length) (tree : Tree) :
    printBranch frame.kind (inner settings place (frame.fill tree)) context =
      printBranch frame.kind (ahead settings place frame tree) context ++
        (branchChild context (part settings (spot place frame) tree) ++
          (behind settings place frame tree).flatMap (branchChild context)) := by
  have kinds := congrArg List.length (ahead_kinds settings place frame tree)
  rw [List.length_map, List.length_map] at kinds
  rw [inner_fill, print_branch_append (by rwa [kinds]), List.flatMap_cons]

theorem branch_surrounded (words : Tree.branchWords frame.kind ≤ frame.before.length)
    (below : ∀ place, Surrounded context.indentUnit settings given fun item =>
      branchChild context (part settings place (enclose path item))) :
    Surrounded context.indentUnit settings given fun item =>
      printBranch frame.kind (inner settings place (enclose (frame :: path) item)) context := by
  apply surrounded_between (below (spot place frame))
    (printBranch frame.kind (ahead settings place frame (enclose path given)) context)
    ((behind settings place frame (enclose path given)).flatMap (branchChild context))
  intro item alike
  have around := enclose_seen path alike
  rw [enclose, print_branch_fill settings place context words,
    print_branch_agree (ahead_similar around settings place frame) agreement_eq (flagged_true context),
    branch_children_agree (behind_similar around settings place frame) agreement_eq (flagged_true context)]
  simp only [List.append_assoc]

theorem conditional_surrounded (conditional : frame.kind.isConditional = true)
    (branch : Surrounded context.indentUnit settings given fun item =>
      printBranch frame.kind (inner settings place (enclose (frame :: path) item)) context) :
    Surrounded context.indentUnit settings given fun item =>
      (part settings place (enclose (frame :: path) item)).print context := by
  apply surrounded_between branch [] (writes [context.indentation, "#endif\n"] ++ endRun place Kind.isDirective)
  intro item alike
  have kind : (enclose (frame :: path) item).kind.isConditional = true := conditional
  rw [print_conditional _ _ _ kind, printConditional, List.append_assoc]
  rfl

end

theorem seen_wrappable {given item : Tree} (alike : (seen given).Alike (seen item))
    (wrappable : given.kind.isWrappable = true) : item.kind.isWrappable = true := by
  rcases alike.kind with same | ⟨_, also⟩
  · have kind : given.kind = item.kind := same
    rwa [← kind]
  · exact also

/-- An item in a wrapper has to be one that wrappers take. -/
def Fits (path : List Frame) (kind : Kind) : Prop :=
  ∀ frame ∈ path.getLast?, frame.kind.isWrapper = true → kind.isWrappable = true

theorem enclose_wrappable {frame : Frame} {path : List Frame} (wrapper : frame.kind.isWrapper = true)
    (heads : (path.head?.all fun below => below.kind.isWrappable) = true) {given item : Tree}
    (fits : Fits (frame :: path) given.kind) (alike : (seen given).Alike (seen item)) :
    (enclose path item).kind.isWrappable = true := by
  cases path with
  | nil => exact seen_wrappable alike (fits frame rfl wrapper)
  | cons next path => exact heads

theorem enclose_word {branching : Bool} {path : List Frame} (hosted : hosts branching path = true)
    {given item : Tree} (word : given.kind ≠ .colon) (alike : (seen given).Alike (seen item)) :
    (enclose path item).kind ≠ .colon := by
  intro colon
  cases path with
  | nil =>
      rw [enclose] at colon
      rcases alike.kind with same | ⟨_, wrappable⟩
      · exact word (Eq.trans same colon)
      · have kind : (seen item).kind = .colon := colon
        rw [kind] at wrappable
        cases wrappable
  | cons frame path =>
      have kind : frame.kind = .colon := colon
      simp [hosts, kind] at hosted

/-- Along a path through places for items, everything but the item is printed as it is
for `given`. -/
theorem path_surrounded (settings : Settings) {given : Tree} (named : given.named = true)
    (plain : given.kind.isBranch = false) (word : given.kind ≠ .colon) (path : List Frame)
    (fits : Fits path given.kind) : ∀ (place : Place) (context : Context),
    (hosts false path = true → Surrounded context.indentUnit settings given fun item =>
      (part settings place (enclose path item)).print context) ∧
    (hosts true path = true → Surrounded context.indentUnit settings given fun item =>
      branchChild context (part settings place (enclose path item))) := by
  induction path with
  | nil =>
      intro place context
      have itself : Surrounded context.indentUnit settings given fun item =>
          (part settings place item).print context :=
        ⟨[], place, context, [], rfl, fun item _ => by simp⟩
      refine ⟨fun _ => itself, fun _ => surrounded_congr itself fun item alike => ?_⟩
      have sameNamed : given.named = item.named := alike.named
      have same : given.kind.isBranch = item.kind.isBranch :=
        alike.test fun kind wrappable => (wrappable_outside_runs wrappable).2.2.1
      exact branch_child_item settings place context (sameNamed.symm.trans named) (same.symm.trans plain)
  | cons frame path induction =>
      intro place context
      have later : Fits path given.kind := by
        intro other member
        cases path with
        | nil => simp at member
        | cons next path => exact fits other (by rwa [List.getLast?_cons_cons])
      have print : ∀ branching, hosts branching (frame :: path) = true → frame.kind.isBranch = false →
          Surrounded context.indentUnit settings given fun item =>
            (part settings place (enclose (frame :: path) item)).print context := by
        intro branching hosted plain
        obtain ⟨_, ⟨_, kinds⟩ | ⟨branch, _⟩⟩ := hosts_cases hosted
        · rcases kinds with ⟨node, opened, title, below⟩ | ⟨wrapper, heads, below⟩ | ⟨conditional, words, below⟩
          · exact node_surrounded settings place context node opened title
              (fun item alike => enclose_word below word alike)
              fun place inside indents => indents ▸ (induction later place inside).1 below
          · exact wrapper_surrounded settings place context wrapper
              (fun item alike => enclose_wrappable wrapper heads fits alike)
              fun place => (induction later place context).1 below
          · exact conditional_surrounded settings place context conditional
              (branch_surrounded settings place context words fun place =>
                (induction later place context).2 below)
        · rw [plain] at branch
          cases branch
      constructor
      · intro hosted
        apply print false hosted
        obtain ⟨_, ⟨plain, _⟩ | ⟨_, impossible, _⟩⟩ := hosts_cases hosted
        · exact plain
        · cases impossible
      · intro hosted
        obtain ⟨frameNamed, ⟨plain, _⟩ | ⟨branch, _, words, below⟩⟩ := hosts_cases hosted
        · apply surrounded_congr (print true hosted plain)
          intro item _
          exact branch_child_item settings place context frameNamed plain
        · apply surrounded_congr (branch_surrounded settings place context words fun place =>
            (induction later place context).2 below)
          intro item _
          have kind : (enclose (frame :: path) item).kind.isBranch = true := branch
          rw [branchChild, part_kind, if_pos kind, part_print_branch]
          rfl

theorem document_surrounded_in (settings : Settings) {given : Tree} (named : given.named = true)
    (plain : given.kind.isBranch = false) (word : given.kind ≠ .colon) (root : Frame)
    {path : List Frame} (fits : Fits path given.kind) (hosted : hosts false path = true) :
    Surrounded settings.indentUnit settings given fun item =>
      documentCommands settings (enclose (root :: path) item) := by
  let context : Context := { indentUnit := settings.indentUnit }
  have below := (path_surrounded settings named plain word path fits (spot {} root) context).1 hosted
  apply surrounded_between below
    ((ahead settings {} root (enclose path given)).flatMap fun item => item.print context)
    ((behind settings {} root (enclose path given)).flatMap fun item => item.print context)
  intro item alike
  have around := enclose_seen path alike
  have commands : documentCommands settings (enclose (root :: path) item) =
      (inner settings {} (root.fill (enclose path item))).flatMap fun item => item.print context := rfl
  rw [commands, inner_fill, List.flatMap_append, List.flatMap_cons,
    print_agree (ahead_similar around settings {} root) agreement_eq (flagged_true context),
    print_agree (behind_similar around settings {} root) agreement_eq (flagged_true context)]
  simp only [List.append_assoc]

theorem document_surrounded (settings : Settings) {given : Tree} (wrappable : given.kind.isWrappable = true)
    (named : given.named = true) (root : Frame) {path : List Frame} (hosted : hosts false path = true) :
    ∃ front place context back, ∀ item, (seen given).Alike (seen item) →
      documentCommands settings (enclose (root :: path) item) =
        front ++ (part settings place item).print context ++ back := by
  have word : given.kind ≠ .colon := by
    intro colon
    rw [colon] at wrappable
    cases wrappable
  obtain ⟨front, place, context, back, _, shape⟩ := document_surrounded_in settings named
    (wrappable_outside_runs wrappable).2.2.1 word root (fun _ _ _ => wrappable) hosted
  exact ⟨front, place, context, back, shape⟩

end Printer

end DevicetreeFormat
