import DevicetreeFormat.Proofs.Completion

/-!
# Comments between any two children

A comment may stand between any two children of a node, also where the grammar
has no place for it. A path is the list of nodes above a comment, each with a gap
where the next one stands, and the fate of a line comment is read off the path:
whether a line break follows it, whether it is printed with more on its line, or
whether its node is not read at all.
-/

namespace DevicetreeFormat

set_option autoImplicit false

open Text

/-- The source of a comment that runs to the end of its line. -/
structure LineComment where
  text : String
  start : Nat
  stop : Nat
  slashes : isLineComment (strip text) = true
  line : OneLine text

def LineComment.tree (note : LineComment) : Tree :=
  .branch "comment" note.text true note.start note.stop []

/-- A node with a gap among its children. -/
structure Frame where
  name : String
  text : String
  named : Bool
  start : Nat
  stop : Nat
  before : List Tree
  after : List Tree

namespace Frame

def kind (frame : Frame) : Kind :=
  Kind.ofName frame.name

def fill (frame : Frame) (tree : Tree) : Tree :=
  .branch frame.name frame.text frame.named frame.start frame.stop (frame.before ++ tree :: frame.after)

/-- The tree with a comment at the end of a path, outermost node first. -/
def plug : List Frame → LineComment → Tree
  | [], note => note.tree
  | frame :: path, note => frame.fill (plug path note)

def topKind : List Frame → Kind
  | [] => .comment
  | frame :: _ => frame.kind

/-- Whether the top node is the closing keyword of a conditional. -/
def closes : List Frame → Bool
  | [] => false
  | frame :: _ => !frame.kind.isBranch && !frame.named && directiveKeyword frame.text = "#endif"

@[simp] theorem fill_kind (frame : Frame) (tree : Tree) : (frame.fill tree).kind = frame.kind := rfl

@[simp] theorem fill_children (frame : Frame) (tree : Tree) :
    (frame.fill tree).children = frame.before ++ tree :: frame.after := rfl

/-- A child counts for the inner kind by its own inner kind only. -/
theorem fill_inner_kind (frame : Frame) {tree other : Tree} (same : tree.innerKind = other.innerKind) :
    (frame.fill tree).innerKind = (frame.fill other).innerKind := by
  have last : ∀ (trees : List Tree) (otherwise : Kind),
      Tree.lastInnerKind otherwise (trees ++ tree :: frame.after) =
        Tree.lastInnerKind otherwise (trees ++ other :: frame.after) := by
    intro trees
    induction trees with
    | nil =>
        intro otherwise
        rw [List.nil_append, List.nil_append, Tree.lastInnerKind, Tree.lastInnerKind, same]
    | cons first rest induction =>
        intro otherwise
        exact induction first.innerKind
  rw [fill, fill, Tree.innerKind, Tree.innerKind, last]

@[simp] theorem plug_kind (path : List Frame) (note : LineComment) : (plug path note).kind = topKind path := by
  cases path <;> rfl

theorem plug_named (path : List Frame) (note other : LineComment) :
    (plug path note).named = (plug path other).named := by
  cases path <;> rfl

theorem plug_is_endif (path : List Frame) (note : LineComment) : (plug path note).isEndif = closes path := by
  cases path <;> rfl

theorem plug_inner_kind (path : List Frame) (note other : LineComment) :
    (plug path note).innerKind = (plug path other).innerKind := by
  induction path with
  | nil => rfl
  | cons frame path induction => exact fill_inner_kind frame induction

end Frame

/-! ### Trees with comments -/

namespace Tree

def isCode (tree : Tree) : Bool :=
  tree.kind ≠ .comment

/-- The node without the comments among its children. -/
def plain : Tree → Tree
  | branch name text named start stop children =>
      branch name text named start stop (children.filter isCode)

/-- The rule of the grammar for a node with comments between its children. A later
branch of a conditional may end in a comment, since its last child is followed by
a child of the conditional. -/
@[mk_iff] structure Commented (tree : Tree) : Prop where
  shaped : tree.plain.Shaped
  leading : tree.children.head?.map kind ≠ some .comment
  trailing : tree.kind.isBranch = false → tree.children.getLast?.map kind ≠ some .comment

instance (tree : Tree) : Decidable tree.Commented :=
  decidable_of_iff' _ (commented_iff tree)

@[simp] theorem plain_kind (tree : Tree) : tree.plain.kind = tree.kind := by
  cases tree
  rfl

@[simp] theorem plain_children (tree : Tree) : tree.plain.children = tree.children.filter isCode := by
  cases tree
  rfl

theorem filled_of_commented {tree : Tree} (commented : tree.Commented) : tree.Filled := by
  intro needy
  have filled := filled_of_shaped commented.shaped (by rwa [plain_kind])
  rintro childless
  rw [plain_children, childless] at filled
  exact filled rfl

theorem commented_line {tree : Tree} (commented : tree.Commented) (comment : tree.kind = .comment) :
    OneLine tree.text := by
  have line := commented.shaped.comment (by rwa [plain_kind])
  cases tree
  exact line

end Tree

/-! ### The fate of a comment -/

/-- What becomes of a line comment. -/
inductive Fate
  /-- It is printed with a line break after it. -/
  | ended
  /-- It is printed with more on its line. -/
  | joined
  /-- Its node is not read. -/
  | unread
deriving DecidableEq

namespace Frame

/-- The fate of a comment below a branch, where the words on the first line are
read as texts. `below` is its fate in the child it stands in. -/
def fateInBranch (frame : Frame) (path : List Frame) (below : Fate) : Fate :=
  if frame.before.length < Tree.branchWords frame.kind then
    if path.isEmpty then .ended else .unread
  else if closes path then .unread else below

/-- The fate of the comment at the end of a path. `branching` says that the node
above is a conditional or one of its branches, which print branches by the rule
for branches; anywhere else a branch is a node of unknown kind. -/
def fate : Bool → List Frame → Fate
  | _, [] => .ended
  | branching, frame :: path =>
      match frame.kind with
      | .fileVersion | .plugin | .memoryReservation | .deleteNode | .deleteProperty =>
          if path.isEmpty then .joined else .unread
      | .omitIfNoRef | .labeledItem =>
          if path.isEmpty then .joined
          else if (topKind path).isWrappable then fate false path else .unread
      | .node =>
          if frame.before.any fun tree => tree.kind = .leftBrace then fate false path
          else if path.isEmpty then .joined else .unread
      | .includeDirective | .defineDirective | .functionDirective | .callDirective =>
          if path.isEmpty then
            if frame.after.any fun tree => tree.token ≠ "" then .joined else .ended
          else .unread
      | .fileInclude =>
          if path.isEmpty && !frame.after.any Tree.named then .ended else .unread
      | .property =>
          if path.isEmpty || frame.before.any fun tree => tree.kind = .equals then fate false path
          else .unread
      | .integerCells => if path.isEmpty then .ended else .unread
      | .ifDirective | .ifdefDirective => frame.fateInBranch path (fate true path)
      | .elseBranch | .elifBranch | .elifdefBranch =>
          if branching then frame.fateInBranch path (fate true path) else fate false path
      | .document | .unknown => fate false path
      | _ => .unread

end Frame

end DevicetreeFormat
