import DevicetreeFormat.Proofs.Coherent
import DevicetreeFormat.Proofs.Word

/-!
# Trees that follow the grammar

The children of a node stand in an order that its kind prescribes: a node has a
header, an opening brace, items, a closing brace and a semicolon; a property has
tokens, then values after an equals sign, then a semicolon; and so on. The rule
for each node reads only the kinds and texts of its children, so it can be
decided, and a tree follows the grammar if the rule holds at every node.

The texts that are printed on a line have to be words without the blanks around
them.
-/

namespace DevicetreeFormat

set_option autoImplicit false

open Text

namespace Kind

/-- Tokens and expressions that are printed as they stand. -/
def isVerbatim : Kind → Bool
  | .identifier | .reference | .path | .unitAddress | .stringLiteral | .systemLibString
  | .integerLiteral | .charLiteral | .callExpression | .parenthesizedExpression
  | .binaryExpression | .unaryExpression | .conditionalExpression | .directiveParameters
  | .directiveArgument | .ampersand | .atSign | .pathOpen | .leftAngle | .rightAngle
  | .leftBracket | .rightBracket => true
  | _ => false

/-- Items that may stand in a wrapper. -/
def isWrappable (kind : Kind) : Bool :=
  kind = .node || kind = .property || kind.isWrapper

theorem is_wrappable_iff {kind : Kind} :
    kind.isWrappable = true ↔ kind = .node ∨ kind = .property ∨ kind.isWrapper = true := by
  rw [isWrappable, Bool.or_eq_true, Bool.or_eq_true, decide_eq_true_eq, decide_eq_true_eq, or_assoc]

theorem is_wrapper_of_is_branch {kind : Kind} (branch : kind.isBranch = true) : kind.isWrapper = false := by
  cases kind <;> cases branch <;> rfl

/-- The marks that a property prints by their own rules wherever they stand. -/
def isPunctuation (kind : Kind) : Bool :=
  kind = .equals || kind = .comma || kind = .colon

def sign (kind : Kind) : String :=
  if kind = .equals then " = " else if kind = .comma then ", " else ": "

theorem is_punctuation_iff {kind : Kind} :
    kind.isPunctuation = true ↔ kind = .equals ∨ kind = .comma ∨ kind = .colon := by
  rw [isPunctuation, Bool.or_eq_true, Bool.or_eq_true, decide_eq_true_eq, decide_eq_true_eq,
    decide_eq_true_eq, or_assoc]

def isItem (kind : Kind) : Bool :=
  kind = .comment || kind.isHeader || kind.isStatement || kind = .fileInclude ||
    kind.isDirective || kind.isWrappable

end Kind

namespace Tree

def isItem (tree : Tree) : Bool :=
  tree.named && tree.kind.isItem

def isMark (kind : Kind) (tree : Tree) : Bool :=
  !tree.named && tree.kind = kind

def isValue (tree : Tree) : Bool :=
  tree.kind.isVerbatim && OneLine tree.text || tree.kind = .integerCells || tree.kind = .byteString

theorem is_item_iff {tree : Tree} :
    tree.isItem = true ↔ tree.named = true ∧ tree.kind.isItem = true := by
  rw [isItem, Bool.and_eq_true]

theorem is_mark_iff {kind : Kind} {tree : Tree} :
    tree.isMark kind = true ↔ tree.named = false ∧ tree.kind = kind := by
  rw [isMark, Bool.and_eq_true, Bool.not_eq_true', decide_eq_true_eq]

theorem is_value_iff {tree : Tree} :
    tree.isValue = true ↔ tree.kind.isVerbatim = true ∧ OneLine tree.text ∨
      tree.kind = .integerCells ∨ tree.kind = .byteString := by
  rw [isValue, Bool.or_eq_true, Bool.or_eq_true, Bool.and_eq_true, decide_eq_true_eq, decide_eq_true_eq,
    decide_eq_true_eq, or_assoc]

/-- Items, a closing brace and a semicolon. -/
def isBlock : List Tree → Bool
  | [] => false
  | [_] => false
  | [closing, ending] => closing.isMark .rightBrace && ending.isMark .semicolon
  | item :: rest => item.isItem && isBlock rest

/-- The tokens of a header, an opening brace and a block. -/
def isNodeForm : List Tree → Bool
  | [] => false
  | tree :: rest =>
      if tree.kind = .leftBrace then isBlock rest else OneLine tree.text && isNodeForm rest

/-- Tokens, values after an equals sign, and a semicolon at the end; comments
anywhere. `seenEquals` says that the values have begun. -/
def isPropertyForm : Bool → List Tree → Bool
  | _, [] => false
  | seenEquals, tree :: rest =>
      match tree.kind with
      | .semicolon => rest.isEmpty
      | .comment | .comma | .colon => isPropertyForm seenEquals rest
      | .equals => isPropertyForm true rest
      | _ =>
          (if seenEquals then tree.isValue else OneLine tree.text) && isPropertyForm seenEquals rest

section

variable {tree : Tree} {seenEquals : Bool} {rest : List Tree}

theorem is_property_form_end (ending : tree.kind = .semicolon) :
    isPropertyForm seenEquals (tree :: rest) = rest.isEmpty := by
  rw [isPropertyForm, ending]

theorem is_property_form_comment (comment : tree.kind = .comment) :
    isPropertyForm seenEquals (tree :: rest) = isPropertyForm seenEquals rest := by
  rw [isPropertyForm, comment]

theorem is_property_form_child (inside : tree.kind ≠ .semicolon) (code : tree.kind ≠ .comment) :
    isPropertyForm seenEquals (tree :: rest) =
      ((tree.kind.isPunctuation || if seenEquals then tree.isValue else OneLine tree.text) &&
        isPropertyForm (seenEquals || tree.kind = .equals) rest) := by
  rw [isPropertyForm]
  split
  · next ending => exact absurd ending inside
  · next comment => exact absurd comment code
  · next kind => simp [kind, Kind.isPunctuation]
  · next kind => simp [kind, Kind.isPunctuation]
  · next kind => simp [kind, Kind.isPunctuation]
  · next comma colon equals =>
      simp only [Kind.isPunctuation, decide_eq_false comma, decide_eq_false colon,
        decide_eq_false equals, Bool.or_false, Bool.false_or]

end

def isWrapperForm : List Tree → Bool
  | [] => false
  | tree :: rest =>
      if rest.isEmpty then tree.kind.isWrappable
      else !tree.kind.isWrappable && OneLine tree.text && isWrapperForm rest

/-- A keyword and its operands; operands may be empty. -/
def isDirectiveForm : List Tree → Bool
  | [] => false
  | head :: operands => OneLine head.text && operands.all fun operand => Unbroken operand.text

/-- The words on the first line of a branch, its keyword included. -/
def branchWords (kind : Kind) : Nat :=
  if kind = .elseBranch then 1 else 2

/-- A keyword, a condition unless it is the last branch, then items and later
branches. -/
def IsBranchForm (kind : Kind) (children : List Tree) : Prop :=
  branchWords kind ≤ children.length ∧
    (∀ word ∈ children.take (branchWords kind), OneLine word.text) ∧
    ∀ child ∈ children.drop (branchWords kind), child.isItem || child.kind.isBranch

instance (kind : Kind) (children : List Tree) : Decidable (IsBranchForm kind children) :=
  inferInstanceAs (Decidable (_ ∧ _ ∧ _))

/-- The rule of the grammar for one node. -/
@[mk_iff] structure Shaped (tree : Tree) : Prop where
  comment : tree.kind = .comment → OneLine tree.text
  header : tree.kind.isHeader || tree.kind = .fileInclude →
    tree.children ≠ [] ∧ ∀ child ∈ tree.children, OneLine child.text
  statement : tree.kind.isStatement →
    2 ≤ tree.children.length ∧ EndsOnce .semicolon (tree.children.map Tree.kind) ∧
      ∀ child ∈ tree.children, OneLine child.text
  directive : tree.kind.isDirective && !tree.kind.isConditional → isDirectiveForm tree.children
  wrapper : tree.kind.isWrapper → 2 ≤ tree.children.length ∧ isWrapperForm tree.children
  node : tree.kind = .node → isNodeForm tree.children
  /-- Properties do not begin with a comment. -/
  property : tree.kind = .property →
    (tree.children.head?.map Tree.kind) ≠ some .comment ∧ isPropertyForm false tree.children
  /-- The cells of a cell list are lines or parts of one. -/
  cells : tree.kind = .integerCells →
    ∀ child ∈ tree.children, child.cell.isAngle ∨ OneLine child.text
  /-- Conditionals are a branch with a closing keyword after it. -/
  conditional : tree.kind.isConditional →
    tree.children.getLast?.map isEndif = some true ∧
      IsBranchForm tree.kind tree.children.dropLast
  branch : tree.kind.isBranch → IsBranchForm tree.kind tree.children

instance (tree : Tree) : Decidable tree.Shaped :=
  decidable_of_iff' _ (shaped_iff tree)

/-! ### Taking forms apart -/

theorem exists_of_is_block {trees : List Tree} (block : isBlock trees = true) :
    ∃ items closing ending, trees = items ++ [closing, ending] ∧
      (∀ item ∈ items, item.isItem = true) ∧ closing.isMark .rightBrace = true ∧
      ending.isMark .semicolon = true := by
  induction trees with
  | nil => cases block
  | cons tree rest induction =>
      match rest with
      | [] => cases block
      | [ending] =>
          rw [isBlock, Bool.and_eq_true] at block
          exact ⟨[], tree, ending, rfl, by simp, block⟩
      | second :: third :: others =>
          simp only [isBlock, Bool.and_eq_true] at block
          obtain ⟨items, closing, ending, shape, inside, marks⟩ := induction block.2
          refine ⟨tree :: items, closing, ending, by rw [shape]; rfl, ?_, marks⟩
          intro item member
          rcases List.mem_cons.mp member with rfl | later
          · exact block.1
          · exact inside item later

theorem exists_of_is_node_form {trees : List Tree} (form : isNodeForm trees = true) :
    ∃ header opening block, trees = header ++ opening :: block ∧
      (∀ token ∈ header, token.kind ≠ .leftBrace ∧ OneLine token.text) ∧
      opening.kind = .leftBrace ∧ isBlock block = true := by
  induction trees with
  | nil => cases form
  | cons tree rest induction =>
      rw [isNodeForm] at form
      split at form
      · next opening => exact ⟨[], tree, rest, rfl, by simp, opening, form⟩
      · next inside =>
          rw [Bool.and_eq_true, decide_eq_true_eq] at form
          obtain ⟨header, opening, block, shape, tokens, others⟩ := induction form.2
          refine ⟨tree :: header, opening, block, by rw [shape]; rfl, ?_, others⟩
          intro token member
          rcases List.mem_cons.mp member with rfl | later
          · exact ⟨inside, form.1⟩
          · exact tokens token later

theorem exists_of_is_wrapper_form {trees : List Tree} (form : isWrapperForm trees = true) :
    ∃ tokens item, trees = tokens ++ [item] ∧
      (∀ token ∈ tokens, token.kind.isWrappable = false ∧ OneLine token.text) ∧
      item.kind.isWrappable = true := by
  induction trees with
  | nil => cases form
  | cons tree rest induction =>
      rw [isWrapperForm] at form
      split at form
      · next last =>
          rw [List.isEmpty_iff] at last
          exact ⟨[], tree, by rw [last]; rfl, by simp, form⟩
      · rw [Bool.and_eq_true, Bool.and_eq_true, decide_eq_true_eq, Bool.not_eq_true'] at form
        obtain ⟨tokens, item, shape, before, wrapped⟩ := induction form.2
        refine ⟨tree :: tokens, item, by rw [shape]; rfl, ?_, wrapped⟩
        intro token member
        rcases List.mem_cons.mp member with rfl | later
        · exact form.1
        · exact before token later

theorem exists_of_is_branch_form_else {children : List Tree} (form : IsBranchForm .elseBranch children) :
    ∃ head contents, children = head :: contents ∧ OneLine head.text ∧
      ∀ child ∈ contents, child.isItem = true ∨ child.kind.isBranch = true := by
  obtain ⟨long, words, contents⟩ := form
  match children with
  | [] => simp [branchWords] at long
  | head :: rest =>
      refine ⟨head, rest, rfl, words head (by simp [branchWords]), ?_⟩
      intro child member
      simpa using contents child (by simpa [branchWords] using member)

theorem exists_of_is_branch_form {kind : Kind} (conditioned : kind ≠ .elseBranch)
    {children : List Tree} (form : IsBranchForm kind children) :
    ∃ head condition contents, children = head :: condition :: contents ∧ OneLine head.text ∧
      OneLine condition.text ∧
      ∀ child ∈ contents, child.isItem = true ∨ child.kind.isBranch = true := by
  have two : branchWords kind = 2 := by simp [branchWords, conditioned]
  obtain ⟨long, words, contents⟩ := form
  rw [two] at long words contents
  match children with
  | [] | [_] => simp at long
  | head :: condition :: rest =>
      refine ⟨head, condition, rest, rfl, words head (by simp), words condition (by simp), ?_⟩
      intro child member
      simpa using contents child (by simpa using member)

theorem exists_of_conditional {tree : Tree} (shaped : tree.Shaped)
    (conditional : tree.kind.isConditional = true) :
    ∃ body ending, tree.children = body ++ [ending] ∧ IsBranchForm tree.kind body ∧
      ending.isEndif = true := by
  obtain ⟨closes, form⟩ := shaped.conditional conditional
  cases last : tree.children.getLast? with
  | none => simp [last] at closes
  | some ending =>
      obtain ⟨body, split⟩ := List.getLast?_eq_some_iff.mp last
      rw [split, List.dropLast_concat] at form
      exact ⟨body, ending, split, form, by simpa [last] using closes⟩

end Tree

end DevicetreeFormat
