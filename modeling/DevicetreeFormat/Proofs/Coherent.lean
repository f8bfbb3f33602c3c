import DevicetreeFormat.Proofs.Blank
import DevicetreeFormat.Proofs.Walk
import Mathlib.Tactic.MkIffOfInductiveProp

/-!
# Trees that cover their source

In a tree that comes from a source text the children of a node cover its text up
to blanks, and the punctuation stands where the grammar puts it. Nothing in the
type of trees says so, and the printer relies on it: it drops some tokens and
writes them back by itself.
-/

namespace DevicetreeFormat

set_option autoImplicit false

open Text

namespace Kind

/-- Statements that end in a semicolon of their own. -/
def isStatement : Kind → Bool
  | .memoryReservation | .deleteNode | .deleteProperty => true
  | _ => false

/-- Conditionals, as opposed to their later branches. -/
def isConditional : Kind → Bool
  | .ifDirective | .ifdefDirective => true
  | _ => false

/-- Punctuation that the printer writes by itself. -/
def isSymbol : Kind → Bool
  | .leftBrace | .rightBrace | .semicolon | .comma | .equals | .colon | .leftAngle | .rightAngle
  | .leftBracket | .rightBracket => true
  | _ => false

end Kind

/-- A list holds `mark` exactly once, at its end. -/
def EndsOnce {Mark : Type} (mark : Mark) (marks : List Mark) : Prop :=
  marks.getLast? = some mark ∧ mark ∉ marks.dropLast

/-- A list of kinds begins with `opening`, ends with `closing`, and holds
neither of them in between. -/
def Enclosed (opening closing : Kind) (kinds : List Kind) : Prop :=
  kinds.head? = some opening ∧ kinds.getLast? = some closing ∧
    opening ∉ kinds.tail.dropLast ∧ closing ∉ kinds.tail.dropLast

instance {Mark : Type} [DecidableEq Mark] (mark : Mark) (marks : List Mark) :
    Decidable (EndsOnce mark marks) :=
  inferInstanceAs (Decidable (_ ∧ _))

instance (opening closing : Kind) (kinds : List Kind) : Decidable (Enclosed opening closing kinds) :=
  inferInstanceAs (Decidable (_ ∧ _ ∧ _ ∧ _))

theorem exists_of_ends_once {Item Mark : Type} {markOf : Item → Mark} {items : List Item}
    {mark : Mark} (once : EndsOnce mark (items.map markOf)) :
    ∃ body last, items = body ++ [last] ∧ markOf last = mark ∧ ∀ item ∈ body, markOf item ≠ mark := by
  rcases List.eq_nil_or_concat items with rfl | ⟨body, last, rfl⟩
  · simp [EndsOnce] at once
  · simp only [List.concat_eq_append, EndsOnce, List.map_append, List.map_cons, List.map_nil,
      List.getLast?_concat, List.dropLast_concat, Option.some.injEq] at once
    refine ⟨body, last, List.concat_eq_append, once.1, ?_⟩
    intro item member same
    exact once.2 (List.mem_map.mpr ⟨item, member, same⟩)

theorem exists_of_enclosed {Item : Type} {kindOf : Item → Kind} {items : List Item}
    {opening closing : Kind} (different : opening ≠ closing)
    (enclosed : Enclosed opening closing (items.map kindOf)) :
    ∃ first inner last, items = first :: (inner ++ [last]) ∧ kindOf first = opening ∧
      kindOf last = closing ∧ ∀ item ∈ inner, kindOf item ≠ opening ∧ kindOf item ≠ closing := by
  obtain ⟨opened, closed, outside, inside⟩ := enclosed
  cases items with
  | nil => simp at opened
  | cons first rest =>
      simp only [List.map_cons, List.head?_cons, Option.some.injEq] at opened
      rcases List.eq_nil_or_concat rest with rfl | ⟨inner, last, rfl⟩
      · simp only [List.map_cons, List.map_nil, List.getLast?_singleton, Option.some.injEq] at closed
        exact absurd (opened.symm.trans closed) different
      · simp only [List.concat_eq_append, List.map_cons, List.map_append, List.map_nil,
          List.tail_cons, List.dropLast_concat] at outside inside
        have ending : kindOf last = closing := by
          simpa [List.getLast?_cons, List.getLast?_append] using closed
        refine ⟨first, inner, last, by simp, opened, ending, ?_⟩
        intro item member
        constructor
        · intro same
          exact outside (List.mem_map.mpr ⟨item, member, same⟩)
        · intro same
          exact inside (List.mem_map.mpr ⟨item, member, same⟩)

namespace Tree

/-- The unnamed token that closes a conditional. -/
def isEndif (tree : Tree) : Bool :=
  !tree.kind.isBranch && !tree.named && directiveKeyword tree.text = "#endif"

def isIncludeForm : List Tree → Bool
  | [keyword, path] => keyword.token = "/include/" && path.named
  | _ => false

theorem exists_of_is_include_form {children : List Tree} (form : isIncludeForm children = true) :
    ∃ keyword path, children = [keyword, path] ∧ keyword.token = "/include/" ∧ path.named = true := by
  unfold isIncludeForm at form
  split at form
  · next keyword path =>
      rw [Bool.and_eq_true, decide_eq_true_eq] at form
      exact ⟨keyword, path, rfl, form⟩
  · cases form

/-- What holds at a node of a tree that covers its source. -/
@[mk_iff] structure Coherent (tree : Tree) : Prop where
  /-- The children cover the text up to blanks. -/
  covered : tree.children ≠ [] → ink tree.text = tree.children.flatMap fun child => ink child.text
  /-- Declarations, statements, wrappers, nodes, properties and directives have children. -/
  filled : tree.kind.isHeader || tree.kind.isStatement || tree.kind.isWrapper ||
    tree.kind = .node || tree.kind = .property || tree.kind.isDirective → tree.children ≠ []
  /-- Punctuation is a leaf with the text of its symbol. -/
  symbol : tree.kind.isSymbol → tree.children = [] ∧ tree.token = tree.kind.grammarName
  /-- Properties and statements have one semicolon, at the end. -/
  closed : tree.kind = .property || tree.kind.isStatement →
    EndsOnce .semicolon (tree.children.map Tree.kind)
  /-- Cell lists stand between their brackets. -/
  cells : tree.kind = .integerCells → Enclosed .leftAngle .rightAngle (tree.children.map Tree.kind)
  /-- Byte strings stand between their brackets and hold no comment. -/
  bytes : tree.kind = .byteString →
    Enclosed .leftBracket .rightBracket (tree.children.map Tree.kind) ∧
      Kind.comment ∉ tree.children.map Tree.kind
  /-- File includes have a keyword and a path. -/
  included : tree.kind = .fileInclude → isIncludeForm tree.children
  /-- A conditional has a keyword, a condition, and its only closing token at the end. -/
  conditional : tree.kind.isConditional →
    3 ≤ tree.children.length ∧ EndsOnce true (tree.children.map isEndif)
  /-- A later branch has a keyword and no closing token. -/
  branch : tree.kind.isBranch → tree.children ≠ [] ∧ true ∉ tree.children.map isEndif

instance (tree : Tree) : Decidable tree.Coherent :=
  decidable_of_iff' _ (coherent_iff tree)

end Tree

/-- A cell list whose table keeps it up to blanks: every binding finds a key,
and the comments stand before the bindings. -/
def Table.Keeps (layout : Layout) (cells : List Cell) : Prop :=
  (Table.collectBindings cells).length ≤ layout.keyCount ∧
    ∀ cell ∈ cells.dropWhile fun cell => cell.isComment || cell.isAngle, cell.isComment = false

instance (layout : Layout) : DecidablePred (Table.Keeps layout) := fun _ =>
  inferInstanceAs (Decidable (_ ∧ _))

end DevicetreeFormat
