import DevicetreeFormat.RawTree

/-!
# Rules at every node

A rule holds everywhere in a tree if it holds at the root and everywhere in the
children. What follows from that alone is proved once, for any nodes whose
children are smaller than they are, and holds of the trees of a parser and of
syntax trees.
-/

namespace DevicetreeFormat

set_option autoImplicit false

section

variable {Node : Type} [SizeOf Node] {children : Node → List Node}
  {everywhere : (Node → Prop) → Node → Prop} {rule motive weaker : Node → Prop} {node : Node}

/-- `everywhere rule` says that the rule holds at a node and at every node below it. -/
structure Spreads (children : Node → List Node) (everywhere : (Node → Prop) → Node → Prop) : Prop where
  smaller : ∀ {node child}, child ∈ children node → sizeOf child < sizeOf node
  unfolds : ∀ {rule node}, everywhere rule node ↔ rule node ∧ ∀ child ∈ children node, everywhere rule child

namespace Spreads

theorem self (spreads : Spreads children everywhere) (holds : everywhere rule node) : rule node :=
  (spreads.unfolds.mp holds).1

/-- What passes from the children of a node to the node holds of every node. -/
theorem climb (spreads : Spreads children everywhere)
    (step : ∀ node, (∀ child ∈ children node, motive child) → motive node) (node : Node) :
    motive node :=
  (measure sizeOf).wf.induction node fun node below =>
    step node fun child member => below child (spreads.smaller member)

/-- The same where a rule holds at every node. -/
theorem induction (spreads : Spreads children everywhere)
    (step : ∀ node, rule node → (∀ child ∈ children node, everywhere rule child) →
      (∀ child ∈ children node, motive child) → motive node)
    (holds : everywhere rule node) : motive node := by
  revert holds
  refine spreads.climb (motive := fun node => everywhere rule node → motive node) ?_ node
  intro node motives holds
  obtain ⟨here, below⟩ := spreads.unfolds.mp holds
  exact step node here below fun child member => motives child member (below child member)

theorem mono (spreads : Spreads children everywhere) (weaken : ∀ node, rule node → weaker node)
    (holds : everywhere rule node) : everywhere weaker node := by
  refine spreads.induction (motive := everywhere weaker) ?_ holds
  intro node here _ children
  exact spreads.unfolds.mpr ⟨weaken node here, children⟩

end Spreads

end

namespace Tree

mutual

/-- A rule holds at a node and at every node below it. -/
def Everywhere (rule : Tree → Prop) : Tree → Prop
  | branch name text named start stop children =>
      rule (branch name text named start stop children) ∧ EverywhereIn rule children

def EverywhereIn (rule : Tree → Prop) : List Tree → Prop
  | [] => True
  | tree :: rest => Everywhere rule tree ∧ EverywhereIn rule rest

end

mutual

instance decideEverywhere (rule : Tree → Prop) [DecidablePred rule] :
    (tree : Tree) → Decidable (Everywhere rule tree)
  | branch name text named start stop children =>
      have := decideEverywhereIn rule children
      inferInstanceAs (Decidable (rule (branch name text named start stop children) ∧ _))

instance decideEverywhereIn (rule : Tree → Prop) [DecidablePred rule] :
    (trees : List Tree) → Decidable (EverywhereIn rule trees)
  | [] => inferInstanceAs (Decidable True)
  | tree :: rest =>
      have := decideEverywhere rule tree
      have := decideEverywhereIn rule rest
      inferInstanceAs (Decidable (_ ∧ _))

end

theorem everywhere_in_iff {rule : Tree → Prop} {trees : List Tree} :
    EverywhereIn rule trees ↔ ∀ tree ∈ trees, tree.Everywhere rule := by
  induction trees with
  | nil => simp [EverywhereIn]
  | cons tree rest induction => simp [EverywhereIn, induction]

theorem sizeOf_child {tree child : Tree} (member : child ∈ tree.children) :
    sizeOf child < sizeOf tree := by
  cases tree
  have below := List.sizeOf_lt_of_mem member
  simp only [children, branch.sizeOf_spec] at below ⊢
  omega

theorem spreads : Spreads children Everywhere where
  smaller := sizeOf_child
  unfolds := by
    rintro rule ⟨_⟩
    rw [Everywhere, everywhere_in_iff]
    rfl

theorem everywhere_iff {rule : Tree → Prop} {tree : Tree} :
    tree.Everywhere rule ↔ rule tree ∧ ∀ child ∈ tree.children, child.Everywhere rule :=
  spreads.unfolds

end Tree

namespace RawTree

mutual

/-- A rule holds at a node and at every node below it. -/
def Everywhere (rule : RawTree → Prop) : RawTree → Prop
  | branch name marks start stop children =>
      rule (branch name marks start stop children) ∧ EverywhereIn rule children

def EverywhereIn (rule : RawTree → Prop) : List RawTree → Prop
  | [] => True
  | raw :: rest => Everywhere rule raw ∧ EverywhereIn rule rest

end

mutual

instance decideEverywhere (rule : RawTree → Prop) [DecidablePred rule] :
    (raw : RawTree) → Decidable (Everywhere rule raw)
  | branch name marks start stop children =>
      have := decideEverywhereIn rule children
      inferInstanceAs (Decidable (rule (branch name marks start stop children) ∧ _))

instance decideEverywhereIn (rule : RawTree → Prop) [DecidablePred rule] :
    (raws : List RawTree) → Decidable (EverywhereIn rule raws)
  | [] => inferInstanceAs (Decidable True)
  | raw :: rest =>
      have := decideEverywhere rule raw
      have := decideEverywhereIn rule rest
      inferInstanceAs (Decidable (_ ∧ _))

end

theorem everywhere_in_iff {rule : RawTree → Prop} {raws : List RawTree} :
    EverywhereIn rule raws ↔ ∀ raw ∈ raws, raw.Everywhere rule := by
  induction raws with
  | nil => simp [EverywhereIn]
  | cons raw rest induction => simp [EverywhereIn, induction]

theorem sizeOf_child {raw child : RawTree} (member : child ∈ raw.children) :
    sizeOf child < sizeOf raw := by
  cases raw
  have below := List.sizeOf_lt_of_mem member
  simp only [children, branch.sizeOf_spec] at below ⊢
  omega

theorem spreads : Spreads children Everywhere where
  smaller := sizeOf_child
  unfolds := by
    rintro rule ⟨_⟩
    rw [Everywhere, everywhere_in_iff]
    rfl

theorem everywhere_iff {rule : RawTree → Prop} {raw : RawTree} :
    raw.Everywhere rule ↔ rule raw ∧ ∀ child ∈ raw.children, child.Everywhere rule :=
  spreads.unfolds

end RawTree

end DevicetreeFormat
