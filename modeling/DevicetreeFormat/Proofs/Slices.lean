import DevicetreeFormat.Proofs.Newlines
import Mathlib.Tactic.MkIffOfInductiveProp
import Mathlib.Data.List.Forall2
import Mathlib.Data.Option.Basic

/-!
# Syntax trees over their source

A syntax tree is the raw tree without its spacing, and each node has the text of
its range. Where the ranges of the children cover that of their parent up to
blanks, the ink of a node is the ink of the children that are kept, so the
leaves spell the source. Blanks of a byte sequence are blanks of the text, which
is why spacing has no ink; the converse does not hold, and nothing needs it.
-/

namespace DevicetreeFormat.Text

set_option autoImplicit false

/-- An offset in bytes at which a character of the text begins, or at which the
text ends. -/
def Boundary (source : String) (offset : Nat) : Prop :=
  String.Pos.Raw.IsValid source ⟨offset⟩

instance (source : String) (offset : Nat) : Decidable (Boundary source offset) :=
  decidable_of_iff _ String.Pos.Raw.isValid_eq_true_iff

open RawTree (slice)

theorem exists_text_of_boundaries {source : String} {start stop : Nat}
    (begins : Boundary source start) (ends : Boundary source stop) :
    ∃ text, String.fromUTF8? (slice source.toUTF8 start stop) = some text := by
  have valid : (slice source.toUTF8 start stop).IsValidUTF8 := by
    rw [slice, String.toUTF8_eq_toByteArray]
    by_cases ordered : start ≤ stop
    · exact (String.Pos.Raw.isValidUTF8_extract_iff ⟨start⟩ ⟨stop⟩ ordered ends.le_rawEndPos).mpr
        (.inr ⟨begins, ends⟩)
    · have nothing : source.toByteArray.extract start stop = ByteArray.empty := by
        apply ByteArray.ext
        rw [ByteArray.data_extract]
        exact Array.extract_empty_of_stop_le_start (by omega)
      rw [nothing]
      exact ByteArray.isValidUTF8_empty
  exact ⟨_, dif_pos valid⟩

theorem is_blank_byte_iff (byte : UInt8) :
    isBlankByte byte = true ↔ (9 ≤ byte.toNat ∧ byte.toNat ≤ 13) ∨ byte.toNat = 32 := by
  simp only [isBlankByte, Bool.or_eq_true, Bool.and_eq_true, decide_eq_true_eq, beq_iff_eq,
    UInt8.le_iff_toNat_le, ← UInt8.toNat_inj]
  rfl

theorem is_blank_of_blank_byte {c : Char} {byte : UInt8} (blank : isBlankByte byte = true)
    (same : c.toNat = byte.toNat) : isBlank c = true := by
  have code := (is_blank_byte_iff byte).mp blank
  simp only [isBlank, same, Bool.or_eq_true, Bool.and_eq_true, decide_eq_true_eq, beq_iff_eq]
  omega

/-- Bytes that are blanks decode to blanks. -/
theorem ink_of_blank_bytes {text : String}
    (blank : ∀ byte ∈ text.toUTF8.data.toList, isBlankByte byte = true) : ink text = [] := by
  rw [ink, List.filter_eq_nil_iff]
  intro c member
  obtain ⟨byte, encodes⟩ := List.exists_mem_of_ne_nil _ (String.utf8EncodeChar_ne_nil (c := c))
  have inside : byte ∈ text.toUTF8.data.toList := by
    rw [bytes_toUTF8, List.mem_flatMap]
    exact ⟨c, member, encodes⟩
  have ascii : byte.toNat < 128 := by
    have code := (is_blank_byte_iff byte).mp (blank byte inside)
    omega
  have same := (ascii_byte_mem_utf8EncodeChar c ascii).mp encodes
  simp [is_blank_of_blank_byte (blank byte inside) same]

/-! ### The ink of a range -/

/-- The ink of the source from `start` up to `stop`. -/
def inkBetween (source : String) (start stop : Nat) : List Char :=
  ((String.fromUTF8? (slice source.toUTF8 start stop)).map ink).getD []

theorem ink_between_eq {source text : String} {start stop : Nat}
    (decoded : String.fromUTF8? (slice source.toUTF8 start stop) = some text) :
    inkBetween source start stop = ink text := by
  rw [inkBetween, decoded]
  rfl

/-- Two ranges that meet at a boundary. -/
theorem ink_between_append {source : String} {start middle stop : Nat} (begins : Boundary source start)
    (meets : Boundary source middle) (ends : Boundary source stop) (before : start ≤ middle)
    (after : middle ≤ stop) :
    inkBetween source start stop = inkBetween source start middle ++ inkBetween source middle stop := by
  obtain ⟨first, readsFirst⟩ := exists_text_of_boundaries begins meets
  obtain ⟨second, readsSecond⟩ := exists_text_of_boundaries meets ends
  obtain ⟨whole, readsWhole⟩ := exists_text_of_boundaries begins ends
  have bytes : whole.toByteArray = (first ++ second).toByteArray := by
    rw [String.toByteArray_append, ← String.toUTF8_eq_toByteArray, ← String.toUTF8_eq_toByteArray,
      ← String.toUTF8_eq_toByteArray, toUTF8_of_fromUTF8? readsFirst, toUTF8_of_fromUTF8? readsSecond,
      toUTF8_of_fromUTF8? readsWhole, slice, slice, slice, ByteArray.extract_append_extract,
      Nat.min_eq_left before, Nat.max_eq_right after]
  rw [ink_between_eq readsFirst, ink_between_eq readsSecond, ink_between_eq readsWhole,
    String.toByteArray_inj.mp bytes, ink_append]

theorem ink_between_blank {source : String} {start stop : Nat}
    (blank : ∀ byte ∈ (slice source.toUTF8 start stop).data.toList, isBlankByte byte = true) :
    inkBetween source start stop = [] := by
  rw [inkBetween]
  cases decoded : String.fromUTF8? (slice source.toUTF8 start stop) with
  | none => rfl
  | some text =>
      rw [← toUTF8_of_fromUTF8? decoded] at blank
      exact ink_of_blank_bytes blank

theorem getElem?_of_mem_slice {source : ByteArray} {start stop : Nat} {byte : UInt8}
    (member : byte ∈ (slice source start stop).data.toList) :
    ∃ offset, start ≤ offset ∧ offset < stop ∧ source.data[offset]? = some byte := by
  rw [slice, ByteArray.data_extract, Array.toList_extract, List.mem_iff_getElem?] at member
  obtain ⟨index, found⟩ := member
  rw [List.getElem?_take] at found
  split at found
  · next short =>
      rw [List.getElem?_drop, Array.getElem?_toList] at found
      exact ⟨start + index, by omega, by omega, found⟩
  · cases found

end DevicetreeFormat.Text

namespace DevicetreeFormat.Tree

set_option autoImplicit false

/-- The node to which the indices lead, from the root downwards. -/
def at? : Tree → List Nat → Option Tree
  | tree, [] => some tree
  | tree, index :: rest => tree.children[index]?.bind fun child => child.at? rest

mutual

/-- The nodes without children, in order. -/
def leaves : Tree → List Tree
  | branch name text named start stop children =>
      if children.isEmpty then [branch name text named start stop children] else leavesIn children

def leavesIn : List Tree → List Tree
  | [] => []
  | tree :: rest => leaves tree ++ leavesIn rest

end

theorem leaves_in_eq (trees : List Tree) : leavesIn trees = trees.flatMap leaves := by
  induction trees with
  | nil => rfl
  | cons tree rest induction => rw [leavesIn, induction, List.flatMap_cons]

theorem leaves_eq (tree : Tree) :
    tree.leaves = if tree.children.isEmpty then [tree] else tree.children.flatMap leaves := by
  cases tree
  rw [leaves, leaves_in_eq]
  rfl

theorem at?_concat (tree : Tree) (path : List Nat) (index : Nat) :
    tree.at? (path ++ [index]) = (tree.at? path).bind fun node => node.children[index]? := by
  induction path generalizing tree with
  | nil =>
      change (tree.children[index]?.bind some) = tree.children[index]?
      cases tree.children[index]? <;> rfl
  | cons first rest induction =>
      simp only [List.cons_append, at?, induction, Option.bind_assoc]

/-- The ink of a node with children is that of its children. -/
def Inked (tree : Tree) : Prop :=
  tree.children ≠ [] →
    Text.ink tree.text = tree.children.flatMap fun child => Text.ink child.text

theorem ink_leaves {tree : Tree} (inked : tree.Everywhere Inked) :
    tree.leaves.flatMap (fun leaf => Text.ink leaf.text) = Text.ink tree.text := by
  refine spreads.induction (motive := fun tree =>
    tree.leaves.flatMap (fun leaf => Text.ink leaf.text) = Text.ink tree.text) ?_ inked
  intro tree here _ children
  rw [leaves_eq]
  by_cases childless : tree.children = []
  · simp [childless]
  · rw [if_neg (by simpa using childless), here childless, List.flatMap_assoc]
    exact List.flatMap_congr children

end DevicetreeFormat.Tree

namespace DevicetreeFormat.Printer

set_option autoImplicit false

/-- The kind of the tree before the one at `index`, where `before` is the kind of
what stands in front of all trees. -/
def kindBefore (before : Option Kind) (trees : List Tree) : Nat → Option Kind
  | 0 => before
  | index + 1 => trees[index]?.map Tree.kind

theorem parts_getElem? (settings : Settings) (kind : Kind) (parent : Place) (before : Option Kind)
    (trees : List Tree) (index : Nat) :
    (parts settings kind parent before trees)[index]? = trees[index]?.map fun tree =>
      part settings (childPlace kind parent (kindBefore before trees index)
        (neighbour? (trees.drop (index + 1)))) tree := by
  induction trees generalizing before index with
  | nil => rfl
  | cons tree rest induction =>
      cases index with
      | zero => rfl
      | succ index =>
          have earlier : kindBefore (some tree.kind) rest index =
              kindBefore before (tree :: rest) (index + 1) := by
            cases index <;> rfl
          rw [parts, List.getElem?_cons_succ, List.getElem?_cons_succ, induction, earlier]
          rfl

end DevicetreeFormat.Printer

namespace DevicetreeFormat.RawTree

set_option autoImplicit false

open Text

/-! ### What is kept -/

/-- A node that is not spacing. -/
def isKept (source : ByteArray) (raw : RawTree) : Bool :=
  !isSpacing source raw

mutual

/-- The raw tree without the spacing below its root. -/
def pruned (source : ByteArray) : RawTree → RawTree
  | branch name marks start stop children =>
      branch name marks start stop (prunedIn source children)

def prunedIn (source : ByteArray) : List RawTree → List RawTree
  | [] => []
  | raw :: rest =>
      if isKept source raw then pruned source raw :: prunedIn source rest else prunedIn source rest

end

theorem pruned_in_eq (source : ByteArray) (raws : List RawTree) :
    prunedIn source raws = (raws.filter (isKept source)).map (pruned source) := by
  induction raws with
  | nil => rfl
  | cons raw rest induction =>
      rw [prunedIn, List.filter_cons, induction]
      split
      · rw [List.map_cons]
      · rfl

theorem pruned_children (source : ByteArray) (raw : RawTree) :
    (raw.pruned source).children = (raw.children.filter (isKept source)).map (pruned source) := by
  cases raw
  exact pruned_in_eq source _

/-- The node to which the indices lead, from the root downwards. -/
def at? : RawTree → List Nat → Option RawTree
  | raw, [] => some raw
  | raw, index :: rest => raw.children[index]?.bind fun child => child.at? rest

/-- A node of the syntax tree next to the raw node that it stands for. -/
structure Copied (source : String) (raw : RawTree) (tree : Tree) : Prop where
  name : tree.name = raw.name
  named : tree.named = raw.marks.named
  start : tree.start = raw.start
  stop : tree.stop = raw.stop
  text : String.fromUTF8? (slice source.toUTF8 raw.start raw.stop) = some tree.text
  size : tree.children.length = raw.children.length

/-- The relation between a raw node and the syntax tree that it gives. -/
def Gives (source : String) (raw : RawTree) (tree : Tree) : Prop :=
  raw.attach source.toUTF8 = some tree

section

variable {source : String}

theorem attach_all_gives {raws : List RawTree} {trees : List Tree}
    (attached : attachAll source.toUTF8 raws = some trees) :
    List.Forall₂ (Gives source) (raws.filter (isKept source.toUTF8)) trees := by
  induction raws generalizing trees with
  | nil =>
      cases attached
      exact .nil
  | cons raw rest induction =>
      rw [attachAll] at attached
      split at attached
      · next spacing =>
          rw [List.filter_cons_of_neg (by simp only [isKept, spacing]; nofun)]
          exact induction attached
      · next kept =>
          rw [List.filter_cons_of_pos (by simp only [isKept, kept]; rfl)]
          simp only [Option.bind_eq_bind, Option.bind_eq_some_iff] at attached
          obtain ⟨first, here, others, later, same⟩ := attached
          cases same
          exact .cons here (induction later)

/-- What a raw node gives: a copy of itself over what its kept children give. -/
theorem Gives.copied {raw : RawTree} {tree : Tree} (gives : Gives source raw tree) :
    Copied source (raw.pruned source.toUTF8) tree ∧
      List.Forall₂ (Gives source) (raw.children.filter (isKept source.toUTF8)) tree.children := by
  obtain ⟨name, marks, start, stop, children⟩ := raw
  simp only [Gives, attach, Option.bind_eq_bind, Option.bind_eq_some_iff] at gives
  obtain ⟨below, attached, text, decoded, same⟩ := gives
  cases same
  have given := attach_all_gives attached
  refine ⟨⟨rfl, rfl, rfl, rfl, decoded, ?_⟩, given⟩
  rw [pruned_children, List.length_map]
  exact given.length_eq.symm

theorem exists_attach_all {raws : List RawTree}
    (each : ∀ raw ∈ raws, ∃ tree, Gives source raw tree) :
    ∃ trees, attachAll source.toUTF8 raws = some trees := by
  induction raws with
  | nil => exact ⟨[], rfl⟩
  | cons raw rest induction =>
      obtain ⟨others, later⟩ := induction fun other member => each other (by simp [member])
      obtain ⟨tree, here⟩ := each raw (by simp)
      rw [attachAll]
      split
      · exact ⟨others, later⟩
      · exact ⟨tree :: others, by rw [here, later]; rfl⟩

/-- A node whose range begins and ends between characters. -/
@[mk_iff] structure Ranged (source : String) (raw : RawTree) : Prop where
  begins : Boundary source raw.start
  ends : Boundary source raw.stop

/-- Raw trees whose ranges cut no character have a syntax tree. -/
theorem exists_gives {raw : RawTree} (ranged : raw.Everywhere (Ranged source)) :
    ∃ tree, Gives source raw tree := by
  refine spreads.induction (motive := fun raw => ∃ tree, Gives source raw tree) ?_ ranged
  intro raw here _ children
  obtain ⟨name, marks, start, stop, below⟩ := raw
  obtain ⟨trees, attached⟩ := exists_attach_all children
  obtain ⟨text, decoded⟩ := exists_text_of_boundaries here.begins here.ends
  refine ⟨.branch name text marks.named start stop trees, ?_⟩
  change attachAll source.toUTF8 below = some trees at attached
  change String.fromUTF8? (slice source.toUTF8 start stop) = some text at decoded
  rw [Gives, attach, attached, decoded]
  rfl

/-! ### Nodes by their place -/

theorem forall₂_getElem? {First Second : Type} {related : First → Second → Prop}
    {firsts : List First} {seconds : List Second} (all : List.Forall₂ related firsts seconds)
    (index : Nat) : Option.Rel related firsts[index]? seconds[index]? := by
  induction all generalizing index with
  | nil => exact .none
  | cons here _ induction =>
      cases index with
      | zero => exact .some here
      | succ index => exact induction index

/-- The same indices lead to a node of the syntax tree and to the raw node that
it stands for, among those that are kept. -/
theorem Gives.at? {raw : RawTree} {tree : Tree} (gives : Gives source raw tree) (path : List Nat) :
    Option.Rel (Copied source) ((raw.pruned source.toUTF8).at? path) (tree.at? path) := by
  induction path generalizing raw tree with
  | nil => exact .some gives.copied.1
  | cons index rest induction =>
      rw [RawTree.at?, Tree.at?, pruned_children, List.getElem?_map]
      have related := forall₂_getElem? gives.copied.2 index
      generalize (raw.children.filter (isKept source.toUTF8))[index]? = here at related
      generalize tree.children[index]? = there at related
      cases related with
      | none => exact .none
      | some below => exact induction below

/-! ### Ranges that cover their source -/

/-- The ranges of the children lie in that of the node, one after the other, and
nothing but blanks lies outside of them. A node without children may hold
anything. -/
@[mk_iff] structure Covers (source : String) (raw : RawTree) : Prop extends Ranged source raw where
  ordered : raw.start ≤ raw.stop
  inside : ∀ child ∈ raw.children, raw.start ≤ child.start ∧ child.stop ≤ raw.stop
  apart : raw.children.Pairwise fun first second => first.stop ≤ second.start
  blank : raw.children ≠ [] → ∀ offset < raw.stop, raw.start ≤ offset →
    (∀ child ∈ raw.children, offset < child.start ∨ child.stop ≤ offset) →
      source.toUTF8.data[offset]?.all isBlankByte = true

instance (raw : RawTree) : Decidable (Ranged source raw) :=
  decidable_of_iff _ (ranged_iff source raw).symm

instance (raw : RawTree) : Decidable (Covers source raw) :=
  decidable_of_iff _ (covers_iff source raw).symm

theorem ink_between_gap {start stop : Nat} (blank : ∀ offset < stop, start ≤ offset →
    source.toUTF8.data[offset]?.all isBlankByte = true) : inkBetween source start stop = [] := by
  apply ink_between_blank
  intro byte member
  obtain ⟨offset, after, before, found⟩ := getElem?_of_mem_slice member
  have holds := blank offset before after
  rw [found] at holds
  exact holds

/-- The children spell the range from `start`, which moves from child to child. -/
theorem ink_between_children {children : List RawTree} {start stop : Nat}
    (begins : Boundary source start) (ends : Boundary source stop) (ordered : start ≤ stop)
    (own : ∀ child ∈ children, Ranged source child ∧ child.start ≤ child.stop)
    (inside : ∀ child ∈ children, start ≤ child.start ∧ child.stop ≤ stop)
    (apart : children.Pairwise fun first second => first.stop ≤ second.start)
    (blank : ∀ offset < stop, start ≤ offset →
      (∀ child ∈ children, offset < child.start ∨ child.stop ≤ offset) →
        source.toUTF8.data[offset]?.all isBlankByte = true) :
    inkBetween source start stop =
      children.flatMap fun child => inkBetween source child.start child.stop := by
  induction children generalizing start with
  | nil => exact ink_between_gap fun offset before after => blank offset before after (by simp)
  | cons child rest induction =>
      obtain ⟨⟨childBegins, childEnds⟩, childOrdered⟩ := own child (by simp)
      obtain ⟨after, before⟩ := inside child (by simp)
      obtain ⟨later, apart⟩ := List.pairwise_cons.mp apart
      have gap : inkBetween source start child.start = [] := by
        apply ink_between_gap
        intro offset here past
        apply blank offset (by omega) past
        refine List.forall_mem_cons.mpr ⟨.inl here, ?_⟩
        intro other member
        have := later other member
        omega
      have others : inkBetween source child.stop stop =
          rest.flatMap fun child => inkBetween source child.start child.stop := by
        apply induction childEnds before
        · exact fun other member => own other (by simp [member])
        · exact fun other member => ⟨later other member, (inside other (by simp [member])).2⟩
        · exact apart
        · intro offset here past outside
          exact blank offset here (by omega) (List.forall_mem_cons.mpr ⟨.inr past, outside⟩)
      rw [ink_between_append begins childBegins ends after (by omega), gap, List.nil_append,
        ink_between_append childBegins childEnds ends childOrdered before, others, List.flatMap_cons]

theorem ink_between_spacing {raw : RawTree} (spacing : isSpacing source.toUTF8 raw = true) :
    inkBetween source raw.start raw.stop = [] := by
  apply ink_between_blank
  simp only [isSpacing, isBlankSlice, Bool.and_eq_true, List.all_eq_true] at spacing
  exact spacing.2

/-- Leaving out spacing leaves out no ink. -/
theorem ink_between_kept (raws : List RawTree) :
    ((raws.filter (isKept source.toUTF8)).flatMap fun raw => inkBetween source raw.start raw.stop) =
      raws.flatMap fun raw => inkBetween source raw.start raw.stop := by
  induction raws with
  | nil => rfl
  | cons raw rest induction =>
      rw [List.flatMap_cons, ← induction, List.filter_cons]
      split
      · rw [List.flatMap_cons]
      · next dropped =>
          rw [ink_between_spacing (by simpa only [isKept, Bool.not_eq_true', Bool.not_eq_false] using dropped),
            List.nil_append]

theorem Gives.ink {raw : RawTree} {tree : Tree} (gives : Gives source raw tree) :
    inkBetween source raw.start raw.stop = Text.ink tree.text := by
  cases raw
  exact ink_between_eq gives.copied.1.text

theorem ink_given {raws : List RawTree} {trees : List Tree}
    (given : List.Forall₂ (Gives source) raws trees) :
    (raws.flatMap fun raw => inkBetween source raw.start raw.stop) =
      trees.flatMap fun tree => ink tree.text := by
  induction given with
  | nil => rfl
  | cons here _ induction => rw [List.flatMap_cons, List.flatMap_cons, induction, here.ink]

theorem Gives.inked {raw : RawTree} {tree : Tree} (covers : raw.Everywhere (Covers source))
    (gives : Gives source raw tree) : tree.Inked := by
  obtain ⟨here, below⟩ := everywhere_iff.mp covers
  obtain ⟨_, given⟩ := gives.copied
  intro filled
  have children : raw.children ≠ [] := by
    intro childless
    rw [childless] at given
    exact filled (List.forall₂_nil_left_iff.mp given)
  have spelled := ink_between_children here.begins here.ends here.ordered
    (fun child member =>
      have own := (everywhere_iff.mp (below child member)).1
      ⟨own.toRanged, own.ordered⟩)
    here.inside here.apart (here.blank children)
  rw [← gives.ink, spelled, ← ink_between_kept, ink_given given]

theorem exists_of_mem_given {raws : List RawTree} {trees : List Tree}
    (given : List.Forall₂ (Gives source) raws trees) {tree : Tree} (member : tree ∈ trees) :
    ∃ raw ∈ raws, Gives source raw tree := by
  induction given with
  | nil => cases member
  | cons here _ induction =>
      rcases List.mem_cons.mp member with rfl | later
      · exact ⟨_, by simp, here⟩
      · obtain ⟨raw, inside, gives⟩ := induction later
        exact ⟨raw, by simp [inside], gives⟩

/-- What the raw nodes of a tree give satisfies a rule if each of them does. -/
theorem Gives.everywhere {rule : RawTree → Prop} {shown : Tree → Prop}
    (each : ∀ raw tree, raw.Everywhere rule → Gives source raw tree → shown tree) {raw : RawTree}
    (holds : raw.Everywhere rule) : ∀ {tree : Tree}, Gives source raw tree → tree.Everywhere shown := by
  refine spreads.induction
    (motive := fun raw => ∀ {tree}, Gives source raw tree → tree.Everywhere shown) ?_ holds
  intro raw here below children tree gives
  refine Tree.everywhere_iff.mpr ⟨each raw tree (everywhere_iff.mpr ⟨here, below⟩) gives, ?_⟩
  intro child member
  obtain ⟨original, inside, given⟩ := exists_of_mem_given gives.copied.2 member
  exact children original (List.mem_of_mem_filter inside) given

end

/-! ### What the printer sees -/

/-- The node before the one to which `path` and then `index` lead. -/
def before? (raw : RawTree) (path : List Nat) : Nat → Option RawTree
  | 0 => none
  | index + 1 => raw.at? (path ++ [index])

/-- A place in which the printer sees the raw nodes before and after the one to
which `path` and then `index` lead. -/
structure Beside (raw : RawTree) (path : List Nat) (index : Nat) (place : Printer.Place) : Prop where
  before : place.before = (raw.before? path index).map fun other => Kind.ofName other.name
  after : (place.after.map fun next => (next.kind, next.named)) =
    (raw.at? (path ++ [index + 1])).map fun other => (Kind.ofName other.name, other.marks.named)

theorem seen_copied {source : String} {raw : Option RawTree} {tree : Option Tree}
    (copied : Option.Rel (Copied source) raw tree) :
    (tree.map fun node => (node.kind, node.named)) =
      raw.map fun other => (Kind.ofName other.name, other.marks.named) := by
  cases copied with
  | none => rfl
  | some copy => simp only [Option.map_some, Tree.kind, copy.name, copy.named]

theorem text_copied {source : String} {raw : Option RawTree} {tree : Option Tree}
    (copied : Option.Rel (Copied source) raw tree) :
    tree.map Tree.text =
      raw.bind fun other => String.fromUTF8? (slice source.toUTF8 other.start other.stop) := by
  cases copied with
  | none => rfl
  | some copy => exact copy.text.symm

theorem Gives.beside {source : String} {raw : RawTree} {tree node : Tree} {path : List Nat}
    (gives : Gives source raw tree) (here : tree.at? path = some node) (parent : Printer.Place)
    (index : Nat) :
    Beside (raw.pruned source.toUTF8) path index
      (Printer.childPlace node.kind parent (Printer.kindBefore none node.children index)
        (Printer.neighbour? (node.children.drop (index + 1)))) := by
  have sibling (other : Nat) : tree.at? (path ++ [other]) = node.children[other]? := by
    rw [Tree.at?_concat, here]
    rfl
  have seen (other : Nat) := seen_copied (gives.at? (path ++ [other]))
  constructor
  · cases index with
    | zero => rfl
    | succ index =>
        have kinds := congrArg (Option.map Prod.fst) (seen index)
        rw [sibling, Option.map_map, Option.map_map] at kinds
        exact kinds
  · rw [← seen, sibling, ← List.head?_drop]
    cases node.children.drop (index + 1) <;> rfl

theorem to_tree_of_gives {source : String} {raw : RawTree} {tree : Tree}
    (sound : raw.marks.faulty = false) (gives : Gives source raw tree) :
    raw.toTree source = .ok tree := by
  rw [Gives] at gives
  simp only [toTree, sound, gives]
  rfl

/-- **A syntax tree loses nothing but blanks.** A sound raw tree whose ranges cover
the source has a syntax tree. It is the raw tree without its spacing, node by node
and with the same neighbours for the printer. The ink of a node with children is
that of its children, so the leaves spell the source. -/
theorem to_tree_keeps_ink {source : String} {raw : RawTree} (sound : raw.marks.faulty = false)
    (covers : raw.Everywhere (Covers source)) :
    ∃ tree, raw.toTree source = .ok tree ∧
      (∀ path, Option.Rel (Copied source) ((raw.pruned source.toUTF8).at? path) (tree.at? path)) ∧
      (∀ settings parent path node index, tree.at? path = some node →
        ∃ place, Beside (raw.pruned source.toUTF8) path index place ∧
          (Printer.parts settings node.kind parent none node.children)[index]? =
            node.children[index]?.map (Printer.part settings place)) ∧
      tree.Everywhere Tree.Inked ∧
      tree.leaves.flatMap (fun leaf => ink leaf.text) = inkBetween source raw.start raw.stop := by
  obtain ⟨tree, gives⟩ := exists_gives (spreads.mono (fun _ => Covers.toRanged) covers)
  have inked := gives.everywhere (fun _ _ covers gives => gives.inked covers) covers
  refine ⟨tree, to_tree_of_gives sound gives, gives.at?, ?_, inked, ?_⟩
  · intro settings parent path node index here
    exact ⟨_, gives.beside here parent index, Printer.parts_getElem? settings _ parent none _ index⟩
  · rw [gives.ink, Tree.ink_leaves inked]

def definitionSource : String := "#define é 1\n\n//\u00a0é\n"

/-- A definition, a comment with a blank that is no blank byte, and two line ends, one
of them inside the definition. -/
def definitionTree : RawTree :=
  let named : Marks := ⟨true, false, false, false⟩
  let unnamed : Marks := ⟨false, false, false, false⟩
  .branch "document" named 0 21
    [.branch "preproc_def" named 0 13
      [.branch "#define" unnamed 0 7 [], .branch "identifier" named 8 10 [],
       .branch "preproc_arg" named 11 12 [], .branch "\n" unnamed 12 13 []],
     .branch "comment" named 14 20 [],
     .branch "\n" unnamed 20 21 [.branch "\n" unnamed 20 21 []]]

theorem to_tree_keeps_ink_definition :
    ∃ tree, definitionTree.toTree definitionSource = .ok tree ∧
      (tree.at? [0, 2]).map Tree.text = some "1" ∧ (tree.at? [0, 3]).map Tree.text = none ∧
      (tree.at? [1]).map Tree.text = some "//\u00a0é" ∧ (tree.at? [2]).map Tree.text = none ∧
      tree.leaves.flatMap (fun leaf => ink leaf.text) = "#defineé1//é".toList := by
  have covers : definitionTree.Everywhere (Covers definitionSource) := by decide +kernel
  obtain ⟨tree, attached, copied, _, _, leaves⟩ := to_tree_keeps_ink rfl covers
  refine ⟨tree, attached, ?_, ?_, ?_, ?_, ?_⟩
  · rw [text_copied (copied [0, 2])]
    decide +kernel
  · rw [text_copied (copied [0, 3])]
    decide +kernel
  · rw [text_copied (copied [1])]
    decide +kernel
  · rw [text_copied (copied [2])]
    decide +kernel
  · rw [leaves]
    decide +kernel

end DevicetreeFormat.RawTree
