import DevicetreeFormat.Proofs.Slices

/-!
# The fault that is reported

Nodes are told apart by their paths, the indices that lead to them from the root.
Paths in lexicographic order are the nodes in preorder: a path comes before its
continuations, and those come before the paths of later siblings. The search for
a fault goes only into flagged children and answers with the first fault that can
be reached this way. Where the marks are consistent it can reach every fault, so
the report names the first fault of the tree.
-/

namespace DevicetreeFormat.RawTree

set_option autoImplicit false

/-! ### First faults -/

/-- An error or a missing node. -/
def isFault (raw : RawTree) : Bool :=
  raw.marks.error || raw.marks.missing

/-- A child that the search goes into. -/
def isFlagged (raw : RawTree) : Bool :=
  raw.marks.faulty || raw.marks.missing

/-- The node to which the indices lead through flagged children. The root need
not be flagged. -/
def flaggedAt? : RawTree → List Nat → Option RawTree
  | raw, [] => some raw
  | raw, index :: rest =>
      raw.children[index]?.bind fun child => if child.isFlagged then child.flaggedAt? rest else none

/-- The order in which preorder comes to the nodes with these paths. -/
def AtOrBefore : List Nat → List Nat → Prop
  | [], _ => True
  | _ :: _, [] => False
  | index :: path, place :: other => index < place ∨ index = place ∧ AtOrBefore path other

theorem AtOrBefore.antisymm {path other : List Nat} (before : AtOrBefore path other)
    (after : AtOrBefore other path) : path = other := by
  induction path generalizing other with
  | nil =>
      cases other with
      | nil => rfl
      | cons place rest => cases after
  | cons index path induction =>
      cases other with
      | nil => cases before
      | cons place rest =>
          rcases before with less | ⟨rfl, further⟩
          · rcases after with greater | ⟨rfl, _⟩ <;> omega
          · rcases after with greater | ⟨_, back⟩
            · omega
            · rw [induction further back]

/-- The first fault, in preorder, among nodes that are given by their paths. -/
structure IsFirst (nodes : List Nat → Option RawTree) (path : List Nat) (node : RawTree) : Prop where
  found : nodes path = some node
  fault : node.isFault = true
  first : ∀ other later, nodes other = some later → later.isFault = true → AtOrBefore path other

/-- The right answer of a search among nodes that are given by their paths. -/
def Answers (nodes : List Nat → Option RawTree) : Option RawTree → Prop
  | none => ∀ path node, nodes path = some node → node.isFault = false
  | some node => ∃ path, IsFirst nodes path node

/-- There is one right answer. -/
theorem Answers.unique {nodes : List Nat → Option RawTree} {answer other : Option RawTree}
    (right : Answers nodes answer) (alsoRight : Answers nodes other) : answer = other := by
  have absent {node : RawTree} {path : List Nat} (nothing : Answers nodes none)
      (first : IsFirst nodes path node) : False := by
    have sound := nothing path node first.found
    rw [first.fault] at sound
    cases sound
  cases answer with
  | none =>
      cases other with
      | none => rfl
      | some node =>
          obtain ⟨path, first⟩ := alsoRight
          exact (absent right first).elim
  | some node =>
      obtain ⟨path, first⟩ := right
      cases other with
      | none => exact (absent alsoRight first).elim
      | some node =>
          obtain ⟨place, alsoFirst⟩ := alsoRight
          have same : path = place :=
            (first.first place _ alsoFirst.found alsoFirst.fault).antisymm
              (alsoFirst.first path _ first.found first.fault)
          rw [← first.found, ← alsoFirst.found, same]

/-- Only the faults among the nodes matter. -/
theorem Answers.congr {nodes others : List Nat → Option RawTree} {answer : Option RawTree}
    (same : ∀ path node, node.isFault = true → (nodes path = some node ↔ others path = some node))
    (right : Answers nodes answer) : Answers others answer := by
  cases answer with
  | none =>
      intro path node found
      by_contra fault
      have fault : node.isFault = true := by simpa using fault
      rw [right path node ((same path node fault).mpr found)] at fault
      cases fault
  | some node =>
      obtain ⟨path, found, fault, first⟩ := right
      refine ⟨path, (same path node fault).mp found, fault, ?_⟩
      intro other later reached isFault
      exact first other later ((same other later isFault).mpr reached) isFault

/-! ### The search -/

/-- The nodes below a list of siblings that can be reached through flagged ones. -/
def flaggedIn? (raws : List RawTree) : List Nat → Option RawTree
  | [] => none
  | index :: rest =>
      raws[index]?.bind fun raw => if raw.isFlagged then raw.flaggedAt? rest else none

theorem answers_root {raw : RawTree} (fault : raw.isFault = true) :
    Answers raw.flaggedAt? (some raw) :=
  ⟨[], rfl, fault, fun _ _ _ _ => trivial⟩

/-- A root that is no fault leaves the search to its children. -/
theorem answers_children {raw : RawTree} {answer : Option RawTree} (sound : raw.isFault = false)
    (right : Answers (flaggedIn? raw.children) answer) : Answers raw.flaggedAt? answer := by
  refine right.congr fun path node fault => ?_
  cases path with
  | nil =>
      constructor
      · intro found
        cases found
      · intro found
        cases found
        rw [sound] at fault
        cases fault
  | cons index rest => rfl

/-- An answer from the first sibling is the answer: the paths into later siblings
come after it. -/
theorem answers_first {raw node : RawTree} {rest : List RawTree} (flagged : raw.isFlagged = true)
    (right : Answers raw.flaggedAt? (some node)) : Answers (flaggedIn? (raw :: rest)) (some node) := by
  obtain ⟨path, found, fault, first⟩ := right
  refine ⟨0 :: path, ?_, fault, ?_⟩
  · simp [flaggedIn?, flagged, found]
  · intro other later reached isFault
    cases other with
    | nil => cases reached
    | cons index below =>
        cases index with
        | zero =>
            have inside : raw.flaggedAt? below = some later := by
              simpa [flaggedIn?, flagged] using reached
            exact .inr ⟨rfl, first below later inside isFault⟩
        | succ index => exact .inl (Nat.succ_pos index)

/-- A first sibling without a fault that can be reached leaves the search to the
others. -/
theorem answers_rest {raw : RawTree} {rest : List RawTree} {answer : Option RawTree}
    (nothing : raw.isFlagged = true → Answers raw.flaggedAt? none)
    (right : Answers (flaggedIn? rest) answer) : Answers (flaggedIn? (raw :: rest)) answer := by
  have skipped (below : List Nat) (node : RawTree)
      (reached : flaggedIn? (raw :: rest) (0 :: below) = some node) : node.isFault = false := by
    cases flagged : raw.isFlagged with
    | false => simp [flaggedIn?, flagged] at reached
    | true =>
        simp only [flaggedIn?, flagged, List.getElem?_cons_zero, Option.bind_some, if_true] at reached
        exact nothing flagged below node reached
  cases answer with
  | none =>
      intro path node reached
      match path with
      | [] => cases reached
      | 0 :: below => exact skipped below node reached
      | (index + 1) :: below => exact right (index :: below) node reached
  | some node =>
      obtain ⟨path, found, fault, first⟩ := right
      cases path with
      | nil => cases found
      | cons index below =>
          refine ⟨(index + 1) :: below, found, fault, ?_⟩
          intro other later reached isFault
          match other with
          | [] => cases reached
          | 0 :: inside =>
              rw [skipped inside later reached] at isFault
              cases isFault
          | (place + 1) :: inside =>
              have order := first (place :: inside) later reached isFault
              exact order.imp Nat.succ_lt_succ (And.imp_left (congrArg Nat.succ))

mutual

theorem first_fault_answers : ∀ raw : RawTree, Answers raw.flaggedAt? raw.firstFault
  | branch name marks start stop children => by
      rw [firstFault]
      split
      · next fault => exact answers_root fault
      · next sound =>
          exact answers_children (Bool.not_eq_true _ ▸ sound) (first_fault_in_answers children)

theorem first_fault_in_answers : ∀ raws : List RawTree, Answers (flaggedIn? raws) (firstFaultIn raws)
  | [] => by
      intro path node reached
      cases path <;> cases reached
  | raw :: rest => by
      have here := first_fault_answers raw
      have later := first_fault_in_answers rest
      rw [firstFaultIn]
      split
      · next flagged =>
          cases answer : raw.firstFault with
          | some node =>
              rw [answer] at here
              exact answers_first flagged here
          | none =>
              rw [answer] at here
              exact answers_rest (fun _ => here) later
      · next unflagged => exact answers_rest (fun flagged => absurd flagged unflagged) later

end

theorem first_fault_eq_iff {raw : RawTree} {answer : Option RawTree} :
    raw.firstFault = answer ↔ Answers raw.flaggedAt? answer := by
  constructor
  · intro same
    rw [← same]
    exact first_fault_answers raw
  · exact (first_fault_answers raw).unique

/-! ### Consistent marks -/

theorem everywhere_of_at? {rule : RawTree → Prop} (raw : RawTree) :
    (∀ path node, raw.at? path = some node → rule node) → raw.Everywhere rule := by
  apply spreads.climb _ raw
  intro raw children holds
  refine everywhere_iff.mpr ⟨holds [] raw rfl, ?_⟩
  intro child member
  obtain ⟨index, here⟩ := List.getElem?_of_mem member
  exact children child member fun path node reached =>
    holds (index :: path) node (Option.bind_eq_some_iff.mpr ⟨child, here, reached⟩)

/-- The nodes of a tree are those to which a path leads. -/
theorem everywhere_iff_at? {rule : RawTree → Prop} {raw : RawTree} :
    raw.Everywhere rule ↔ ∀ path node, raw.at? path = some node → rule node := by
  refine ⟨?_, everywhere_of_at? raw⟩
  intro holds path
  induction path generalizing raw with
  | nil =>
      intro node reached
      cases reached
      exact (everywhere_iff.mp holds).1
  | cons index rest induction =>
      intro node reached
      obtain ⟨child, here, below⟩ := Option.bind_eq_some_iff.mp reached
      exact induction ((everywhere_iff.mp holds).2 child (List.mem_of_getElem? here)) node below

def ContainsFault (raw : RawTree) : Prop :=
  ∃ path node, raw.at? path = some node ∧ node.isFault = true

theorem contains_fault_iff {raw : RawTree} :
    ¬ raw.Everywhere (fun node => node.isFault = false) ↔ raw.ContainsFault := by
  simp [everywhere_iff_at?, ContainsFault]

instance (raw : RawTree) : Decidable raw.ContainsFault :=
  decidable_of_iff _ contains_fault_iff

/-- Exactly the nodes that are or contain a fault are marked as faulty. -/
def Consistent (raw : RawTree) : Prop :=
  raw.Everywhere fun node => node.marks.faulty = true ↔ node.ContainsFault

instance (raw : RawTree) : Decidable raw.Consistent :=
  inferInstanceAs (Decidable (raw.Everywhere _))

theorem at?_of_flagged_at? {raw node : RawTree} {path : List Nat}
    (reached : raw.flaggedAt? path = some node) : raw.at? path = some node := by
  induction path generalizing raw with
  | nil => exact reached
  | cons index rest induction =>
      obtain ⟨child, here, below⟩ := Option.bind_eq_some_iff.mp reached
      split at below
      · exact Option.bind_eq_some_iff.mpr ⟨child, here, induction below⟩
      · cases below

/-- With consistent marks, all nodes on the way to a fault are flagged. -/
theorem flagged_at?_of_at? {raw node : RawTree} {path : List Nat} (consistent : raw.Consistent)
    (fault : node.isFault = true) (reached : raw.at? path = some node) :
    raw.flaggedAt? path = some node := by
  induction path generalizing raw with
  | nil => exact reached
  | cons index rest induction =>
      obtain ⟨child, here, below⟩ := Option.bind_eq_some_iff.mp reached
      have inside := (everywhere_iff.mp consistent).2 child (List.mem_of_getElem? here)
      have faulty : child.marks.faulty = true :=
        (everywhere_iff.mp inside).1.mpr ⟨rest, node, below, fault⟩
      have flagged : child.isFlagged = true := by rw [isFlagged, faulty, Bool.true_or]
      refine Option.bind_eq_some_iff.mpr ⟨child, here, ?_⟩
      rw [if_pos flagged]
      exact induction inside below

/-- With consistent marks, the search misses no fault of the tree. -/
theorem answers_at? {raw : RawTree} (consistent : raw.Consistent) :
    Answers raw.at? raw.firstFault :=
  (first_fault_answers raw).congr fun _ _ fault =>
    ⟨at?_of_flagged_at?, flagged_at?_of_at? consistent fault⟩

/-! ### The report -/

/-- The line and the column of a byte, both counted from one: the bytes before it
are whole lines and then a part of its own line. -/
def PlacedAt (source : ByteArray) (offset line column : Nat) : Prop :=
  ∃ lines current, (slice source 0 offset).data.toList = lines ++ current ∧
    (∀ byte ∈ lines.getLast?, byte = 0x0A) ∧ 0x0A ∉ current ∧
    line = lines.count 0x0A + 1 ∧ column = current.length + 1

theorem position_placed_at (source : ByteArray) (offset : Nat) :
    PlacedAt source offset (position source offset).1 (position source offset).2 := by
  let back := (slice source 0 offset).data.toList.reverse
  have split : back.takeWhile (· != 0x0A) ++ back.dropWhile (· != 0x0A) = back :=
    List.takeWhile_append_dropWhile
  have own : 0x0A ∉ back.takeWhile (· != 0x0A) := by
    intro member
    have other := List.all_eq_true.mp List.all_takeWhile 0x0A member
    cases other
  have bytes : (slice source 0 offset).data.toList =
      (back.dropWhile (· != 0x0A)).reverse ++ (back.takeWhile (· != 0x0A)).reverse := by
    rw [← List.reverse_append, split, List.reverse_reverse]
  refine ⟨_, _, bytes, ?_, by simpa using own, ?_, by rw [List.length_reverse]; rfl⟩
  · intro byte last
    rw [List.getLast?_reverse] at last
    have ends := List.head?_dropWhile_not (· != 0x0A) back
    rw [last] at ends
    simpa using ends
  · change (slice source 0 offset).data.toList.count 0x0A + 1 = _
    have none : (back.takeWhile (· != 0x0A)).reverse.count 0x0A = 0 :=
      List.count_eq_zero_of_not_mem (by simpa using own)
    rw [bytes, List.count_append, none, Nat.add_zero]

theorem to_tree_of_is_first {root node : RawTree} {path : List Nat} (consistent : root.Consistent)
    (first : IsFirst root.at? path node) (source : String) :
    root.toTree source = .error (node.fault source.toUTF8) := by
  have faulty : root.marks.faulty = true :=
    (everywhere_iff.mp consistent).1.mpr ⟨path, node, first.found, first.fault⟩
  have found : root.firstFault = some node := (answers_at? consistent).unique ⟨path, first⟩
  rw [toTree, if_pos faulty, found]
  rfl

/-- A tree that contains a fault has a first one. -/
theorem exists_is_first {root : RawTree} (consistent : root.Consistent)
    (contains : root.ContainsFault) : ∃ path node, IsFirst root.at? path node := by
  have right := answers_at? consistent
  cases answer : root.firstFault with
  | some node =>
      rw [answer] at right
      obtain ⟨path, first⟩ := right
      exact ⟨path, node, first⟩
  | none =>
      rw [answer] at right
      obtain ⟨path, node, reached, fault⟩ := contains
      rw [right path node reached] at fault
      cases fault

theorem fault_ne_undecodable (source : ByteArray) (node : RawTree) :
    node.fault source ≠ .undecodable := by
  rw [fault]
  cases node.marks.missing <;> nofun

/-- Trees with consistent marks are refused for a fault exactly if they have one. -/
theorem to_tree_refuses_iff {root : RawTree} (consistent : root.Consistent) (source : String) :
    (∃ fault, fault ≠ .undecodable ∧ root.toTree source = .error fault) ↔ root.ContainsFault := by
  constructor
  · rintro ⟨fault, decodable, refused⟩
    by_contra sound
    have unmarked : root.marks.faulty = false := by
      rw [← Bool.not_eq_true, (everywhere_iff.mp consistent).1]
      exact sound
    simp only [toTree, unmarked] at refused
    cases attached : attach source.toUTF8 root with
    | none =>
        simp only [attached] at refused
        cases refused
        exact decodable rfl
    | some tree =>
        simp only [attached] at refused
        cases refused
  · intro contains
    obtain ⟨path, node, first⟩ := exists_is_first consistent contains
    exact ⟨_, fault_ne_undecodable _ node, to_tree_of_is_first consistent first source⟩

theorem message_fault (source : ByteArray) (node : RawTree) :
    (node.fault source).message =
      (if node.marks.missing then "missing '" ++ node.name ++ "' at line "
        else "syntax error at line ") ++ toString (position source node.start).1 ++
        ", column " ++ toString (position source node.start).2 := by
  rw [fault]
  cases node.marks.missing with
  | true => rfl
  | false => rfl

/-- **The first fault is reported.** The search answers with the first fault, in
preorder, that can be reached through flagged children, and with nothing if none
can. A tree with consistent marks is refused for a fault exactly if it contains one.
The report then gives the line and column of its first fault and says whether that
node is missing. -/
theorem to_tree_reports_first_fault (root : RawTree) :
    (∀ node, root.firstFault = some node ↔ ∃ path, IsFirst root.flaggedAt? path node) ∧
    (root.firstFault = none ↔
      ∀ path node, root.flaggedAt? path = some node → node.isFault = false) ∧
    (root.Consistent → ∀ source,
      ((∃ fault, fault ≠ .undecodable ∧ root.toTree source = .error fault) ↔ root.ContainsFault) ∧
      (root.ContainsFault → ∃ path node line column fault, IsFirst root.at? path node ∧
        PlacedAt source.toUTF8 node.start line column ∧ root.toTree source = .error fault ∧
        fault = (if node.marks.missing then .missing node.name line column
          else .unexpected line column) ∧
        fault.message = (if node.marks.missing then "missing '" ++ node.name ++ "' at line "
          else "syntax error at line ") ++ toString line ++ ", column " ++ toString column)) := by
  refine ⟨fun node => first_fault_eq_iff, first_fault_eq_iff, ?_⟩
  intro consistent source
  refine ⟨to_tree_refuses_iff consistent source, ?_⟩
  intro contains
  obtain ⟨path, node, first⟩ := exists_is_first consistent contains
  exact ⟨path, node, _, _, _, first, position_placed_at _ _, to_tree_of_is_first consistent first source,
    rfl, message_fault _ node⟩

def unfinishedSource : String := "/ \x7b\n  é = <1>\n\x7d;\n\x7d\n"

def semicolon : RawTree := .branch ";" ⟨false, false, true, true⟩ 14 14 []

def brace : RawTree := .branch "ERROR" ⟨true, true, false, true⟩ 18 19 []

/-- A node whose property lacks its semicolon, and a closing brace too many. -/
def unfinishedTree : RawTree :=
  let sound : Marks := ⟨true, false, false, false⟩
  let faulty : Marks := ⟨true, false, false, true⟩
  .branch "document" faulty 0 20
    [.branch "node" faulty 0 17
      [.branch "identifier" sound 0 1 [], .branch "\x7b" sound 2 3 [],
       .branch "property" faulty 6 14
        [.branch "identifier" sound 6 8 [], .branch "integer_cells" sound 11 14 [], semicolon],
       .branch "\x7d" sound 15 16 [], .branch ";" sound 16 17 []],
     brace]

/-- A node that is marked as faulty without a fault in it, before a fault. -/
def misleadingTree : RawTree :=
  let sound : Marks := ⟨true, false, false, false⟩
  let faulty : Marks := ⟨true, false, false, true⟩
  .branch "document" faulty 0 20
    [.branch "node" faulty 0 17 [.branch "identifier" faulty 0 1 []],
     .branch "node" sound 0 17 [semicolon], brace]

theorem to_tree_reports_first_fault_unfinished :
    unfinishedTree.Consistent ∧ (∃ path, IsFirst unfinishedTree.at? path semicolon) ∧
      PlacedAt unfinishedSource.toUTF8 semicolon.start 2 11 ∧
      unfinishedTree.toTree unfinishedSource = .error (.missing ";" 2 11) ∧
      ∃ path, IsFirst misleadingTree.flaggedAt? path brace := by
  have consistent : unfinishedTree.Consistent := by decide +kernel
  have contains : unfinishedTree.ContainsFault := by decide +kernel
  have refused : unfinishedTree.toTree unfinishedSource = .error (.missing ";" 2 11) := rfl
  obtain ⟨path, node, line, column, fault, first, placed, same, named, _⟩ :=
    ((to_tree_reports_first_fault unfinishedTree).2.2 consistent unfinishedSource).2 contains
  have found : some semicolon = some node := (answers_at? consistent).unique ⟨path, first⟩
  cases found
  rw [refused, named] at same
  cases same
  exact ⟨consistent, ⟨path, first⟩, placed, refused,
    ((to_tree_reports_first_fault misleadingTree).1 brace).mp rfl⟩

end DevicetreeFormat.RawTree
