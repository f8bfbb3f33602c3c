import DevicetreeFormat.Proofs.Directives.Lines

/-!
# Runs of directives

A directive or a conditional may stand in a branch of a conditional. What is written
directly behind it decides whether a run of directives goes on or ends with an empty
line. If the directive is the last item of its branch, this is what stands behind the
branch, and so on outwards up to the closing keyword of the conditional.
-/

namespace DevicetreeFormat

set_option autoImplicit false

open Text

namespace Frame

/-- The named node directly behind the gap. -/
def next (frame : Frame) : Option Tree :=
  frame.after.head?.filter Tree.named

/-- Behind the gap of a branch there are items and at last the closing keyword. Behind
a gap that holds a node of kind `kind`, which is a branch itself, there are only
branches and comments. -/
@[mk_iff] structure Orderly (kind : Kind) (frame : Frame) : Prop where
  closed : ∀ tree ∈ frame.after.dropWhile Tree.named, tree.isEndif = true
  later : kind.isBranch = true → ∀ tree ∈ frame.after, tree.named = true →
    tree.kind.isBranch = true ∨ tree.kind = .comment

instance (kind : Kind) (frame : Frame) : Decidable (frame.Orderly kind) :=
  decidable_of_iff' _ (orderly_iff kind frame)

/-- The kind of a tree that encloses an item of kind `kind`. -/
def held (kind : Kind) : List Frame → Kind
  | [] => kind
  | frame :: _ => frame.kind

theorem enclose_kind (path : List Frame) (item : Tree) :
    (enclose path item).kind = held item.kind path := by
  cases path <;> rfl

def OrderlyAlong (kind : Kind) : List Frame → Prop
  | [] => True
  | frame :: path => frame.Orderly (held kind path) ∧ OrderlyAlong kind path

instance decideOrderlyAlong (kind : Kind) : (path : List Frame) → Decidable (OrderlyAlong kind path)
  | [] => inferInstanceAs (Decidable True)
  | frame :: path =>
      have := decideOrderlyAlong kind path
      inferInstanceAs (Decidable (frame.Orderly (held kind path) ∧ _))

/-- A conditional and the branches that lead to one of its items. -/
def isArm : List Frame → Bool
  | [] => false
  | frame :: path => frame.kind.isConditional && path.all fun branch => branch.kind.isBranch

theorem hosts_append {branching : Bool} {outer inner : List Frame}
    (hosted : hosts branching (outer ++ inner) = true) :
    hosts branching outer = true ∧ (∃ inside, hosts inside inner = true) ∧
      ∀ frame ∈ outer.getLast?, frame.kind.isWrapper = true →
        (inner.head?.all fun below => below.kind.isWrappable) = true := by
  induction outer generalizing branching with
  | nil => exact ⟨rfl, ⟨branching, hosted⟩, by simp⟩
  | cons frame outer induction =>
      rw [List.cons_append, hosts, Bool.and_eq_true] at hosted
      obtain ⟨named, place⟩ := hosted
      have heads : ((outer ++ inner).head?.all fun below => below.kind.isWrappable) = true →
          (outer.head?.all fun below => below.kind.isWrappable) = true := by
        cases outer <;> simp
      -- the last of the outer frames is the first one or one of the others
      have lasts : (frame.kind.isWrapper = true →
            ((outer ++ inner).head?.all fun below => below.kind.isWrappable) = true) →
          (∀ other ∈ outer.getLast?, other.kind.isWrapper = true →
            (inner.head?.all fun below => below.kind.isWrappable) = true) →
          ∀ other ∈ (frame :: outer).getLast?, other.kind.isWrapper = true →
            (inner.head?.all fun below => below.kind.isWrappable) = true := by
        intro here others other member
        cases outer with
        | nil =>
            obtain rfl : frame = other := by simpa using member
            exact here
        | cons second outer => exact others other (by rwa [List.getLast?_cons_cons] at member)
      rw [hosts, named, Bool.true_and]
      cases known : frame.kind <;> simp only [known, Bool.and_eq_true, decide_eq_true_eq] at place lasts ⊢
      case node =>
        obtain ⟨before, inside, after⟩ := induction place.2
        exact ⟨⟨place.1, before⟩, inside, lasts (by simp [Kind.isWrapper]) after⟩
      case omitIfNoRef | labeledItem =>
        obtain ⟨before, inside, after⟩ := induction place.2
        exact ⟨⟨heads place.1, before⟩, inside, lasts (fun _ => place.1) after⟩
      case ifDirective | ifdefDirective | elseBranch | elifBranch | elifdefBranch =>
        obtain ⟨before, inside, after⟩ := induction place.2
        exact ⟨⟨place.1, before⟩, inside, lasts (by simp [Kind.isWrapper]) after⟩
      all_goals cases place

end Frame

namespace Printer

open DevicetreeFormat.Frame

/-! ### Behind a gap -/

/-- Whether an empty line stands behind a node of the given kind in a gap, if anything
does before its branch ends. -/
def gapEnding (kind : Kind) (frame : Frame) : Option Bool :=
  frame.next.map fun next => !joins kind next.kind

theorem after_of_next {frame : Frame} {next : Tree} (found : frame.next = some next) :
    ∃ later, frame.after = next :: later ∧ next.named = true := by
  rw [Frame.next, Option.filter_eq_some_iff, List.head?_eq_some_iff] at found
  obtain ⟨⟨later, shape⟩, named⟩ := found
  exact ⟨later, shape, named⟩

theorem after_closes {kind : Kind} {frame : Frame} (orderly : frame.Orderly kind) (none : frame.next = none) :
    ∀ tree ∈ frame.after, tree.isEndif = true := by
  have closed := orderly.closed
  rw [Frame.next] at none
  cases shape : frame.after with
  | nil => simp
  | cons next others =>
      have unnamed : next.named = false := by simpa [shape, Option.filter_eq_none_iff] using none
      simpa [shape, List.dropWhile_cons, unnamed] using closed

theorem end_run_spot (place : Place) (frame : Frame) (similar : Kind → Bool) :
    endRun (spot place frame) similar =
      if frame.next.any (fun next => !similar next.kind) then [.write "\n"] else [] := by
  have around : (spot place frame).after = neighbour? frame.after := rfl
  rw [endRun, around, Frame.next]
  cases frame.after with
  | nil => rfl
  | cons next others =>
      cases named : next.named <;> simp [neighbour?, Option.filter, named]

/-- A comment separates itself from a branch before it. -/
theorem comment_proceeds (settings : Settings) {place : Place} {before : Kind} (context : Context)
    (preceded : place.before = some before) (other : before ≠ .comment) {comment : Tree}
    (kind : comment.kind = .comment) :
    Proceeds (some true) ((part settings place comment).print context) := by
  rw [print_comment _ _ _ kind, printComment, apart, preceded]
  simp only [if_neg other]
  exact proceeds_separate _

theorem behind_proceeds (settings : Settings) (place : Place) {context : Context}
    (unit : isIndentUnit context.indentUnit = true) {frame : Frame} (tree : Tree)
    (keyed : (tree.kind.isDirective || tree.kind.isBranch) = true) (orderly : frame.Orderly tree.kind)
    (headed : ∀ child ∈ frame.after, child.Headed) :
    Proceeds (gapEnding tree.kind frame)
      (trail (spot place frame) tree ++
        (behind settings place frame tree).flatMap (branchChild context)) := by
  have trailing : trail (spot place frame) tree =
      if tree.kind.isDirective && frame.next.any (fun next => !joins tree.kind next.kind) then [.write "\n"]
      else [] := by
    by_cases directive : tree.kind.isDirective = true
    · rw [trail_directive directive, end_run_spot, directive, Bool.true_and]
    · rw [trail_branch (by simpa [directive] using keyed), if_neg (by simp [directive])]
  rw [trailing, gapEnding]
  cases found : frame.next with
  | none =>
      rw [behind, branch_children_closing settings _ _ _ _ (after_closes orderly found)]
      simp [Proceeds]
  | some next =>
      obtain ⟨later, shape, named⟩ := after_of_next found
      have present : next ∈ frame.after := by simp [shape]
      rw [behind, shape, parts, List.flatMap_cons]
      simp only [Option.any_some, Option.map_some]
      by_cases joined : joins tree.kind next.kind = true
      · have begins := branch_child_begins settings
          (childPlace frame.kind place (some tree.kind) (neighbour? later)) context
          (headed next present) named (keyed_of_joins joined)
        simp only [joined, Bool.not_true, Bool.and_false, Bool.false_eq_true, if_false, List.nil_append]
        exact (begins.opens unit).append _
      · rw [Bool.not_eq_true] at joined
        simp only [joined, Bool.not_false, Bool.and_true]
        by_cases directive : tree.kind.isDirective = true
        · rw [if_pos directive]
          exact proceeds_break _
        · have branch : tree.kind.isBranch = true := by simpa [directive] using keyed
          rw [joins_branch branch] at joined
          -- what is no branch behind a branch is a comment
          have comment := (orderly.later branch next present named).resolve_left (by simp [joined])
          have noComment : tree.kind ≠ .comment := by
            intro same
            rw [same] at branch
            cases branch
          rw [if_neg directive, branch_child_item _ _ _ named joined]
          exact (comment_proceeds settings context rfl noComment comment).further _

/-- Whether an empty line stands behind an item at the end of a path, if anything does
before the outermost node of the path ends. -/
def ending (kind : Kind) : List Frame → Option Bool
  | [] => none
  | frame :: path => (ending kind path).or (gapEnding (held kind path) frame)

theorem enclose_seen_eq (path : List Frame) {item other : Tree} (same : seen other = seen item) :
    seen (enclose path other) = seen (enclose path item) := by
  cases path with
  | nil => exact same
  | cons frame path =>
      have alike : (seen other).Alike (seen item) := by
        rw [same]
        exact Neighbour.alike_refl _
      have inner : (enclose (frame :: path) other).innerKind = (enclose (frame :: path) item).innerKind :=
        (enclose_seen (frame :: path) alike).inner
      simp only [seen, inner]
      rfl

/-- A family of command lists that print an item like `item` as if it stood alone, then
`back`, between commands that do not depend on the item. -/
def Prints (settings : Settings) (context : Context) (item : Tree) (family : Tree → List Command)
    (back : List Command) : Prop :=
  ∃ front, ∀ other, seen other = seen item → other.Headed →
    family other = front ++ (part settings {} other).print context ++ back

section

variable (settings : Settings) {context : Context} (unit : isIndentUnit context.indentUnit = true)
  {item : Tree} (directive : item.kind.isDirective = true) (named : item.named = true)

include unit

/-- One step outwards along a path. -/
theorem frame_prints {frame : Frame} {path : List Frame} (place : Place)
    (words : Tree.branchWords frame.kind ≤ frame.before.length)
    (keyed : ((held item.kind path).isDirective || (held item.kind path).isBranch) = true)
    (orderly : frame.Orderly (held item.kind path)) (headed : ∀ child ∈ frame.after, child.Headed)
    {inside : List Command} (proceeds : Proceeds (ending item.kind path) inside)
    (prints : Prints settings context item
      (fun other => branchChild context (part settings (spot place frame) (enclose path other)))
      (inside ++ trail (spot place frame) (enclose path item))) :
    ∃ back, Proceeds (ending item.kind (frame :: path)) back ∧
      Prints settings context item (fun other =>
        printBranch frame.kind (inner settings place (enclose (frame :: path) other)) context) back := by
  obtain ⟨front, each⟩ := prints
  have kind := enclose_kind path item
  have goes := behind_proceeds settings place unit (enclose path item) (by rwa [kind]) (by rwa [kind]) headed
  rw [kind] at goes
  refine ⟨_, proceeds_append proceeds goes,
    printBranch frame.kind (ahead settings place frame (enclose path item)) context ++ front, ?_⟩
  intro other same otherHeaded
  have around := enclose_seen_eq path same
  have before : ahead settings place frame (enclose path other) =
      ahead settings place frame (enclose path item) := by
    rw [ahead, ahead, around]
  have after : behind settings place frame (enclose path other) =
      behind settings place frame (enclose path item) := by
    have sameKind : (enclose path other).kind = (enclose path item).kind :=
      congrArg Neighbour.kind around
    rw [behind, behind, sameKind]
  have inner := each other same otherHeaded
  beta_reduce at inner ⊢
  rw [enclose, print_branch_fill settings place context words, before, after, inner]
  simp only [List.append_assoc]

include directive

omit unit in
theorem held_keyed {path : List Frame} (branches : ∀ frame ∈ path, frame.kind.isBranch = true) :
    ((held item.kind path).isDirective || (held item.kind path).isBranch) = true := by
  cases path with
  | nil => rw [held, directive]; rfl
  | cons frame path => rw [held, branches frame (by simp), Bool.or_true]

include named

/-- The branches that lead to an item print it between commands that do not depend on
it, and how they go on behind it is read off the path. -/
theorem branches_print {path : List Frame}
    (branches : ∀ frame ∈ path, frame.kind.isBranch = true) (hosted : hosts true path = true)
    (orderly : OrderlyAlong item.kind path)
    (headed : ∀ frame ∈ path, ∀ child ∈ frame.after, child.Headed) (place : Place) :
    ∃ back, Proceeds (ending item.kind path) back ∧
      Prints settings context item
        (fun other => branchChild context (part settings place (enclose path other)))
        (back ++ trail place (enclose path item)) := by
  induction path generalizing place with
  | nil =>
      refine ⟨[], rfl, [], ?_⟩
      intro other same otherHeaded
      have kind : other.kind = item.kind := congrArg Neighbour.kind same
      have otherNamed : other.named = true := (congrArg Neighbour.named same).trans named
      have otherDirective : other.kind.isDirective = true := by rwa [kind]
      have plain := (plain_of_directive otherDirective).2
      have filled : other.children ≠ [] := otherHeaded.filled (by rw [otherDirective]; rfl)
      beta_reduce
      rw [enclose, enclose, branch_child_item _ _ _ otherNamed plain,
        print_trail settings otherDirective filled, trail_seen same]
      rfl
  | cons frame path induction =>
      -- the branch itself trails nothing, and what stands behind its gap comes after the path below
      have branch := branches frame (by simp)
      obtain ⟨_, ⟨plain, _⟩ | ⟨_, _, words, below⟩⟩ := hosts_cases hosted
      · rw [branch] at plain
        cases plain
      · have later : ∀ other ∈ path, other.kind.isBranch = true :=
          fun other member => branches other (by simp [member])
        obtain ⟨inside, proceeds, prints⟩ := induction later below orderly.2
          (fun other member => headed other (by simp [member])) (spot place frame)
        obtain ⟨back, goes, around⟩ := frame_prints settings unit place words
          (held_keyed directive later) orderly.1 (headed frame (by simp)) proceeds prints
        refine ⟨back, goes, ?_⟩
        obtain ⟨front, each⟩ := around
        refine ⟨front, ?_⟩
        intro other same otherHeaded
        have kind : ∀ tree, (enclose (frame :: path) tree).kind.isBranch = true := fun _ => branch
        beta_reduce
        rw [branchChild, part_kind, if_pos (kind other), part_print_branch, trail_branch (kind item),
          List.append_nil]
        exact each other same otherHeaded

/-- Behind the branches of a conditional stands at least its closing keyword. -/
theorem conditional_prints {frame : Frame} {path : List Frame}
    (conditional : frame.kind.isConditional = true)
    (words : Tree.branchWords frame.kind ≤ frame.before.length)
    (branches : ∀ other ∈ path, other.kind.isBranch = true) (hosted : hosts true path = true)
    (orderly : OrderlyAlong item.kind (frame :: path))
    (headed : ∀ other ∈ frame :: path, ∀ child ∈ other.after, child.Headed) (place : Place) :
    ∃ back, Proceeds (some ((ending item.kind (frame :: path)).getD false)) back ∧
      Prints settings context item
        (fun other => (part settings place (enclose (frame :: path) other)).print context) back := by
  obtain ⟨inside, proceeds, prints⟩ := branches_print settings unit directive named branches hosted
    orderly.2 (fun other member => headed other (by simp [member])) (spot place frame)
  obtain ⟨back, goes, front, each⟩ := frame_prints settings unit place words
    (held_keyed directive branches) orderly.1 (headed frame (by simp)) proceeds prints
  have closing : Proceeds (some false)
      (writes [context.indentation, "#endif\n"] ++ endRun place Kind.isDirective) := by
    have begins : Begins context (writes [context.indentation, "#endif\n"] ++ endRun place Kind.isDirective) :=
      ⟨"#endif\n", _, ink_first_cons rfl _, rfl⟩
    exact begins.opens unit
  have status : (ending item.kind (frame :: path)).or (some false) =
      some ((ending item.kind (frame :: path)).getD false) := by
    cases ending item.kind (frame :: path) <;> rfl
  refine ⟨_, status ▸ proceeds_append goes closing, front, ?_⟩
  intro other same otherHeaded
  have kind : (enclose (frame :: path) other).kind.isConditional = true := conditional
  have branch := each other same otherHeaded
  beta_reduce at branch ⊢
  rw [print_conditional _ _ _ kind, printConditional]
  have printed : printBranch (enclose (frame :: path) other).kind
      (inner settings place (enclose (frame :: path) other)) context =
        front ++ (part settings {} other).print context ++ back := branch
  rw [printed]
  simp only [List.append_assoc]

end

/-! ### Paths -/

theorem enclose_append (outer inner : List Frame) (item : Tree) :
    enclose (outer ++ inner) item = enclose outer (enclose inner item) := by
  induction outer with
  | nil => rfl
  | cons frame outer induction => rw [List.cons_append, enclose, enclose, induction]

/-- What holds everywhere in a tree holds of what stands behind the gaps of a path. -/
theorem everywhere_behind {rule : Tree → Prop} {path : List Frame} {item : Tree}
    (holds : (enclose path item).Everywhere rule) :
    ∀ frame ∈ path, ∀ child ∈ frame.after, child.Everywhere rule := by
  induction path with
  | nil => simp
  | cons frame path induction =>
      have below := (Tree.everywhere_iff.mp holds).2
      rw [enclose, fill_children] at below
      intro other member child present
      rcases List.mem_cons.mp member with rfl | later
      · exact below child (by simp [present])
      · exact induction (below _ (by simp)) other later child present

theorem fill_everywhere {rule : Tree → Prop} {frame : Frame} {tree other : Tree}
    (holds : ∀ child ∈ (frame.fill tree).children, child.Everywhere rule) (also : other.Everywhere rule) :
    ∀ child ∈ (frame.fill other).children, child.Everywhere rule := by
  intro child member
  rw [fill_children] at holds member
  rcases List.mem_append.mp member with before | within
  · exact holds child (List.mem_append_left _ before)
  · rcases List.mem_cons.mp within with rfl | after
    · exact also
    · exact holds child (by simp [after])

/-- Nodes with a gap have a child in it, whatever stands there. -/
theorem enclose_filled {path : List Frame} {item other : Tree}
    (filled : (enclose path item).Everywhere Tree.Filled) (also : other.Everywhere Tree.Filled) :
    (enclose path other).Everywhere Tree.Filled := by
  induction path with
  | nil => exact also
  | cons frame path induction =>
      have below : ∀ child ∈ (frame.fill (enclose path item)).children, child.Everywhere Tree.Filled :=
        (Tree.everywhere_iff.mp filled).2
      rw [enclose, Tree.everywhere_iff]
      exact ⟨fun _ => by simp, fill_everywhere below (induction (below _ (by simp)))⟩

theorem held_concat {kind : Kind} {trunk : List Frame} {last : Frame}
    (branches : ∀ frame ∈ trunk ++ [last], frame.kind.isBranch = true) :
    (held kind (trunk ++ [last])).isBranch = true := by
  cases trunk with
  | nil => exact branches last (by simp)
  | cons frame trunk => exact branches frame (by simp)

/-- What stands behind an item, or else behind the branches that end with it. -/
theorem ending_concat (kind : Kind) {trunk : List Frame} {last : Frame}
    (branches : ∀ frame ∈ (trunk ++ [last]).tail, frame.kind.isBranch = true) :
    ending kind (trunk ++ [last]) = (gapEnding kind last).or
      ((trunk.reverse.findSome? Frame.next).map fun next => !next.kind.isBranch) := by
  induction trunk with
  | nil => simp [ending, held]
  | cons frame trunk induction =>
      have inner : (held kind (trunk ++ [last])).isBranch = true := held_concat branches
      have here : gapEnding (held kind (trunk ++ [last])) frame =
          frame.next.map fun next => !next.kind.isBranch := by
        rw [gapEnding, joins_branch inner]
      have later := induction fun other member => branches other (List.mem_of_mem_tail member)
      rw [List.cons_append, ending, later, here, List.reverse_cons, List.findSome?_append, Option.map_or,
        Option.or_assoc]
      simp

/-- Behind a branch there are only branches and comments. -/
theorem next_of_trunk {kind : Kind} {trunk : List Frame} {last : Frame}
    (branches : ∀ frame ∈ (trunk ++ [last]).tail, frame.kind.isBranch = true)
    (orderly : OrderlyAlong kind (trunk ++ [last])) {frame : Frame} (member : frame ∈ trunk) {next : Tree}
    (found : frame.next = some next) : next.kind.isBranch = true ∨ next.kind = .comment := by
  induction trunk with
  | nil => cases member
  | cons first trunk induction =>
      rcases List.mem_cons.mp member with rfl | later
      · obtain ⟨others, shape, named⟩ := after_of_next found
        exact orderly.1.later (held_concat branches) next (by simp [shape]) named
      · exact induction (fun other present => branches other (List.mem_of_mem_tail present)) orderly.2 later

theorem ending_iff {kind : Kind} (directive : kind.isDirective = true) {trunk : List Frame} {last : Frame}
    (branches : ∀ frame ∈ (trunk ++ [last]).tail, frame.kind.isBranch = true)
    (orderly : OrderlyAlong kind (trunk ++ [last])) :
    (ending kind (trunk ++ [last])).getD false = true ↔
      (∃ next, last.next = some next ∧
        (next.kind.isDirective = false ∧ next.kind.isBranch = false ∨
          kind.isConditional = true ∧ next.kind.isBranch = true)) ∨
      last.next = none ∧
        ∃ next, trunk.reverse.findSome? Frame.next = some next ∧ next.kind = .comment := by
  rw [ending_concat kind branches, gapEnding]
  cases last.next with
  | some next =>
      have apart : next.kind.isBranch = true → next.kind.isDirective = false := by
        intro branch
        generalize next.kind = kind at branch
        cases kind <;> cases branch <;> rfl
      simp only [Option.map_some, Option.some_or, Option.getD_some, Bool.not_eq_true', joins]
      cases conditional : kind.isConditional <;> cases branch : next.kind.isBranch <;> simp_all
  | none =>
      cases found : trunk.reverse.findSome? Frame.next with
      | none => simp
      | some next =>
          obtain ⟨frame, member, here⟩ := List.exists_of_findSome?_eq_some found
          have either := next_of_trunk branches orderly (List.mem_reverse.mp member) here
          have comment : next.kind.isBranch = false ↔ next.kind = .comment := by
            constructor
            · exact fun single => either.resolve_left (by simp [single])
            · intro comment
              rw [comment]
              rfl
          simp [comment]

theorem is_arm_tail {path : List Frame} (arm : isArm path = true) :
    ∀ frame ∈ path.tail, frame.kind.isBranch = true := by
  match path, arm with
  | frame :: path, arm =>
      rw [isArm, Bool.and_eq_true, List.all_eq_true] at arm
      exact arm.2

theorem hosts_conditional {branching : Bool} {frame : Frame} {path : List Frame}
    (hosted : hosts branching (frame :: path) = true) (conditional : frame.kind.isConditional = true) :
    Tree.branchWords frame.kind ≤ frame.before.length ∧ hosts true path = true := by
  rw [hosts, Bool.and_eq_true] at hosted
  generalize frame.kind = kind at hosted conditional
  cases kind <;> cases conditional <;> simpa using hosted.2

/-! ### Documents -/

/-- The commands of a document with an item in a branch of a conditional. -/
theorem document_prints (settings : Settings) (root : Frame) {outer arms : List Frame}
    (hosted : hosts false (outer ++ arms) = true) (arm : isArm arms = true) {item : Tree}
    (directive : item.kind.isDirective = true) (named : item.named = true)
    (orderly : OrderlyAlong item.kind arms)
    (headed : ∀ frame ∈ arms, ∀ child ∈ frame.after, child.Headed) :
    ∃ context back, Proceeds (some ((ending item.kind arms).getD false)) back ∧
      Prints settings context item
        (fun other => documentCommands settings (enclose (root :: (outer ++ arms)) other)) back := by
  match arms, arm, orderly, headed with
  | frame :: path, arm, orderly, headed =>
      rw [isArm, Bool.and_eq_true, List.all_eq_true] at arm
      obtain ⟨conditional, branches⟩ := arm
      obtain ⟨outside, ⟨branching, inside⟩, wraps⟩ := hosts_append hosted
      have plain : frame.kind.isBranch = false ∧ frame.kind ≠ .colon := by
        generalize frame.kind = kind at conditional
        cases kind <;> cases conditional <;> decide
      obtain ⟨words, below⟩ := hosts_conditional inside conditional
      obtain ⟨frameNamed, _⟩ := hosts_cases inside
      have seenNamed : (enclose (frame :: path) item).named = true := frameNamed
      have fits : Fits outer (enclose (frame :: path) item).kind := wraps
      obtain ⟨front, place, context, back, indents, shape⟩ :=
        document_surrounded_in settings seenNamed plain.1 plain.2 root fits outside
      have unit : isIndentUnit context.indentUnit = true := by
        rw [indents]
        exact settings.indentUnit_blank
      obtain ⟨rest, proceeds, lead, each⟩ := conditional_prints settings unit directive named
        conditional words branches below orderly headed place
      refine ⟨context, rest ++ back, proceeds.further back, front ++ lead, ?_⟩
      intro other same otherHeaded
      have alike : (seen (enclose (frame :: path) item)).Alike (seen (enclose (frame :: path) other)) := by
        rw [enclose_seen_eq (frame :: path) same]
        exact Neighbour.alike_refl _
      have printed := each other same otherHeaded
      have whole := shape (enclose (frame :: path) other) alike
      beta_reduce at printed whole ⊢
      rw [← List.cons_append, enclose_append, whole, printed]
      simp only [List.append_assoc]

/-- **Where a run of directives ends.** A directive or a conditional may stand in any
branch of a conditional, and the conditional anywhere. What is printed before and after
it does not depend on what it says. The line after it is blank in three cases: a named
node follows that is no directive and no branch; a branch follows and the item is a
conditional; nothing follows in its branch, and a comment follows the branch. -/
theorem directive_run_ends (settings : Settings) (root : Frame) {outer trunk : List Frame} {last : Frame}
    (hosted : hosts false (outer ++ (trunk ++ [last])) = true) (arm : isArm (trunk ++ [last]) = true)
    {item : Tree} (directive : item.kind.isDirective = true) (named : item.named = true)
    (orderly : OrderlyAlong item.kind (trunk ++ [last]))
    (headed : ∀ child ∈ (enclose (root :: (outer ++ (trunk ++ [last]))) item).children,
      child.Everywhere Tree.Headed) :
    ∃ (context : Context) (before after : String),
      (∀ other : Tree, other.kind = item.kind → other.named = true → other.Everywhere Tree.Headed →
        (∃ front c, c ≠ '\n' ∧ (shownIn settings context other).toList = front ++ [c, '\n']) ∧
        (formatTree settings (enclose (root :: (outer ++ (trunk ++ [last]))) other)).outcome =
          .ok (before ++ shownIn settings context other ++ after)) ∧
      (BlankFirst after.toList ↔
        (∃ next, last.next = some next ∧
          (next.kind.isDirective = false ∧ next.kind.isBranch = false ∨
            item.kind.isConditional = true ∧ next.kind.isBranch = true)) ∨
        last.next = none ∧
          ∃ next, trunk.reverse.findSome? Frame.next = some next ∧ next.kind = .comment) := by
  have inside : (enclose (outer ++ (trunk ++ [last])) item).Everywhere Tree.Headed :=
    headed _ (by rw [enclose, fill_children]; simp)
  have itemHeaded : item.Headed := Tree.spreads.self (enclose_everywhere inside)
  have behind : ∀ frame ∈ trunk ++ [last], ∀ child ∈ frame.after, child.Headed := fun frame member child present =>
    Tree.spreads.self (everywhere_behind inside frame (List.mem_append_right _ member) child present)
  obtain ⟨context, back, proceeds, front, each⟩ := document_prints settings root hosted arm directive named
    orderly behind
  -- behind a line that ends in ink, what follows does not depend on the line
  obtain ⟨added, adds⟩ := after_behind back ['\n']
  refine ⟨context, (({} : Output).after front).text, String.ofList added, ?_, ?_⟩
  · intro other kind otherNamed otherHeaded
    have otherDirective : other.kind.isDirective = true := by rwa [kind]
    have here := Tree.spreads.self otherHeaded
    obtain ⟨body, c, inked, ends⟩ := item_ends_inked settings otherDirective here context {}
    obtain ⟨lead, d, alsoInked, line⟩ := item_ends_inked settings otherDirective here context
      (({} : Output).after front)
    refine ⟨⟨body, c, newline_blank inked, ends⟩, ?_⟩
    have filled {tree : Tree} (holds : tree.Everywhere Tree.Headed) : tree.Everywhere Tree.Filled :=
      Tree.spreads.mono (fun _ headed => headed.filled) holds
    have complete : Complete (documentCommands settings
        (enclose (root :: (outer ++ (trunk ++ [last]))) other)) :=
      document_complete settings (fill_everywhere (fun child member => filled (headed child member))
        (enclose_filled (filled inside) (filled otherHeaded)))
    apply outcome_of_written complete
    have commands := each other (seen_directive otherDirective kind (otherNamed.trans named.symm)) here
    beta_reduce at commands
    rw [commands, Output.after_append, Output.after_append, adds _ lead d alsoInked line,
      shown_in_adds settings otherDirective here]
    simp [Output.written]
  · have inked := item_ends_inked settings directive itemHeaded context (({} : Output).after front)
    obtain ⟨lead, c, blank, line⟩ := inked
    rw [String.toList_ofList, blank_first_iff proceeds ⟨lead, c, blank, line⟩ (adds _ lead c blank line)]
    exact ending_iff directive (is_arm_tail arm) orderly

def emptyRoot : Frame :=
  ⟨"document", "", true, 0, 0, [], []⟩

def bodyFrame : Frame :=
  ⟨"node", "", true, 0, 0, [.leaf .identifier "n", .mark .leftBrace], [.mark .rightBrace, .mark .semicolon]⟩

def ifdefFrame (after : List Tree) : Frame :=
  ⟨"preproc_ifdef", "", true, 0, 0, [.leaf .unknown "#ifdef", .leaf .identifier "A"],
    after ++ [.branch "#endif" "#endif" false 0 0 []]⟩

/-- A branch with a property in it. -/
def elseFrame : Frame :=
  ⟨"preproc_else", "", true, 0, 0, [.leaf .unknown "#else"],
    [.spanning .property [.leaf .identifier "p", .mark .semicolon]]⟩

def brokenDefine : Tree :=
  .spanning .defineDirective
    [.leaf .unknown "#define", .leaf .identifier "N", .leaf .directiveArgument "1 + \\\n 2"]

theorem directive_run_ends_else :
    hosts false ([bodyFrame] ++ ([ifdefFrame []] ++ [elseFrame])) = true ∧
      (∀ child ∈ (enclose (emptyRoot :: ([bodyFrame] ++ ([ifdefFrame []] ++ [elseFrame]))) brokenDefine).children,
        child.Everywhere Tree.Headed) ∧
      ∃ (context : Context) (before after : String),
        (formatTree sampleSettings
          (enclose (emptyRoot :: ([bodyFrame] ++ ([ifdefFrame []] ++ [elseFrame]))) brokenDefine)).outcome =
            .ok (before ++ shownIn sampleSettings context brokenDefine ++ after) ∧
        BlankFirst after.toList := by
  have hosted : hosts false ([bodyFrame] ++ ([ifdefFrame []] ++ [elseFrame])) = true := by decide +kernel
  have headed : ∀ child ∈ (enclose (emptyRoot :: ([bodyFrame] ++ ([ifdefFrame []] ++ [elseFrame])))
      brokenDefine).children, child.Everywhere Tree.Headed := by decide +kernel
  obtain ⟨context, before, after, each, blank⟩ := directive_run_ends sampleSettings emptyRoot hosted
    (by decide +kernel) (show brokenDefine.kind.isDirective = true by decide +kernel) rfl
    (by decide +kernel) headed
  have property : elseFrame.next = some (.spanning .property [.leaf .identifier "p", .mark .semicolon]) := rfl
  have printed := (each brokenDefine rfl rfl (by decide +kernel)).2
  exact ⟨hosted, headed, context, before, after, printed,
    blank.mpr (.inl ⟨_, property, .inl ⟨by decide +kernel, by decide +kernel⟩⟩)⟩

def elseBranch : Tree :=
  .spanning .elseBranch [.leaf .unknown "#else"]

def innerConditional : Tree :=
  .spanning .ifdefDirective
    [.leaf .unknown "#ifdef", .leaf .identifier "B", .branch "#endif" "#endif" false 0 0 []]

/-- The end of a conditional is parted from the branch after it. -/
theorem conditional_parted_from_branch :
    innerConditional.kind.isDirective = true ∧
      ((ifdefFrame [elseBranch]).next.map Tree.kind) = some .elseBranch ∧
      (formatTree sampleSettings (enclose [emptyRoot, ifdefFrame [elseBranch]] innerConditional)).outcome =
        .ok "#ifdef A\n#ifdef B\n#endif\n\n#else\n#endif\n" := by
  decide +kernel

end Printer

end DevicetreeFormat
