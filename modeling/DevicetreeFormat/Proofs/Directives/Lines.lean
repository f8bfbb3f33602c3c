import DevicetreeFormat.Proofs.Labels.Insertion
import DevicetreeFormat.Proofs.Sequence

/-!
# Lines of directives

Directives and branches begin with a line that has a keyword in it, and directives
and conditionals end with a line that ends in ink. Commands behind such a line go on
with an empty line or with more ink. What a directive writes and what is written
behind it therefore do not depend on each other.
-/

namespace DevicetreeFormat

set_option autoImplicit false

open Text

/-- Directives and branches begin with a keyword, and no include is empty. -/
@[mk_iff] structure Tree.Headed (tree : Tree) : Prop where
  filled : tree.Filled
  keyword : (tree.kind.isDirective || tree.kind.isBranch) = true →
    (tree.children.head?.any fun head => head.token ≠ "") = true

instance (tree : Tree) : Decidable tree.Headed :=
  decidable_of_iff' _ (Tree.headed_iff tree)

theorem Tree.Headed.exists_head {tree : Tree} (headed : tree.Headed)
    (keyed : (tree.kind.isDirective || tree.kind.isBranch) = true) :
    ∃ head rest, tree.children = head :: rest ∧ head.token ≠ "" := by
  have keyword := headed.keyword keyed
  match tree.children, keyword with
  | head :: rest, keyword => exact ⟨head, rest, rfl, by simpa using keyword⟩

namespace Printer

open DevicetreeFormat.Frame

/-! ### How commands go on behind a line -/

/-- The last line that was written ends in ink. -/
def EndsInked (output : Output) : Prop :=
  ∃ front c, isBlank c = false ∧ output.written = front ++ [c, '\n']

/-- Commands behind a line: there are none, they write an empty line first, or they
write ink on the next line. -/
def Proceeds : Option Bool → List Command → Prop
  | none, commands => commands = []
  | some true, commands => ∀ output : Output, EndsInked output →
      ∃ added, (output.after commands).written = output.written ++ '\n' :: added
  | some false, commands => Opens commands

theorem Proceeds.further {blank : Bool} {commands : List Command} (proceeds : Proceeds (some blank) commands)
    (later : List Command) : Proceeds (some blank) (commands ++ later) := by
  cases blank with
  | false => exact Opens.append proceeds later
  | true =>
      intro output inked
      obtain ⟨added, adds⟩ := proceeds output inked
      obtain ⟨more, further⟩ := after_adds later (output.after commands)
      refine ⟨added ++ more, ?_⟩
      rw [Output.after_append, further, adds]
      simp

theorem proceeds_append {first second : Option Bool} {commands later : List Command}
    (left : Proceeds first commands) (right : Proceeds second later) :
    Proceeds (first.or second) (commands ++ later) := by
  cases first with
  | none =>
      have empty : commands = [] := left
      rw [empty]
      exact right
  | some blank => exact left.further later

theorem proceeds_break (later : List Command) : Proceeds (some true) (.write "\n" :: later) := by
  intro output _
  obtain ⟨added, adds⟩ := after_adds later (output.write "\n")
  refine ⟨added, ?_⟩
  rw [Output.after_cons, Output.step, adds, Output.written_write]
  simp

theorem proceeds_separate (later : List Command) : Proceeds (some true) (.separate :: later) := by
  intro output ⟨front, c, inked, shape⟩
  have filled : output.fragments ≠ [] := Output.fragments_ne_nil (by rw [shape]; simp)
  have single : endsBlankLine output.written = false := by
    rw [shape, ends_blank_line_concat, decide_eq_false (newline_blank inked)]
  obtain ⟨added, adds⟩ := after_adds later output.separate
  refine ⟨added, ?_⟩
  rw [Output.after_cons, Output.step, adds, Output.written_separate]
  simp [filled, single]

/-- The first line of a text is blank. -/
def BlankFirst (text : List Char) : Prop :=
  ∃ line rest, text = line ++ '\n' :: rest ∧ ∀ c ∈ line, c ≠ '\n' ∧ isBlank c = true

theorem not_blank_first {text : List Char} (ink : InkFirst text) : ¬ BlankFirst text := by
  rintro ⟨line, rest, same, blank⟩
  obtain ⟨gap, c, later, unbroken, inked, rfl⟩ := ink
  rcases List.append_eq_append_iff.mp same with ⟨middle, before, after⟩ | ⟨middle, before, after⟩
  · -- the ink stands in the blank line or is its line break
    cases middle with
    | nil =>
        obtain ⟨rfl, _⟩ := List.cons.inj after
        exact newline_blank inked rfl
    | cons d others =>
        obtain ⟨rfl, _⟩ := List.cons.inj after
        have isBlank := (blank c (by rw [before]; simp)).2
        rw [isBlank] at inked
        cases inked
  · cases middle with
    | nil =>
        obtain ⟨rfl, _⟩ := List.cons.inj after
        exact newline_blank inked rfl
    | cons d others =>
        obtain ⟨rfl, _⟩ := List.cons.inj after
        exact unbroken (by rw [before]; simp)

theorem blank_first_iff {blank : Bool} {commands : List Command} (proceeds : Proceeds (some blank) commands)
    {output : Output} (inked : EndsInked output) {added : List Char}
    (adds : (output.after commands).written = output.written ++ added) :
    BlankFirst added ↔ blank = true := by
  cases blank with
  | true =>
      obtain ⟨rest, shape⟩ := proceeds output inked
      rw [adds] at shape
      rw [List.append_cancel_left shape]
      exact iff_of_true ⟨[], rest, rfl, by simp⟩ rfl
  | false =>
      have opens : Opens commands := proceeds
      obtain ⟨rest, ink, shape⟩ := opens output
      rw [adds] at shape
      rw [List.append_cancel_left shape]
      exact iff_of_false (not_blank_first ink) Bool.false_ne_true

/-! ### Directives and branches -/

theorem ink_first_directive_keyword {text : String} (filled : strip text ≠ "") :
    InkFirst (directiveKeyword text).toList := by
  obtain ⟨c, rest, shape, inked⟩ := strip_first text filled
  unfold directiveKeyword
  split
  · rw [String.toList_ofList]
    exact ink_first_cons rfl _
  · rw [String.toList_ofList, shape]
    exact ink_first_cons inked rest

section

variable (settings : Settings) (place : Place) {tree : Tree} (context : Context)

/-- Commands that write an indentation and then ink. -/
def Begins (context : Context) (commands : List Command) : Prop :=
  ∃ first later, InkFirst first.toList ∧ commands = .write context.indentation :: .write first :: later

theorem print_branch_begins {head : Tree} {rest : List Tree} (children : tree.children = head :: rest)
    (filled : head.token ≠ "") :
    Begins context (printBranch tree.kind (inner settings place tree) context) := by
  have ink := ink_first_directive_keyword filled
  rw [inner, children, parts]
  simp only [printBranch, part_text]
  generalize splitCondition _ _ = split
  obtain ⟨condition, items⟩ := split
  cases condition with
  | none => exact ⟨_, _, ink, rfl⟩
  | some condition => exact ⟨_, _, ink, rfl⟩

theorem print_directive_begins {head : Tree} {rest : List Tree} (children : tree.children = head :: rest)
    (filled : head.token ≠ "") :
    Begins context (printDirective place tree.kind (tree.children.map Tree.cell) context) := by
  rw [children]
  refine ⟨_, _, ?_, rfl⟩
  obtain ⟨tail, shape⟩ := intercalate_first " " (directiveKeyword head.text)
    (directiveOperands tree.kind (rest.map Tree.cell))
  rw [Tree.cell, shape]
  exact (ink_first_directive_keyword filled).append tail

theorem print_begins (headed : tree.Headed) (directive : tree.kind.isDirective = true) :
    Begins context ((part settings place tree).print context) := by
  obtain ⟨head, rest, children, filled⟩ := headed.exists_head (by rw [directive]; rfl)
  by_cases conditional : tree.kind.isConditional = true
  · rw [print_conditional _ _ _ conditional, printConditional, List.append_assoc]
    obtain ⟨first, later, ink, shape⟩ := print_branch_begins settings place context children filled
    exact ⟨first, _, ink, by rw [shape]; rfl⟩
  · rw [print_directive _ _ _ (by simp [directive, conditional])]
    exact print_directive_begins place context children filled

theorem branch_child_begins (headed : tree.Headed) (named : tree.named = true)
    (keyed : (tree.kind.isDirective || tree.kind.isBranch) = true) :
    Begins context (branchChild context (part settings place tree)) := by
  by_cases branch : tree.kind.isBranch = true
  · obtain ⟨head, rest, children, filled⟩ := headed.exists_head keyed
    rw [branchChild, part_kind, if_pos branch, part_print_branch]
    exact print_branch_begins settings place context children filled
  · rw [branch_child_item settings place context named (by simpa using branch)]
    exact print_begins settings place context headed (by simpa [branch] using keyed)

end

theorem Begins.opens {context : Context} (unit : isIndentUnit context.indentUnit = true)
    {commands : List Command} (begins : Begins context commands) : Opens commands := by
  obtain ⟨first, later, ink, rfl⟩ := begins
  intro output
  obtain ⟨added, inked, adds⟩ := opens_write ink later (output.write context.indentation)
  refine ⟨context.indentation.toList ++ added, inked.behind (indentation_unbroken unit), ?_⟩
  rw [Output.after_cons, Output.step, adds, Output.written_write, List.append_assoc]

/-! ### A directive in its place -/

theorem joins_branch {kind : Kind} (branch : kind.isBranch = true) : joins kind = Kind.isBranch := by
  funext next
  cases kind <;> cases branch <;> rfl

theorem keyed_of_joins {kind next : Kind} (joined : joins kind next = true) :
    (next.isDirective || next.isBranch) = true := by
  rw [joins] at joined
  split at joined
  · rw [joined, Bool.true_or]
  · split at joined
    · exact joined
    · rw [joined, Bool.or_true]

theorem trail_branch {tree : Tree} (branch : tree.kind.isBranch = true) (place : Place) :
    trail place tree = [] := by
  rw [trail, Tree.inner_kind_of_plain (Kind.is_wrapper_of_is_branch branch)]
  generalize tree.kind = kind at branch
  cases kind <;> cases branch <;> rfl

theorem trail_seen {tree other : Tree} (same : seen tree = seen other) (place : Place) :
    trail place tree = trail place other := by
  have kind : tree.kind = other.kind := congrArg Neighbour.kind same
  have inner : tree.innerKind = other.innerKind := congrArg Neighbour.inner same
  rw [trail, trail, kind, inner]

theorem seen_directive {item other : Tree} (directive : other.kind.isDirective = true)
    (kind : other.kind = item.kind) (named : other.named = item.named) : seen other = seen item := by
  have plain := (plain_of_directive directive).1
  rw [seen, seen, Tree.inner_kind_of_plain plain, Tree.inner_kind_of_plain (by rwa [← kind]), kind, named]

/-- The line of a directive ends in ink, whatever its operands are. -/
theorem directive_line_ends (kind : Kind) (head : Cell) (filled : head.token ≠ "") (rest : List Cell) :
    EndsIn IsInk (" ".intercalate (directiveKeyword head.text :: directiveOperands kind rest)).toList := by
  have operands : ∀ operand ∈ directiveOperands kind rest, EndsIn IsInk operand.toList := by
    apply directive_operands_all
    · intro first second _ ends
      rw [String.toList_append]
      exact ends_in_append _ ends
    · exact fun cell _ nonempty => strip_last cell.text nonempty
  apply intercalate_ends _ (List.cons_ne_nil _ _)
  exact List.forall_mem_cons.mpr ⟨directive_keyword_ends filled, operands⟩

theorem item_ends_inked (settings : Settings) {item : Tree} (directive : item.kind.isDirective = true)
    (headed : item.Headed) (context : Context) (output : Output) :
    EndsInked (output.after ((part settings {} item).print context)) := by
  by_cases conditional : item.kind.isConditional = true
  · rw [print_conditional _ _ _ conditional, printConditional, Output.after_append, Output.after_append]
    generalize output.after _ = opened
    refine ⟨opened.written ++ context.indentation.toList ++ "#endi".toList, 'f', rfl, ?_⟩
    simp [writes, endRun, Output.step]
  · obtain ⟨head, rest, children, filled⟩ := headed.exists_head (by rw [directive]; rfl)
    have only : (item.kind.isDirective && !item.kind.isConditional) = true := by
      simp [directive, conditional]
    obtain ⟨front, c, shape, inked⟩ := directive_line_ends item.kind head.cell filled (rest.map Tree.cell)
    refine ⟨output.written ++ context.indentation.toList ++ front, c, inked, ?_⟩
    rw [print_directive _ _ _ only, children, List.map_cons, printDirective]
    simp [writes, endRun, Output.step, shape]

/-- The text of an item that stands alone. -/
def shownIn (settings : Settings) (context : Context) (item : Tree) : String :=
  (({} : Output).after ((part settings {} item).print context)).text

/-- A directive writes the same text wherever it stands. -/
theorem shown_in_adds (settings : Settings) {item : Tree} (directive : item.kind.isDirective = true)
    (headed : item.Headed) (context : Context) (output : Output) :
    (output.after ((part settings {} item).print context)).written =
      output.written ++ (shownIn settings context item).toList := by
  obtain ⟨first, later, ink, begins⟩ := print_begins settings {} context headed directive
  obtain ⟨added, adds⟩ := after_ink ink later
  have each : ∀ output : Output, (output.after ((part settings {} item).print context)).written =
      output.written ++ (context.indentation.toList ++ first.toList ++ added) := by
    intro output
    rw [begins, Output.after_cons, Output.step, adds, Output.written_write]
    simp only [List.append_assoc]
  have alone : (shownIn settings context item).toList =
      context.indentation.toList ++ first.toList ++ added := each {}
  rw [each, alone]

end Printer

end DevicetreeFormat
