import DevicetreeFormat.Proofs.Rules
import DevicetreeFormat.Proofs.Spelling.Lines
import DevicetreeFormat.Proofs.Spelling.Values

/-!
# The ink of items with a body

A part is faithful if its own rules spell its own text. An item with a body
prints its children by their rules or by their tokens, and either way spells
them; the semicolon of a property and the end of a conditional are dropped among
the children and written back at the end.
-/

namespace DevicetreeFormat.Printer

set_option autoImplicit false

open Text

/-- A part whose rules spell its own text. -/
structure Faithful (keymap bindings : Bool) (part : Part) : Prop where
  prints : ∀ context, Admits keymap bindings context →
    Spells (part.print context) (Text.ink part.text)
  branches : part.kind.isBranch = true → ∀ context, Admits keymap bindings context →
    Spells (part.printBranch context) (Text.ink part.text)
  symbol : part.kind.isSymbol = true → Text.ink part.text = part.kind.grammarName.toList

def Part.isEndif (part : Part) : Bool :=
  !part.kind.isBranch && !part.named && directiveKeyword part.text = "#endif"

def partsInk (parts : List Part) : List Char :=
  parts.flatMap fun part => Text.ink part.text

section

variable {keymap bindings : Bool} {context : Context} (admits : Admits keymap bindings context)

theorem Faithful.mark {part : Part} (faithful : Faithful keymap bindings part) {kind : Kind}
    (same : part.kind = kind) (symbol : kind.isSymbol = true) :
    Text.ink part.text = kind.grammarName.toList := by
  subst same
  exact faithful.symbol symbol

include admits

theorem wrapper_child_spells {part : Part} (faithful : Faithful keymap bindings part) :
    Spells (wrapperChild context part) (Text.ink part.text) := by
  unfold wrapperChild
  split
  · next colon =>
      rw [faithful.mark colon rfl]
      exact spells_write ": "
  · split
    · exact faithful.prints context admits
    · rw [← ink_token]
      split
      · exact spells_write _
      · have padded : Text.ink (part.token ++ " ") = Text.ink part.token := by
          rw [ink_append, show Text.ink " " = [] from rfl, List.append_nil]
        rw [← padded]
        exact spells_write _

theorem print_wrapper_spells (place : Place) {parts : List Part}
    (faithful : ∀ part ∈ parts, Faithful keymap bindings part) :
    Spells (printWrapper place parts context) (partsInk parts) := by
  apply spells_lead (begin_item_spells admits.blank place)
  exact spells_flatMap fun part member => wrapper_child_spells admits (faithful part member)

theorem node_children_spells {parts : List Part}
    (faithful : ∀ part ∈ parts, Faithful keymap bindings part) :
    Spells (nodeChildren context parts) (partsInk parts) := by
  induction parts with
  | nil => exact spells_nil
  | cons part rest induction =>
      rw [nodeChildren]
      split
      · exact spells_flatMap fun child member => (faithful child member).prints context admits
      · have later := induction fun child member => faithful child (by simp [member])
        have first : Text.ink (if part.kind = .colon then ": " else part.token) =
            Text.ink part.text := by
          split
          · next colon => rw [(faithful part (by simp)).mark colon rfl]; rfl
          · exact ink_token part.toCell
        rw [partsInk, List.flatMap_cons, ← first]
        exact spells_append (spells_write _) later

theorem inline_comment_spells (part : Part) :
    Spells (inlineComment part context) (Text.ink part.text) := by
  have deeper : Text.ink context.deeper.indentation = [] := ink_indentation admits.blank
  rw [← ink_normal_comment]
  simp only [inlineComment]
  apply spells_space
  split
  · have line := spells_writes [normalComment part.text, "\n", context.deeper.indentation]
    simpa [deeper, show Text.ink "\n" = [] from rfl] using line
  · rw [← List.singleton_append]
    apply spells_trail (spells_write _)
    split
    · exact spells_nil
    · split
      · exact spells_nil
      · exact spells_write " "

omit admits in
theorem property_children_spells {outer inner : Context} (outerAdmits : Admits keymap bindings outer)
    (innerAdmits : Admits keymap bindings inner) {body : List Part} {last : Part}
    (faithful : ∀ part ∈ body, Faithful keymap bindings part)
    (inside : ∀ part ∈ body, part.kind ≠ .semicolon) (ending : last.kind = .semicolon)
    (seenEquals : Bool) :
    Spells (propertyChildren outer inner seenEquals (body ++ [last])) (partsInk body) := by
  induction body generalizing seenEquals with
  | nil =>
      rw [List.nil_append, property_children_end ending]
      exact spells_nil
  | cons part rest induction =>
      have later := induction (fun child member => faithful child (by simp [member]))
        fun child member => inside child (by simp [member])
      have first := faithful part (by simp)
      have printed := first.prints inner innerAdmits
      rw [List.cons_append, partsInk, List.flatMap_cons]
      by_cases comment : part.kind = .comment
      · rw [property_children_comment comment]
        exact spells_append (inline_comment_spells outerAdmits part) (later _)
      · rw [property_children_child (inside part (by simp)) comment, propertyChild]
        apply spells_append _ (later _)
        split
        · exact printed
        · have token := spells_write part.token
          rwa [ink_token] at token

omit admits in
theorem before_node_spells (place : Place) : Spells (beforeNode place) [] := by
  unfold beforeNode
  split
  · split
    · exact spells_write "\n"
    · exact spells_nil
  · exact spells_nil

theorem branch_child_spells {part : Part} (faithful : Faithful keymap bindings part)
    (printed : part.isEndif ≠ true) : Spells (branchChild context part) (Text.ink part.text) := by
  unfold branchChild
  split
  · next branch => exact faithful.branches branch context admits
  · next other =>
      rw [if_neg (by simpa [Part.isEndif, other] using printed)]
      exact faithful.prints context admits

theorem print_branch_spells (kind : Kind) {parts : List Part} (filled : parts ≠ [])
    (faithful : ∀ part ∈ parts, Faithful keymap bindings part)
    (printed : ∀ part ∈ parts, part.isEndif ≠ true) :
    Spells (printBranch kind parts context) (partsInk parts) := by
  cases parts with
  | nil => exact absurd rfl filled
  | cons head body =>
      have items : ∀ part ∈ body, Spells (branchChild context part) (Text.ink part.text) :=
        fun part member => branch_child_spells admits (faithful part (by simp [member]))
          (printed part (by simp [member]))
      rw [partsInk, List.flatMap_cons, ← ink_directive_keyword head.text]
      cases body with
      | nil =>
          have line := line_spells admits.blank (directiveKeyword head.text)
          simpa [printBranch, splitCondition, branchLine] using line
      | cons first rest =>
          simp only [printBranch, splitCondition]
          split
          · have line := line_spells admits.blank (directiveKeyword head.text)
            exact spells_append line (spells_flatMap items)
          · have line := spells_writes
              [context.indentation, directiveKeyword head.text, " ", first.token, "\n"]
            have later := spells_flatMap fun part member => items part (List.mem_cons_of_mem _ member)
            have both := spells_append line later
            simpa [branchLine, ink_indentation admits.blank, ink_token, show Text.ink "\n" = [] from rfl,
              show Text.ink " " = [] from rfl] using both

theorem print_node_spells (place : Place) {parts : List Part}
    (faithful : ∀ part ∈ parts,
      Faithful (keymap || decide (Part.nameOf parts = "keymap")) bindings part) :
    Spells (printNode place parts context) (partsInk parts) := by
  apply spells_lead (begin_item_spells admits.blank place)
  apply node_children_spells _ faithful
  unfold bodyContext
  split
  · next named => exact ⟨admits.blank, fun _ => by simp [named], admits.bindings⟩
  · exact ⟨admits.blank, fun flag => by simp [admits.keymap flag], admits.bindings⟩

theorem print_property_spells (place : Place) {body : List Part} {last : Part}
    (faithful : ∀ part ∈ body ++ [last],
      Faithful keymap (bindings || decide (Part.nameOf (body ++ [last]) = "bindings")) part)
    (inside : ∀ part ∈ body, part.kind ≠ .semicolon) (ending : last.kind = .semicolon) :
    Spells (printProperty place (body ++ [last]) context) (partsInk (body ++ [last])) := by
  have outer : Admits keymap (bindings || decide (Part.nameOf (body ++ [last]) = "bindings")) context :=
    ⟨admits.blank, admits.keymap, fun flag => by simp [admits.bindings flag]⟩
  have inner : Admits keymap (bindings || decide (Part.nameOf (body ++ [last]) = "bindings"))
      (valueContext (body ++ [last]) context) := by
    unfold valueContext
    split
    · next named => exact ⟨admits.blank, admits.keymap, fun _ => by simp [named]⟩
    · exact outer
  have mark : Text.ink last.text = [';'] := (faithful last (by simp)).mark ending rfl
  have children := property_children_spells outer inner
    (fun part member => faithful part (by simp [member])) inside ending false
  have closed := spells_append children (spells_write ";\n")
  rw [partsInk, List.flatMap_append, List.flatMap_singleton, mark, printProperty, List.append_assoc,
    List.append_assoc]
  apply spells_lead (begin_item_spells admits.blank place)
  rw [← List.append_assoc]
  exact spells_trail closed (before_node_spells place)

theorem print_conditional_spells (place : Place) {kind : Kind} (conditional : kind.isConditional = true)
    {front : List Part} {last : Part} (long : 2 ≤ front.length)
    (faithful : ∀ part ∈ front, Faithful keymap bindings part)
    (printed : ∀ part ∈ front, part.isEndif ≠ true) (closing : last.isEndif = true) :
    Spells (printConditional place kind (front ++ [last]) context) (partsInk (front ++ [last])) := by
  have dropped : branchChild context last = [] := by
    simp only [Part.isEndif, Bool.and_eq_true, Bool.not_eq_true', decide_eq_true_eq] at closing
    simp [branchChild, closing]
  have notElse : kind ≠ .elseBranch := by
    rintro rfl
    cases conditional
  -- the closing token is dropped as an item and written back after the branches
  have shortened : printBranch kind (front ++ [last]) context = printBranch kind front context := by
    rcases front with _ | ⟨head, _ | ⟨condition, items⟩⟩
    · cases long
    · exact absurd long (by simp)
    · simp [printBranch, splitCondition, notElse, dropped]
  have mark : Text.ink last.text = "#endif".toList := by
    simp only [Part.isEndif, Bool.and_eq_true, decide_eq_true_eq] at closing
    rw [← ink_directive_keyword, closing.2]
    rfl
  have branches := print_branch_spells admits kind (List.ne_nil_of_length_pos (by omega)) faithful printed
  have ending : Spells (writes [context.indentation, "#endif\n"]) "#endif".toList := by
    have line := spells_writes [context.indentation, "#endif\n"]
    simpa [ink_indentation admits.blank, show Text.ink "#endif\n" = "#endif".toList from rfl] using line
  rw [printConditional, shortened, partsInk, List.flatMap_append, List.flatMap_singleton, mark]
  exact spells_trail (spells_append branches ending) (end_run_spells place _)

theorem print_unhandled_spells (warn : Bool) (name : String) {text : String} {parts : List Part}
    (faithful : ∀ part ∈ parts, Faithful keymap bindings part)
    (covered : parts ≠ [] → Text.ink text = partsInk parts) :
    Spells (printUnhandled warn name (strip text) parts context) (Text.ink text) := by
  unfold printUnhandled
  apply spells_lead
  · split
    · exact ⟨complete_cons rfl complete_nil, rfl⟩
    · exact spells_nil
  · cases parts with
    | nil =>
        rw [← ink_strip]
        exact spells_write _
    | cons first rest =>
        rw [covered (List.cons_ne_nil _ _), partsInk, List.flatMap_cons]
        apply spells_append ((faithful first (by simp)).prints context admits)
        exact spells_flatMap fun part member =>
          (faithful part (by simp [member])).prints context.deeper (admits_deeper admits)

end

end DevicetreeFormat.Printer
