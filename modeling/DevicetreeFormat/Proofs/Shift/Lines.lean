import DevicetreeFormat.Proofs.Rules
import DevicetreeFormat.Proofs.Shift.Values

/-!
# Lines at two depths

Comments, declarations, statements, includes and directives begin a line with
their indentation, go on with words and end the line. At another depth they are
printed with another margin.
-/

namespace DevicetreeFormat.Printer

set_option autoImplicit false

open Text

section

variable (margin front : List Char)

/-- Where two runs are before an item: on the line of its wrapper, or at the
start of a line. A comment looks back if something stands before it. -/
def entry (place : Place) (kind : Kind) : List Char → List Char → Prop :=
  if place.wrapped then OnLine margin front
  else if kind = .comment && place.before.isSome then AtLine margin front
  else AtStart margin front

/-- At any two depths the item is printed alike, up to the margin, and so is the
branch. -/
structure Shifts (settings : Settings) (tree : Tree) : Prop where
  item : tree.kind.isItem = true → ∀ (place : Place) {near far : Context},
    Offset margin near far → near.bindings = false → (place.wrapped = true → tree.kind.isWrappable = true) →
    Carries (entry margin front place tree.kind) (AtLine margin front)
      ((part settings place tree).print near) ((part settings place tree).print far)
  branch : tree.kind.isBranch = true → ∀ (place : Place) {near far : Context},
    Offset margin near far → near.bindings = false →
    Carries (AtLine margin front) (AtLine margin front)
      ((part settings place tree).printBranch near) ((part settings place tree).printBranch far)

end

variable {margin front : List Char} {near far : Context}

theorem carries_semicolon :
    Carries (OnLine margin front) (AtLine margin front) [.write ";\n"] [.write ";\n"] := by
  have word : IsWord ";" := by decide
  exact carries_close word rfl

theorem carries_end_run (place : Place) (similar : Kind → Bool) :
    Carries (AtLine margin front) (AtLine margin front) (endRun place similar) (endRun place similar) := by
  unfold endRun
  split
  · split
    · exact carries_blank_line
    · exact carries_nil _
  · exact carries_nil _

theorem carries_before_node (place : Place) :
    Carries (AtLine margin front) (AtLine margin front) (beforeNode place) (beforeNode place) := by
  unfold beforeNode
  split
  · split
    · exact carries_blank_line
    · exact carries_nil _
  · exact carries_nil _

theorem carries_apart {place : Place} (unwrapped : place.wrapped = false) :
    Carries (entry margin front place .comment) (AtStart margin front) (apart place) (apart place) := by
  have lines : ∀ near far, AtLine margin front near far → AtStart margin front near far :=
    fun _ _ line => line.toAtStart
  rw [apart, entry, unwrapped]
  cases before : place.before with
  | none => exact carries_nil _
  | some kind =>
      by_cases comment : kind = .comment
      · simp only [comment, if_true]
        exact carries_weaken (carries_nil _) (fun _ _ line => line) lines
      · simp only [comment, if_false]
        exact carries_weaken carries_separate (fun _ _ line => line) lines

section

variable (offset : Offset margin near far)

include offset

theorem carries_indented_line {text : String} (word : IsWord text) :
    Carries (AtStart margin front) (AtLine margin front) (writes [near.indentation, text, "\n"])
      (writes [far.indentation, text, "\n"]) :=
  carries_line offset.unbroken offset.indentation word

theorem carries_begin_item {place : Place} {kind : Kind} (plain : kind ≠ .comment) :
    Carries (entry margin front place kind) (OnLine margin front) (beginItem place near)
      (beginItem place far) := by
  unfold beginItem entry
  split
  · exact carries_nil _
  · simp only [plain, decide_false, Bool.false_and]
    exact carries_begin offset.unbroken offset.indentation

/-! ### Items of one line -/

theorem print_comment_carries (place : Place) (unwrapped : place.wrapped = false) {text : String}
    (line : OneLine text) :
    Carries (entry margin front place .comment) (AtLine margin front) (printComment place text near)
      (printComment place text far) :=
  carries_append (carries_apart unwrapped)
    (carries_indented_line offset (is_word_normal_comment line))

variable (settings : Settings) (place : Place) {tree : Tree} (shaped : tree.Shaped)

include shaped

theorem header_carries (header : tree.kind.isHeader = true) :
    Carries (AtStart margin front) (AtLine margin front) ((part settings place tree).print near)
      ((part settings place tree).print far) := by
  rw [print_header _ _ _ header, print_header _ _ _ header]
  exact carries_append (carries_indented_line offset (header_solid shaped header).word) (carries_end_run _ _)

theorem include_carries (included : tree.kind = .fileInclude) :
    Carries (AtStart margin front) (AtLine margin front) ((part settings place tree).print near)
      ((part settings place tree).print far) := by
  obtain ⟨path, found, solid⟩ := include_solid shaped settings place included
  rw [print_include _ _ _ included, print_include _ _ _ included, printInclude, printInclude, found]
  apply carries_append _ (carries_end_run _ _)
  apply carries_cons (carries_begin offset.unbroken offset.indentation)
  exact carries_cons (carries_word (by decide)) (carries_last solid.word)

theorem statement_carries (statement : tree.kind.isStatement = true) :
    Carries (AtStart margin front) (AtLine margin front) ((part settings place tree).print near)
      ((part settings place tree).print far) := by
  rw [print_statement _ _ _ statement, print_statement _ _ _ statement]
  apply carries_cons (carries_begin offset.unbroken offset.indentation)
  exact carries_cons (carries_word (statement_word shaped statement)) carries_semicolon

theorem directive_carries (directive : (tree.kind.isDirective && !tree.kind.isConditional) = true) :
    Carries (AtStart margin front) (AtLine margin front) ((part settings place tree).print near)
      ((part settings place tree).print far) := by
  obtain ⟨head, operands, cells, solid⟩ := directive_solid shaped directive tree.kind
  rw [print_directive _ _ _ directive, print_directive _ _ _ directive, cells]
  exact carries_append (carries_indented_line offset solid.word) (carries_end_run _ _)

end

end DevicetreeFormat.Printer
