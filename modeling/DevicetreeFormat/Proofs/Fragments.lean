import DevicetreeFormat.Printer.Items
import DevicetreeFormat.Proofs.Run

/-!
# Fragments are not seen

The output is a list of fragments, but nothing that is written depends on how the
text is cut into them. A command appends to a text that is not empty what the text
alone decides, and so does a list of commands. Only the empty text is an exception:
after fragments without characters a separation is written, after no fragment none.
-/

namespace DevicetreeFormat.Printer

set_option autoImplicit false

/-- What a command appends to a text that is not empty. -/
def Command.appended (text : List Char) : Command → List Char
  | .write added => added.toList
  | .separate => if endsBlankLine text then [] else ['\n']
  | .space => if endsBlank text then [] else [' ']
  | .report _ => []
  | .fail _ => []

/-- What commands append to a text that is not empty, each to what the ones before
it have left. -/
def appendedBy : List Char → List Command → List Char
  | _, [] => []
  | text, command :: rest =>
      command.appended text ++ appendedBy (text ++ command.appended text) rest

namespace Output

theorem written_step {output : Output} (filled : output.written ≠ []) (command : Command) :
    (output.step command).written = output.written ++ command.appended output.written := by
  cases command with
  | write added => exact written_write output added
  | separate =>
      rw [step, written_separate, Command.appended]
      by_cases parted : endsBlankLine output.written = true
      · simp [parted]
      · simp [parted, fragments_ne_nil filled]
  | space =>
      rw [step, written_space, Command.appended]
      by_cases blank : endsBlank output.written = true
      · simp [blank]
      · simp [blank]
  | report message => simp [step, Command.appended]
  | fail fault => simp [step, Command.appended]

theorem written_after {output : Output} (filled : output.written ≠ []) (commands : List Command) :
    (output.after commands).written = output.written ++ appendedBy output.written commands := by
  induction commands generalizing output with
  | nil => simp [appendedBy]
  | cons command rest induction =>
      have next := written_step filled command
      have still : (output.step command).written ≠ [] := by
        rw [next]
        exact List.append_ne_nil_of_left_ne_nil filled _
      rw [after_cons, induction still, next, appendedBy, List.append_assoc]

/-- The commands run to their end and append `added` to the text. -/
def Appends (output : Output) (commands : List Command) (added : String) : Prop :=
  ∃ after, output.run commands = (after, none) ∧ after.text = output.text ++ added

theorem appends_of_complete {output : Output} {commands : List Command}
    (complete : Complete commands) (filled : output.text ≠ "") :
    output.Appends commands (String.ofList (appendedBy output.text.toList commands)) := by
  refine ⟨output.after commands, run_of_complete complete output, ?_⟩
  have begun : output.written ≠ [] := by simpa [written] using filled
  rw [← String.toList_inj, String.toList_append, String.toList_ofList]
  exact written_after begun commands

theorem length_last_characters (size : Nat) (text : String) :
    (Text.lastCharacters size text).length = min size text.length := by
  rw [Text.lastCharacters, String.length_ofList, List.length_drop, String.length_toList]
  omega

theorem exists_front_last_characters (size : Nat) (text : String) :
    ∃ front, text = front ++ Text.lastCharacters size text := by
  refine ⟨String.ofList (text.toList.take (text.toList.length - size)), ?_⟩
  rw [Text.lastCharacters, ← String.ofList_append, List.take_append_drop, String.ofList_toList]

end Output

/-- An inline comment is a space, where one is due, and texts of its own. -/
theorem inline_comment_eq (part : Part) (context : Context) :
    ∃ pieces, inlineComment part context = .space :: writes pieces := by
  simp only [inlineComment]
  split
  · exact ⟨_, rfl⟩
  · split
    · exact ⟨[normalComment part.text], rfl⟩
    · split
      · exact ⟨[normalComment part.text], rfl⟩
      · exact ⟨[normalComment part.text, " "], rfl⟩

theorem appended_by_writes (text : List Char) (pieces : List String) :
    appendedBy text (writes pieces) = (String.join pieces).toList := by
  induction pieces generalizing text with
  | nil => simp [appendedBy, writes]
  | cons piece rest induction =>
      have later := induction (text ++ piece.toList)
      simp only [writes, List.map_cons, appendedBy, Command.appended, String.join_cons,
        String.toList_append]
      rw [← later]
      rfl

/-- The blank line that is due after a text. -/
def separationAfter (text : String) : String :=
  if Text.endsWith "\n\n" text then "" else "\n"

/-- The space that is due after a text. -/
def spaceAfter (text : String) : String :=
  if text.toList.getLast?.any Text.isBlank then "" else " "

theorem ofList_appended_separate (text : String) :
    String.ofList (Command.separate.appended text.toList) = separationAfter text := by
  have same : Text.endsWith "\n\n" text = endsBlankLine text.toList := rfl
  rw [Command.appended, separationAfter, same]
  by_cases parted : endsBlankLine text.toList = true
  · rw [if_pos parted, if_pos parted]
  · rw [if_neg parted, if_neg parted]

theorem ofList_appended_space (text : String) :
    String.ofList (Command.space.appended text.toList) = spaceAfter text := by
  rw [Command.appended, spaceAfter, endsBlank]
  cases text.toList.getLast? with
  | none => rfl
  | some last =>
      rw [Option.map_some, Option.getD_some, Option.any_some]
      cases Text.isBlank last <;> rfl

namespace Output

theorem appends_separate {output : Output} (filled : output.text ≠ "") :
    output.Appends [.separate] (separationAfter output.text) := by
  have complete : Complete [.separate] := complete_cons rfl complete_nil
  have appends := appends_of_complete complete filled
  rw [appendedBy, appendedBy, List.append_nil, ofList_appended_separate] at appends
  exact appends

theorem appends_space_writes {output : Output} (filled : output.text ≠ "") (pieces : List String) :
    output.Appends (.space :: writes pieces) (spaceAfter output.text ++ String.join pieces) := by
  have complete : Complete (.space :: writes pieces) := complete_cons rfl (complete_writes pieces)
  have appends := appends_of_complete complete filled
  rw [appendedBy, appended_by_writes, String.ofList_append, ofList_appended_space,
    String.ofList_toList] at appends
  exact appends

/-- The last characters of the output are those of its text, whatever its fragments. Two
outputs of one text that is not empty get the same separation and the same comment inside a
line: a line feed unless the text ends with a blank line, and a space unless it ends with a
blank, with the texts of the comment after it. -/
theorem tail_and_appended_of_text :
    (∀ (output : Output) (size : Nat), ∃ front,
        output.text = front ++ output.tail size ∧
          (output.tail size).length = min size output.text.length) ∧
      ∀ first second : Output, first.text = second.text → first.text ≠ "" →
        (first.separate.text = first.text ++ separationAfter first.text ∧
          second.separate.text = second.text ++ separationAfter first.text) ∧
        ∀ (part : Part) (context : Context), ∃ pieces,
          inlineComment part context = .space :: writes pieces ∧
            first.Appends (inlineComment part context) (spaceAfter first.text ++ String.join pieces) ∧
            second.Appends (inlineComment part context)
              (spaceAfter first.text ++ String.join pieces) := by
  constructor
  · intro output size
    rw [tail_eq]
    obtain ⟨front, split⟩ := exists_front_last_characters size output.text
    exact ⟨front, split, length_last_characters size output.text⟩
  · intro first second same filled
    have filledToo : second.text ≠ "" := same ▸ filled
    constructor
    · obtain ⟨_, ⟨rfl⟩, left⟩ := appends_separate filled
      obtain ⟨_, ⟨rfl⟩, right⟩ := appends_separate filledToo
      exact ⟨left, same ▸ right⟩
    · intro part context
      obtain ⟨pieces, shape⟩ := inline_comment_eq part context
      rw [shape]
      refine ⟨pieces, rfl, appends_space_writes filled pieces, ?_⟩
      rw [same]
      exact appends_space_writes filledToo pieces

/-- A text that ends with a blank line and one that does not, each in three fragments and in
one. Only the second gets a line feed. -/
theorem tail_and_appended_of_text_cut :
    (⟨["\n", "", "a;\n"], []⟩ : Output).tail 2 = "\n\n" ∧
      ((⟨["\n", "", "a;\n"], []⟩ : Output).separate.text = "a;\n\n" ∧
        (⟨["a;\n\n"], []⟩ : Output).separate.text = "a;\n\n") ∧
      (⟨["\n", "", "a;"], []⟩ : Output).separate.text = "a;\n" ++ "\n" ∧
        (⟨["a;\n"], []⟩ : Output).separate.text = "a;\n" ++ "\n" := by
  refine ⟨by decide, ?_, ?_⟩
  · exact (tail_and_appended_of_text.2 ⟨["\n", "", "a;\n"], []⟩ ⟨["a;\n\n"], []⟩ (by decide)
      (by decide)).1
  · exact (tail_and_appended_of_text.2 ⟨["\n", "", "a;"], []⟩ ⟨["a;\n"], []⟩ (by decide)
      (by decide)).1

end Output

end DevicetreeFormat.Printer
