import DevicetreeFormat.Printer.Output

/-!
# Running commands

A list of commands that holds no failure runs to its end, and then the run is a
fold of single steps. What a step adds to the text depends on the text alone:
the fragments are only a way to keep it. The two commands that look back see no
more than whether the text ends in a blank line and whether it ends in a blank.
-/

namespace DevicetreeFormat.Printer

set_option autoImplicit false

def Command.isFailure : Command → Bool
  | .fail _ => true
  | _ => false

/-- Commands none of which ends the run. -/
def Complete (commands : List Command) : Prop :=
  ∀ command ∈ commands, command.isFailure = false

theorem complete_nil : Complete [] := by
  intro command member
  cases member

theorem complete_append {first second : List Command} (left : Complete first)
    (right : Complete second) : Complete (first ++ second) := by
  intro command member
  rcases List.mem_append.mp member with early | late
  · exact left command early
  · exact right command late

theorem complete_cons {command : Command} {rest : List Command}
    (first : command.isFailure = false) (later : Complete rest) : Complete (command :: rest) := by
  intro other member
  rcases List.mem_cons.mp member with rfl | late
  · exact first
  · exact later other late

theorem complete_writes (texts : List String) : Complete (writes texts) := by
  intro command member
  obtain ⟨text, _, rfl⟩ := List.mem_map.mp member
  rfl

namespace Output

/-- What one command does to the output. -/
def step (output : Output) : Command → Output
  | .write text => output.write text
  | .separate => output.separate
  | .space => output.space
  | .report message => output.report message
  | .fail _ => output

def after (output : Output) (commands : List Command) : Output :=
  commands.foldl step output

@[simp] theorem after_nil (output : Output) : output.after [] = output := rfl

@[simp] theorem after_cons (output : Output) (command : Command) (rest : List Command) :
    output.after (command :: rest) = (output.step command).after rest := rfl

@[simp] theorem after_append (output : Output) (first second : List Command) :
    output.after (first ++ second) = (output.after first).after second :=
  List.foldl_append

theorem run_of_complete {commands : List Command} (complete : Complete commands)
    (output : Output) : output.run commands = (output.after commands, none) := by
  induction commands generalizing output with
  | nil => rfl
  | cons command rest induction =>
      have later : Complete rest := fun other member => complete other (List.mem_cons_of_mem _ member)
      cases command with
      | write text =>
          simp only [run, after_cons, step]
          exact induction later _
      | separate =>
          simp only [run, after_cons, step]
          exact induction later _
      | space =>
          simp only [run, after_cons, step]
          exact induction later _
      | report message =>
          simp only [run, after_cons, step]
          exact induction later _
      | fail fault =>
          have failure := complete (.fail fault) (by simp)
          simp [Command.isFailure] at failure

def written (output : Output) : List Char :=
  output.text.toList

theorem written_eq (output : Output) :
    output.written = output.fragments.reverse.flatMap String.toList := by
  rw [written, text, String.toList_join]

@[simp] theorem written_empty : ({} : Output).written = [] := rfl

@[simp] theorem written_write (output : Output) (text : String) :
    (output.write text).written = output.written ++ text.toList := by
  simp [written_eq, write]

@[simp] theorem written_report (output : Output) (message : String) :
    (output.report message).written = output.written := rfl

theorem last_characters_append {size : Nat} {ending : String}
    (enough : size ≤ ending.toList.length) (front : String) :
    Text.lastCharacters size (front ++ ending) = Text.lastCharacters size ending := by
  rw [Text.lastCharacters, Text.lastCharacters, String.toList_append, List.length_append,
    Nat.add_sub_assoc enough, List.drop_length_add_append]

theorem gather_tail_eq (size : Nat) (fragments : List String) (tail : String) :
    Text.lastCharacters size (gatherTail size fragments tail) =
      Text.lastCharacters size (String.join fragments.reverse ++ tail) := by
  induction fragments generalizing tail with
  | nil => rw [gatherTail]; simp
  | cons fragment older induction =>
      have split : String.join (fragment :: older).reverse ++ tail =
          String.join older.reverse ++ (fragment ++ tail) := by
        rw [← String.toList_inj]
        simp
      rw [gatherTail, split]
      split
      · next enough => exact (last_characters_append enough _).symm
      · exact induction (fragment ++ tail)

theorem tail_eq (output : Output) (size : Nat) :
    output.tail size = Text.lastCharacters size output.text := by
  rw [tail, gather_tail_eq, String.append_empty, text]

end Output

/-! ### What the commands see -/

def endsBlankLine (characters : List Char) : Bool :=
  ['\n', '\n'].isSuffixOf characters

def endsBlank (characters : List Char) : Bool :=
  (characters.getLast?.map Text.isBlank).getD false

theorem last_characters_eq_iff (text : String) (ending : List Char) :
    Text.lastCharacters ending.length text = String.ofList ending ↔ ending <:+ text.toList := by
  rw [Text.lastCharacters, String.ofList_inj]
  constructor
  · intro same
    rw [← same]
    exact List.drop_suffix _ _
  · intro suffix
    exact (List.suffix_iff_eq_drop.mp suffix).symm

theorem ends_blank_line_eq (text : String) :
    (Text.lastCharacters 2 text == "\n\n") = endsBlankLine text.toList := by
  rw [Bool.eq_iff_iff, beq_iff_eq, endsBlankLine, List.isSuffixOf_iff_suffix]
  exact last_characters_eq_iff text ['\n', '\n']

theorem ends_blank_line_concat (text : List Char) (c : Char) :
    endsBlankLine (text ++ [c, '\n']) = decide (c = '\n') := by
  rw [endsBlankLine, Bool.eq_iff_iff, List.isSuffixOf_iff_suffix, decide_eq_true_eq]
  constructor
  · rintro ⟨lead, same⟩
    exact (List.cons.inj (List.append_inj_right' same rfl)).1.symm
  · rintro rfl
    exact ⟨text, rfl⟩

theorem ends_blank_eq (text : String) :
    Output.isBlankText (Text.lastCharacters 1 text) = endsBlank text.toList := by
  rcases List.eq_nil_or_concat text.toList with empty | ⟨front, last, shape⟩
  · simp [Output.isBlankText, Text.lastCharacters, endsBlank, empty]
  · rw [List.concat_eq_append] at shape
    simp [Output.isBlankText, Text.lastCharacters, endsBlank, shape]

namespace Output

theorem written_separate (output : Output) :
    output.separate.written =
      if output.fragments = [] ∨ endsBlankLine output.written = true then output.written
      else output.written ++ ['\n'] := by
  have seen : endsBlankLine output.written = (output.tail 2 == "\n\n") := by
    rw [written, ← ends_blank_line_eq, ← tail_eq]
  rw [seen, separate]
  by_cases empty : output.fragments = [] <;> by_cases parted : output.tail 2 = "\n\n" <;>
    simp [empty, parted]

theorem written_space (output : Output) :
    output.space.written =
      if endsBlank output.written = true then output.written else output.written ++ [' '] := by
  have seen : endsBlank output.written = isBlankText (output.tail 1) := by
    rw [written, ← ends_blank_eq, ← tail_eq]
  rw [seen, space]
  split
  · rfl
  · simp

theorem fragments_ne_nil {output : Output} (filled : output.written ≠ []) :
    output.fragments ≠ [] := by
  intro empty
  exact filled (by rw [written_eq, empty]; rfl)

end Output

end DevicetreeFormat.Printer
