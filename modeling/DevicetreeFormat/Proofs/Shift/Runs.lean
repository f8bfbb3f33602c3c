import DevicetreeFormat.Proofs.Run
import DevicetreeFormat.Proofs.Shift.Margin
import DevicetreeFormat.Proofs.Word

/-!
# Two runs side by side

Two lists of commands that differ only in the depth at which they print are run
side by side, the second after some text of its own. What the second run writes
is what the first one writes with a margin. The commands that look back take the
same decision in both runs, because the two texts end alike.

A run is at the start of a line, or on a line that has been begun. In the first
case it matters whether anything has been written yet; in the second, whether
there is something on the line that tells the two runs whether a blank is due.
-/

namespace DevicetreeFormat.Printer

set_option autoImplicit false

open Text

section

variable (margin front : List Char)

/-- At the start of a line, or of the text. -/
structure AtStart (near far : List Char) : Prop where
  fresh : endsFresh true near = true
  first : near.head? ≠ some '\n'
  shifted : far = front ++ shiftFrom margin true near

/-- At the start of a line that is not the first. -/
structure AtLine (near far : List Char) : Prop extends AtStart margin front near far where
  filled : near ≠ []

/-- On a line that has been begun: what is written next needs no margin. -/
def OnLine (near far : List Char) : Prop :=
  ∀ text : List Char, text ≠ [] → text.head? ≠ some '\n' →
    (near ++ text).head? ≠ some '\n' ∧
      far ++ shiftFrom margin false text = front ++ shiftFrom margin true (near ++ text)

/-- On a line, where both runs see the same last character or both see a blank. -/
structure AfterToken (near far : List Char) : Prop where
  onLine : OnLine margin front near far
  blank : endsBlank far = endsBlank near

end

/-- Two lists of commands take texts related by `before` to texts related by
`after`. -/
structure Carries (before after : List Char → List Char → Prop) (left right : List Command) :
    Prop where
  carry : ∀ near far : Output, before near.written far.written →
    after (near.after left).written (far.after right).written

section

variable {before middle after : List Char → List Char → Prop} {left right : List Command}

theorem carries_nil (relation : List Char → List Char → Prop) : Carries relation relation [] [] :=
  ⟨fun _ _ related => related⟩

theorem carries_append {laterLeft laterRight : List Command} (first : Carries before middle left right)
    (second : Carries middle after laterLeft laterRight) :
    Carries before after (left ++ laterLeft) (right ++ laterRight) := by
  constructor
  intro near far related
  rw [Output.after_append, Output.after_append]
  exact second.carry _ _ (first.carry near far related)

theorem carries_cons {command other : Command} {laterLeft laterRight : List Command}
    (first : Carries before middle [command] [other])
    (second : Carries middle after laterLeft laterRight) :
    Carries before after (command :: laterLeft) (other :: laterRight) := by
  have whole := carries_append first second
  rwa [List.singleton_append, List.singleton_append] at whole

theorem carries_weaken {weaker stronger : List Char → List Char → Prop}
    (carries : Carries before after left right)
    (pre : ∀ near far, stronger near far → before near far)
    (post : ∀ near far, after near far → weaker near far) : Carries stronger weaker left right :=
  ⟨fun near far related => post _ _ (carries.carry near far (pre _ _ related))⟩

theorem carries_write {text other : String}
    (step : ∀ near far, before near far → after (near ++ text.toList) (far ++ other.toList)) :
    Carries before after [.write text] [.write other] := by
  constructor
  intro near far related
  rw [Output.after_cons, Output.after_cons, Output.after_nil, Output.after_nil]
  simpa only [Output.step, Output.written_write] using step _ _ related

theorem carries_report (messages : List String) (relation : List Char → List Char → Prop) :
    Carries relation relation (messages.map .report) (messages.map .report) := by
  induction messages with
  | nil => exact carries_nil relation
  | cons message rest induction =>
      have step : Carries relation relation [.report message] [.report message] :=
        ⟨fun _ _ related => related⟩
      exact carries_cons step induction

end

/-! ### Steps of two runs -/

section

variable {margin front near far : List Char}

theorem ends_blank_concat (text : List Char) (c : Char) : endsBlank (text ++ [c]) = isBlank c := by
  simp [endsBlank]

theorem head_append_ne {first second : List Char} (filled : first ≠ [])
    (head : first.head? ≠ some '\n') : (first ++ second).head? ≠ some '\n' := by
  cases first with
  | nil => exact absurd rfl filled
  | cons c rest => exact head

theorem on_line_of_at_start (start : AtStart margin front near far) {indentation : List Char}
    (unbroken : '\n' ∉ indentation) :
    OnLine margin front (near ++ indentation) (far ++ (margin ++ indentation)) := by
  intro text filled first
  have whole : (indentation ++ text).head? ≠ some '\n' := by
    cases indentation with
    | nil => exact first
    | cons c rest =>
        intro head
        exact unbroken (List.mem_of_mem_head? (by simpa using head))
  have nonempty : indentation ++ text ≠ [] := by simp [filled]
  rw [List.append_assoc]
  constructor
  · cases near with
    | nil => exact whole
    | cons c rest => exact head_append_ne (List.cons_ne_nil _ _) start.first
  · rw [shift_from_append, start.fresh, shift_from_fresh margin nonempty whole, shift_from_append,
      ends_fresh_unbroken unbroken, shift_from_unbroken margin unbroken, start.shifted]
    simp

theorem after_token_of_on_line (onLine : OnLine margin front near far) {text : List Char}
    (filled : text ≠ []) (first : text.head? ≠ some '\n') (ends : endsFresh false text = false) :
    AfterToken margin front (near ++ text) (far ++ shiftFrom margin false text) := by
  constructor
  · intro later laterFilled laterFirst
    have longer : (text ++ later).head? ≠ some '\n' := head_append_ne filled first
    have split := shift_from_append margin false text later
    rw [ends] at split
    rw [List.append_assoc, List.append_assoc, ← split]
    exact onLine (text ++ later) (by simp [filled]) longer
  · obtain ⟨body, c, rfl⟩ := List.eq_nil_or_concat text |>.resolve_left filled
    rw [List.concat_eq_append]
    obtain ⟨shifted, same⟩ := shift_from_concat margin false body c
    rw [same, ← List.append_assoc, ← List.append_assoc, ends_blank_concat, ends_blank_concat]

theorem at_line_of_on_line (onLine : OnLine margin front near far) {text : List Char}
    (filled : text ≠ []) (first : text.head? ≠ some '\n') (ends : endsFresh false text = true) :
    AtLine margin front (near ++ text) (far ++ shiftFrom margin false text) := by
  obtain ⟨head, shifted⟩ := onLine text filled first
  refine ⟨⟨?_, head, shifted⟩, by simp [filled]⟩
  rw [ends_fresh_append]
  cases text with
  | nil => exact absurd rfl filled
  | cons c rest => exact ends

theorem head_ne_of_unbroken {text : List Char} (unbroken : '\n' ∉ text) : text.head? ≠ some '\n' :=
  fun head => unbroken (List.mem_of_mem_head? head)

/-- Two runs at the start of a line see a blank line, or none, together. -/
theorem ends_blank_line_of_at_line (line : AtLine margin front near far) :
    endsBlankLine far = endsBlankLine near := by
  obtain ⟨body, rfl⟩ := exists_of_ends_fresh line.filled line.fresh
  rcases List.eq_nil_or_concat body with rfl | ⟨rest, c, rfl⟩
  · exact absurd rfl line.first
  · obtain ⟨shifted, same⟩ := shift_from_concat margin true rest c
    have nearShape : rest.concat c ++ ['\n'] = rest ++ [c, '\n'] := by simp
    have farShape : front ++ shiftFrom margin true (rest.concat c ++ ['\n']) =
        (front ++ shifted) ++ [c, '\n'] := by
      rw [List.concat_eq_append, shift_from_append, same, shift_from_break, shift_from_nil]
      simp
    rw [line.shifted, farShape, nearShape, ends_blank_line_concat, ends_blank_line_concat]

end

/-! ### Commands of two runs -/

section

variable {margin front : List Char}

theorem carries_separate :
    Carries (AtLine margin front) (AtLine margin front) [.separate] [.separate] := by
  constructor
  intro near far line
  have farFilled : far.written ≠ [] := by
    obtain ⟨body, shape⟩ := exists_of_ends_fresh line.filled line.fresh
    rw [line.shifted, shape, shift_from_append]
    simp [shiftFrom]
  rw [Output.after_cons, Output.after_cons, Output.after_nil, Output.after_nil, Output.step,
    Output.step, Output.written_separate, Output.written_separate, ends_blank_line_of_at_line line]
  simp only [Output.fragments_ne_nil line.filled, Output.fragments_ne_nil farFilled, false_or]
  split
  · exact line
  · refine ⟨⟨ends_fresh_concat _ _ _, head_append_ne line.filled line.first, ?_⟩, by simp⟩
    rw [shift_from_append, line.fresh, shift_from_break, line.shifted]
    simp

/-- A blank line after the line that has just ended. -/
theorem carries_blank_line :
    Carries (AtLine margin front) (AtLine margin front) [.write "\n"] [.write "\n"] := by
  apply carries_write
  intro near far line
  refine ⟨⟨ends_fresh_concat _ near '\n', head_append_ne line.filled line.first, ?_⟩, by simp⟩
  rw [line.shifted, shift_from_append, line.fresh]
  simp [shiftFrom]

theorem carries_space :
    Carries (AfterToken margin front) (AfterToken margin front) [.space] [.space] := by
  constructor
  intro near far token
  rw [Output.after_cons, Output.after_cons, Output.after_nil, Output.after_nil, Output.step,
    Output.step, Output.written_space, Output.written_space, token.blank]
  split
  · exact token
  · exact after_token_of_on_line token.onLine (List.cons_ne_nil ' ' []) (by simp) rfl

theorem carries_begin {indentation other : String} (unbroken : '\n' ∉ indentation.toList)
    (deeper : other.toList = margin ++ indentation.toList) :
    Carries (AtStart margin front) (OnLine margin front) [.write indentation] [.write other] := by
  apply carries_write
  intro near far start
  rw [deeper]
  exact on_line_of_at_start start unbroken

/-- Indentation in the middle of an item: both runs end in a blank. -/
theorem carries_resume {indentation other : String} (unbroken : '\n' ∉ indentation.toList)
    (blank : ∀ c ∈ other.toList, isBlank c = true)
    (deeper : other.toList = margin ++ indentation.toList) :
    Carries (AtLine margin front) (AfterToken margin front) [.write indentation] [.write other] := by
  apply carries_write
  intro near far line
  refine ⟨by rw [deeper]; exact on_line_of_at_start line.toAtStart unbroken, ?_⟩
  have ends : ∀ text blanks : List Char, endsBlank text = true → (∀ c ∈ blanks, isBlank c = true) →
      endsBlank (text ++ blanks) = true := by
    intro text blanks ended inside
    rcases List.eq_nil_or_concat blanks with rfl | ⟨rest, c, rfl⟩
    · rw [List.append_nil, ended]
    · rw [List.concat_eq_append, ← List.append_assoc, ends_blank_concat]
      exact inside c (by simp)
  obtain ⟨body, shape⟩ := exists_of_ends_fresh line.filled line.fresh
  have nearBlank : endsBlank near = true := by rw [shape, ends_blank_concat]; rfl
  have farBlank : endsBlank far = true := by
    rw [line.shifted, shape, shift_from_append, shift_from_break, shift_from_nil, ← List.append_assoc,
      ends_blank_concat]
    rfl
  rw [ends far _ farBlank blank, ends near _ nearBlank]
  intro c member
  exact blank c (by rw [deeper]; exact List.mem_append_right _ member)

theorem carries_value {text other : String} (filled : text.toList ≠ [])
    (first : text.toList.head? ≠ some '\n') (ends : endsFresh false text.toList = false)
    (shifted : other.toList = shiftFrom margin false text.toList) :
    Carries (OnLine margin front) (AfterToken margin front) [.write text] [.write other] := by
  apply carries_write
  intro near far onLine
  rw [shifted]
  exact after_token_of_on_line onLine filled first ends

theorem carries_token {text : String} (word : IsWord text) :
    Carries (OnLine margin front) (AfterToken margin front) [.write text] [.write text] :=
  carries_value word.filled (head_ne_of_unbroken word.2) (ends_fresh_unbroken word.2)
    (shift_from_unbroken margin word.2).symm

theorem carries_word {text : String} (word : IsWord text) :
    Carries (OnLine margin front) (OnLine margin front) [.write text] [.write text] :=
  carries_weaken (carries_token word) (fun _ _ line => line) fun _ _ token => token.onLine

theorem carries_close {text line : String} (word : IsWord text)
    (shape : line.toList = text.toList ++ ['\n']) :
    Carries (OnLine margin front) (AtLine margin front) [.write line] [.write line] := by
  apply carries_write
  intro near far onLine
  have first : (text.toList ++ ['\n']).head? ≠ some '\n' :=
    head_append_ne word.filled (head_ne_of_unbroken word.2)
  have whole := at_line_of_on_line onLine (by simp) first (ends_fresh_concat false text.toList '\n')
  rw [shift_from_append, shift_from_unbroken margin word.2, shift_from_break, shift_from_nil] at whole
  rw [shape]
  exact whole

theorem carries_last {text : String} (word : IsWord text) :
    Carries (OnLine margin front) (AtLine margin front) (writes [text, "\n"]) (writes [text, "\n"]) := by
  constructor
  intro near far onLine
  have shape : (text ++ "\n").toList = text.toList ++ ['\n'] := by simp
  have whole := (carries_close word shape).carry near far onLine
  simpa [writes, Output.step] using whole

theorem carries_line {indentation other text : String} (indented : '\n' ∉ indentation.toList)
    (deeper : other.toList = margin ++ indentation.toList) (word : IsWord text) :
    Carries (AtStart margin front) (AtLine margin front) (writes [indentation, text, "\n"])
      (writes [other, text, "\n"]) :=
  carries_cons (carries_begin indented deeper) (carries_last word)

end

end DevicetreeFormat.Printer
