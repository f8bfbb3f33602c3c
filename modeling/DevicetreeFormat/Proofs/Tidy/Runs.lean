import DevicetreeFormat.Proofs.Run
import DevicetreeFormat.Proofs.Tidy.Values

/-!
# Runs that keep the output tidy

What has been written is tidy if its lines end well and if it has no two blank lines
in a row outside of the binding tables. The tables that have been written are named,
in order, and what stands between them is calm. Three states matter to the commands:
anywhere, behind a line break, and behind the break of a line that is not empty. Only
in the last of them may a blank line be written without a look back.
-/

namespace DevicetreeFormat.Printer

set_option autoImplicit false

open Text

/-- A text without two blank lines in a row. -/
def Calm (text : List Char) : Prop :=
  ¬ ['\n', '\n', '\n'] <:+: text

/-- Calm texts with the tables between them. -/
inductive Woven : List String → List Char → Prop
  | plain {segment : List Char} (calm : Calm segment) : Woven [] segment
  | table {tables : List String} {text segment : List Char} (table : String)
      (before : Woven tables text) (calm : Calm segment) :
      Woven (tables ++ [table]) (text ++ table.toList ++ segment)

theorem calm_nil : Calm [] := by
  simp [Calm]

/-- A neat text behind a calm one: the first break in it has ink before it. -/
theorem calm_append_neat {text more : List Char} (calm : Calm text) (neat : Neat more) :
    Calm (text ++ more) := by
  intro broken
  rcases List.infix_append_iff.mp broken with
    early | ⟨front, rest, late⟩ | ⟨left, right, split, ends, starts⟩
  · exact calm early
  · have inked := neat (front ++ ['\n']) ('\n' :: rest) (by simp [← late])
    rw [ends_in_concat_iff] at inked
    cases inked
  · cases right with
    | nil =>
        rw [List.append_nil] at split
        exact calm (split ▸ ends).isInfix
    | cons c others =>
        have breaking : c = '\n' := by
          have member : c ∈ ['\n', '\n', '\n'] := by simp [split]
          simpa using member
        obtain ⟨rest, rfl⟩ := starts
        rw [breaking] at neat
        exact not_ends_in_nil (neat [] (others ++ rest) rfl)

/-- A blank line behind the break of a line that is not empty. -/
theorem calm_append_break {text front : List Char} {c : Char} (calm : Calm text)
    (ends : text <:+ front ++ [c, '\n']) (filled : c ≠ '\n') : Calm (text ++ ['\n']) := by
  intro broken
  rcases List.infix_concat_iff.mp broken with ⟨lead, late⟩ | early
  · have shorter : lead ++ ['\n', '\n'] = text :=
      List.append_inj_left' (by simpa using late) rfl
    obtain ⟨before, whole⟩ := ends
    rw [← shorter, ← List.append_assoc] at whole
    exact filled (List.cons.inj (List.append_inj_right' whole rfl)).1.symm
  · exact calm early

theorem Woven.append {tables : List String} {text more : List Char} (woven : Woven tables text)
    (calm : ∀ segment, segment <:+ text → Calm segment → Calm (segment ++ more)) :
    Woven tables (text ++ more) := by
  cases woven with
  | plain own => exact .plain (calm text (List.suffix_refl text) own)
  | table table before own =>
      rw [List.append_assoc]
      exact .table table before (calm _ (List.suffix_append _ _) own)

/-! ### States -/

structure Clean (tables : List String) (text : List Char) : Prop where
  woven : Woven tables text
  trimmed : Trimmed text

/-- Behind a line break. -/
structure AfterBreak (tables : List String) (text : List Char) : Prop extends Clean tables text where
  ended : EndsIn (· = '\n') text

/-- Behind the break of a line that is not empty. -/
structure AfterLine (tables : List String) (text : List Char) : Prop extends Clean tables text where
  ended : ∃ front c, c ≠ '\n' ∧ text = front ++ [c, '\n']

section

variable {tables : List String} {text more : List Char}

theorem Clean.neat (clean : Clean tables text) (neat : Neat more) : Clean tables (text ++ more) where
  woven := clean.woven.append fun _ _ calm => calm_append_neat calm neat
  trimmed := breaks_behind_append clean.trimmed (breaks_behind_mono (fun _ => .inr) neat)

theorem Clean.table (clean : Clean tables text) {table : String} (trimmed : Trimmed table.toList) :
    Clean (tables ++ [table]) (text ++ table.toList) where
  woven := by
    have whole := Woven.table table clean.woven calm_nil
    rwa [List.append_nil] at whole
  trimmed := breaks_behind_append clean.trimmed trimmed

theorem Clean.line (clean : Clean tables text) {line : String} (solid : Solid line) :
    AfterLine tables (text ++ (line ++ "\n").toList) := by
  have shape : (line ++ "\n").toList = line.toList ++ ['\n'] := by simp
  have neat := breaks_behind_break (breaks_behind_unbroken solid.unbroken) solid.ends
  rw [shape]
  refine ⟨clean.neat neat, ?_⟩
  obtain ⟨front, c, body, inked⟩ := solid.ends
  refine ⟨text ++ front, c, ?_, by simp [body]⟩
  rintro rfl
  cases inked

theorem AfterLine.after_break (line : AfterLine tables text) : AfterBreak tables text := by
  obtain ⟨front, c, _, shape⟩ := line.ended
  exact ⟨line.toClean, front ++ [c], '\n', by simp [shape], rfl⟩

theorem AfterLine.blank_line (line : AfterLine tables text) : AfterBreak tables (text ++ ['\n']) := by
  obtain ⟨front, c, filled, shape⟩ := line.ended
  refine ⟨⟨?_, ?_⟩, ends_in_concat_iff.mpr rfl⟩
  · exact line.woven.append fun segment ends calm => calm_append_break calm (shape ▸ ends) filled
  · refine breaks_behind_break line.trimmed ⟨front ++ [c], '\n', by simp [shape], .inl rfl⟩

end

/-! ### Commands -/

/-- Commands that take a text in one state to a text in another. -/
structure Takes (before after : List Char → Prop) (commands : List Command) : Prop where
  take : ∀ output : Output, before output.written → after (output.after commands).written

section

variable {before middle after : List Char → Prop} {commands : List Command}

theorem takes_nil (state : List Char → Prop) : Takes state state [] :=
  ⟨fun _ holds => holds⟩

theorem takes_append {later : List Command} (first : Takes before middle commands)
    (second : Takes middle after later) : Takes before after (commands ++ later) := by
  constructor
  intro output holds
  rw [Output.after_append]
  exact second.take _ (first.take output holds)

theorem takes_cons {command : Command} {later : List Command} (first : Takes before middle [command])
    (second : Takes middle after later) : Takes before after (command :: later) :=
  takes_append first second

theorem Takes.narrow {stronger : List Char → Prop} (takes : Takes before after commands)
    (pre : ∀ text, stronger text → before text) : Takes stronger after commands :=
  ⟨fun output holds => takes.take output (pre _ holds)⟩

theorem Takes.widen {weaker : List Char → Prop} (takes : Takes before after commands)
    (post : ∀ text, after text → weaker text) : Takes before weaker commands :=
  ⟨fun output holds => post _ (takes.take output holds)⟩

theorem written_writes (output : Output) (texts : List String) :
    (output.after (writes texts)).written = output.written ++ (String.join texts).toList := by
  induction texts generalizing output with
  | nil => simp [writes]
  | cons text rest induction =>
      rw [writes, List.map_cons, Output.after_cons, ← writes, induction]
      simp [Output.step]

theorem takes_writes {texts : List String}
    (step : ∀ text, before text → after (text ++ (String.join texts).toList)) :
    Takes before after (writes texts) := by
  constructor
  intro output holds
  rw [written_writes]
  exact step _ holds

theorem takes_write {written : String}
    (step : ∀ text, before text → after (text ++ written.toList)) :
    Takes before after [.write written] := by
  have single : String.join [written] = written := by simp
  have takes : Takes before after (writes [written]) := takes_writes (by rwa [single])
  exact takes

theorem takes_reports (messages : List String) (state : List Char → Prop) :
    Takes state state (messages.map .report) := by
  induction messages with
  | nil => exact takes_nil state
  | cons message rest induction => exact ⟨fun output holds => induction.take _ holds⟩

end

section

variable {tables : List String}

theorem takes_neat {text : String} (neat : Neat text.toList) :
    Takes (Clean tables) (Clean tables) [.write text] :=
  takes_write fun _ clean => clean.neat neat

theorem takes_unbroken {text : String} (unbroken : '\n' ∉ text.toList) :
    Takes (Clean tables) (Clean tables) [.write text] :=
  takes_neat (breaks_behind_unbroken unbroken)

/-- The last word of a line, and its end. -/
theorem takes_last {text : String} (solid : Solid text) :
    Takes (Clean tables) (AfterLine tables) (writes [text, "\n"]) := by
  have shape : String.join [text, "\n"] = text ++ "\n" := by simp
  apply takes_writes
  intro before clean
  rw [shape]
  exact clean.line solid

theorem takes_close {text line : String} (solid : Solid text) (closed : line = text ++ "\n") :
    Takes (Clean tables) (AfterLine tables) [.write line] :=
  takes_write fun _ clean => closed ▸ clean.line solid

theorem takes_indented {context : Context} (unit : isIndentUnit context.indentUnit = true)
    {text : String} (solid : Solid text) :
    Takes (Clean tables) (AfterLine tables) (writes [context.indentation, text, "\n"]) :=
  takes_cons (takes_unbroken (indentation_unbroken unit)) (takes_last solid)

/-- A break without a blank line before it ends a line that is not empty. -/
theorem AfterBreak.after_line {text : List Char} (line : AfterBreak tables text)
    (single : endsBlankLine text = false) : AfterLine tables text := by
  obtain ⟨front, _, rfl, rfl⟩ := line.ended
  obtain ⟨lead, c, rfl, _⟩ := line.trimmed front [] rfl
  have shape : lead ++ [c] ++ ['\n'] = lead ++ [c, '\n'] := by simp
  rw [shape, ends_blank_line_concat] at single
  exact ⟨line.toClean, lead, c, of_decide_eq_false single, shape⟩

theorem takes_separate : Takes (AfterBreak tables) (AfterBreak tables) [.separate] := by
  constructor
  intro output line
  rw [Output.after_cons, Output.after_nil, Output.step, Output.written_separate]
  split
  · exact line
  · next single =>
      rw [not_or, Bool.not_eq_true] at single
      exact (line.after_line single.2).blank_line

theorem takes_space : Takes (Clean tables) (Clean tables) [.space] := by
  constructor
  intro output clean
  rw [Output.after_cons, Output.after_nil, Output.step, Output.written_space]
  split
  · exact clean
  · exact clean.neat (breaks_behind_unbroken (by decide))

/-- A blank line that is written without a look back. -/
theorem takes_blank_line : Takes (AfterLine tables) (AfterBreak tables) [.write "\n"] :=
  takes_write fun _ line => line.blank_line

theorem takes_end_run (place : Place) (similar : Kind → Bool) :
    Takes (AfterLine tables) (AfterBreak tables) (endRun place similar) := by
  have quiet : Takes (AfterLine tables) (AfterBreak tables) [] :=
    ⟨fun _ line => line.after_break⟩
  unfold endRun
  split
  · split
    · exact takes_blank_line
    · exact quiet
  · exact quiet

theorem takes_before_node (place : Place) :
    Takes (AfterLine tables) (AfterBreak tables) (beforeNode place) := by
  have quiet : Takes (AfterLine tables) (AfterBreak tables) [] :=
    ⟨fun _ line => line.after_break⟩
  unfold beforeNode
  split
  · split
    · exact takes_blank_line
    · exact quiet
  · exact quiet

theorem takes_begin_item (place : Place) {context : Context}
    (unit : isIndentUnit context.indentUnit = true) :
    Takes (Clean tables) (Clean tables) (beginItem place context) := by
  unfold beginItem
  split
  · exact takes_nil _
  · exact takes_unbroken (indentation_unbroken unit)

theorem takes_semicolon : Takes (Clean tables) (AfterLine tables) [.write ";\n"] := by
  have mark : Solid ";" := ⟨by decide, [], ';', rfl, rfl⟩
  exact takes_close mark rfl

end

end DevicetreeFormat.Printer
