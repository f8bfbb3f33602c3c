import DevicetreeFormat.Proofs.Comments.Position

/-!
# Runs with a comment in them

A family of command lists, one for each line comment that may stand at a certain
place. The judgement `Keeps` says what becomes of the comment whatever was written
before. Commands after a comment that was printed see none of it, because it ends
in ink, so what follows a comment can be added to a family without looking at it.
-/

namespace DevicetreeFormat

set_option autoImplicit false

open Text

/-- Ink comes before any line break. -/
def Text.InkFirst (text : List Char) : Prop :=
  ∃ gap c rest, '\n' ∉ gap ∧ isBlank c = false ∧ text = gap ++ c :: rest

namespace Text

theorem ink_first_cons {c : Char} (inked : isBlank c = false) (rest : List Char) : InkFirst (c :: rest) :=
  ⟨[], c, rest, by simp, inked, rfl⟩

theorem InkFirst.append {text : List Char} (ink : InkFirst text) (more : List Char) :
    InkFirst (text ++ more) := by
  obtain ⟨gap, c, rest, unbroken, inked, rfl⟩ := ink
  exact ⟨gap, c, rest ++ more, unbroken, inked, by simp⟩

theorem InkFirst.behind {text gap : List Char} (unbroken : '\n' ∉ gap) (ink : InkFirst text) :
    InkFirst (gap ++ text) := by
  obtain ⟨blanks, c, rest, also, inked, rfl⟩ := ink
  exact ⟨gap ++ blanks, c, rest, by simp [unbroken, also], inked, by simp⟩

theorem ink_first_strip {text : String} (filled : strip text ≠ "") : InkFirst (strip text).toList := by
  obtain ⟨c, rest, shape, inked⟩ := strip_first text filled
  rw [shape]
  exact ink_first_cons inked rest

theorem ink_first_strip_append (text : String) {rest : List Char} (ink : InkFirst rest) :
    InkFirst ((strip text).toList ++ rest) := by
  by_cases empty : strip text = ""
  · rw [empty]
    exact ink
  · exact (ink_first_strip empty).append rest

theorem OneLine.ink_first {text : String} (line : OneLine text) : InkFirst (strip text).toList :=
  ink_first_strip line.1

end Text

/-- The two ways in which a line comment is printed. -/
def Shown (form : String → String) : Prop :=
  form = normalComment ∨ form = strip

theorem shown_normal_comment : Shown normalComment := .inl rfl

theorem shown_strip : Shown strip := .inr rfl

namespace LineComment

theorem exists_strip (note : LineComment) : ∃ rest, (strip note.text).toList = '/' :: '/' :: rest :=
  (is_line_comment_iff _).mp note.slashes

theorem strip_ne (note : LineComment) {key : String} (other : isLineComment key = false) :
    strip note.text ≠ key := by
  rintro rfl
  rw [note.slashes] at other
  cases other

theorem normal_slashes (note : LineComment) : isLineComment (normalComment note.text) = true := by
  obtain ⟨rest, shape⟩ := note.exists_strip
  rw [normal_comment_of_line shape]
  split
  · rfl
  · rw [is_line_comment_iff, String.toList_append]
    exact ⟨_, rfl⟩

theorem normal_ne (note : LineComment) {key : String} (other : isLineComment key = false) :
    normalComment note.text ≠ key := by
  rintro rfl
  rw [note.normal_slashes] at other
  cases other

theorem shown_last (note : LineComment) {form : String → String} (shown : Shown form) :
    ∃ front c, (form note.text).toList = front ++ [c] ∧ isBlank c = false := by
  rcases shown with rfl | rfl
  · obtain ⟨rest, shape⟩ := note.exists_strip
    rw [normal_comment_of_line shape]
    split
    · exact ⟨['/'], '/', rfl, rfl⟩
    · next filled =>
        obtain ⟨front, c, last, inked⟩ := strip_last _ filled
        rw [String.toList_append, last, ← List.append_assoc]
        exact ⟨_, c, rfl, inked⟩
  · exact strip_last note.text note.line.1

end LineComment

namespace Printer

/-! ### What commands see behind a comment -/

theorem ends_blank_line_behind {c : Char} (other : c ≠ '\n') (front tail : List Char) :
    endsBlankLine (front ++ c :: tail) = endsBlankLine tail := by
  have whole : tail <:+ front ++ c :: tail := ⟨front ++ [c], by simp⟩
  rw [Bool.eq_iff_iff, endsBlankLine, endsBlankLine, List.isSuffixOf_iff_suffix,
    List.isSuffixOf_iff_suffix]
  constructor
  · intro ends
    by_cases long : 2 ≤ tail.length
    · exact List.suffix_of_suffix_length_le ends whole long
    · -- with a shorter tail `c` is one of the last two characters
      have within : c :: tail <:+ ['\n', '\n'] := by
        apply List.suffix_of_suffix_length_le ⟨front, rfl⟩ ends
        simp only [List.length_cons, List.length_nil]
        omega
      have member : c ∈ ['\n', '\n'] := within.subset (by simp)
      exact absurd (by simpa using member) other
  · intro ends
    exact ends.trans whole

theorem ends_blank_behind {c : Char} (inked : isBlank c = false) (front tail : List Char) :
    endsBlank (front ++ c :: tail) = endsBlank tail := by
  rcases List.eq_nil_or_concat tail with rfl | ⟨init, last, rfl⟩
  · simp [endsBlank, inked]
  · have split : front ++ c :: init.concat last = (front ++ c :: init) ++ [last] := by simp
    rw [split, List.concat_eq_append, endsBlank, endsBlank, List.getLast?_concat, List.getLast?_concat]

theorem newline_blank {c : Char} (inked : isBlank c = false) : c ≠ '\n' := by
  rintro rfl
  cases inked

/-- A command adds to a text that ends in ink and `tail` what `tail` decides. -/
theorem step_behind (command : Command) (tail : List Char) :
    ∃ added, ∀ (output : Output) (front : List Char) (c : Char), isBlank c = false →
      output.written = front ++ c :: tail → (output.step command).written = output.written ++ added := by
  cases command with
  | write text => exact ⟨text.toList, by intro output; simp [Output.step]⟩
  | report message => exact ⟨[], by intro output; simp [Output.step]⟩
  | fail fault => exact ⟨[], by intro output; simp [Output.step]⟩
  | separate =>
      refine ⟨if endsBlankLine tail = true then [] else ['\n'], ?_⟩
      intro output front c inked shape
      have filled : output.fragments ≠ [] := Output.fragments_ne_nil (by rw [shape]; simp)
      have seen : endsBlankLine output.written = endsBlankLine tail := by
        rw [shape, ends_blank_line_behind (newline_blank inked)]
      rw [Output.step, Output.written_separate, seen]
      by_cases blank : endsBlankLine tail = true <;> simp [filled, blank]
  | space =>
      refine ⟨if endsBlank tail = true then [] else [' '], ?_⟩
      intro output front c inked shape
      rw [Output.step, Output.written_space, shape, ends_blank_behind inked]
      by_cases blank : endsBlank tail = true <;> simp [blank]

theorem after_behind (commands : List Command) (tail : List Char) :
    ∃ added, ∀ (output : Output) (front : List Char) (c : Char), isBlank c = false →
      output.written = front ++ c :: tail → (output.after commands).written = output.written ++ added := by
  induction commands generalizing tail with
  | nil => exact ⟨[], by intro output; simp⟩
  | cons command rest induction =>
      obtain ⟨first, adds⟩ := step_behind command tail
      obtain ⟨later, others⟩ := induction (tail ++ first)
      refine ⟨first ++ later, ?_⟩
      intro output front c inked shape
      have here := adds output front c inked shape
      rw [Output.after_cons, others (output.step command) front c inked (by rw [here, shape]; simp), here]
      simp

theorem step_adds (command : Command) (output : Output) :
    ∃ added, (output.step command).written = output.written ++ added := by
  cases command with
  | write text => exact ⟨text.toList, by simp [Output.step]⟩
  | report message => exact ⟨[], by simp [Output.step]⟩
  | fail fault => exact ⟨[], by simp [Output.step]⟩
  | separate =>
      rw [Output.step, Output.written_separate]
      split
      · exact ⟨[], by simp⟩
      · exact ⟨['\n'], rfl⟩
  | space =>
      rw [Output.step, Output.written_space]
      split
      · exact ⟨[], by simp⟩
      · exact ⟨[' '], rfl⟩

/-- Commands only add to what was written. -/
theorem after_adds (commands : List Command) (output : Output) :
    ∃ added, (output.after commands).written = output.written ++ added := by
  induction commands generalizing output with
  | nil => exact ⟨[], by simp⟩
  | cons command rest induction =>
      obtain ⟨first, adds⟩ := step_adds command output
      obtain ⟨later, others⟩ := induction (output.step command)
      exact ⟨first ++ later, by rw [Output.after_cons, others, adds, List.append_assoc]⟩

/-! ### The judgement -/

/-- What a family of command lists does with the comment it is about. -/
inductive Keeps : Fate → (LineComment → List Command) → Prop
  | ended {family : LineComment → List Command} {form : String → String} (shown : Shown form)
      (each : ∀ output : Output, ∃ front back, ∀ note,
        (output.after (family note)).written = front ++ (form note.text).toList ++ '\n' :: back) :
      Keeps .ended family
  | joined {family : LineComment → List Command}
      (each : ∀ output : Output, ∃ front, ∀ note, ∃ rest, InkFirst rest ∧
        (output.after (family note)).written = front ++ (strip note.text).toList ++ rest) :
      Keeps .joined family
  | unread {family : LineComment → List Command}
      (same : ∀ note other, family note = family other) : Keeps .unread family

theorem keeps_congr {fate : Fate} {family other : LineComment → List Command}
    (same : ∀ note, family note = other note) (keeps : Keeps fate other) : Keeps fate family := by
  rw [show family = other from funext same]
  exact keeps

/-- What stands before and after does not change the fate. -/
theorem keeps_between {fate : Fate} {family : LineComment → List Command} (first last : List Command)
    (keeps : Keeps fate family) : Keeps fate fun note => first ++ family note ++ last := by
  cases keeps with
  | ended shown each =>
      apply Keeps.ended shown
      intro output
      obtain ⟨front, back, written⟩ := each (output.after first)
      -- later commands see what follows the last ink, which is the same for every comment
      obtain ⟨added, adds⟩ := after_behind last ('\n' :: back)
      refine ⟨front, back ++ added, fun note => ?_⟩
      obtain ⟨lead, c, ending, inked⟩ := note.shown_last shown
      have later := adds ((output.after first).after (family note)) (front ++ lead) c inked
        (by rw [written, ending]; simp)
      rw [Output.after_append, Output.after_append, later, written]
      simp
  | joined each =>
      apply Keeps.joined
      intro output
      obtain ⟨front, each⟩ := each (output.after first)
      refine ⟨front, fun note => ?_⟩
      obtain ⟨rest, ink, written⟩ := each note
      obtain ⟨added, adds⟩ := after_adds last ((output.after first).after (family note))
      refine ⟨rest ++ added, ink.append added, ?_⟩
      rw [Output.after_append, Output.after_append, adds, written, List.append_assoc]
  | unread same =>
      apply Keeps.unread
      intro note other
      rw [same note other]

theorem keeps_first {fate : Fate} {family : LineComment → List Command} (last : List Command)
    (keeps : Keeps fate family) : Keeps fate fun note => family note ++ last :=
  keeps_between [] last keeps

theorem keeps_last {fate : Fate} {family : LineComment → List Command} (first : List Command)
    (keeps : Keeps fate family) : Keeps fate fun note => first ++ family note := by
  have both := keeps_between first [] keeps
  simpa only [List.append_nil] using both

theorem ended_write {form : String → String} (shown : Shown form) (front back : String) :
    Keeps .ended fun note => [.write (front ++ form note.text ++ "\n" ++ back)] := by
  apply Keeps.ended shown
  intro output
  refine ⟨output.written ++ front.toList, back.toList, fun note => ?_⟩
  simp [Output.step]

/-- A comment at the end of a text, with a line break as the next one. -/
theorem ended_writes {form : String → String} (shown : Shown form) (front : String) :
    Keeps .ended fun note => writes [front ++ form note.text, "\n"] := by
  apply Keeps.ended shown
  intro output
  refine ⟨output.written ++ front.toList, [], fun note => ?_⟩
  simp [writes, Output.step]

theorem joined_writes {family : LineComment → String} (front last : String)
    (each : ∀ note, ∃ rest, InkFirst rest ∧
      (family note ++ last).toList = front.toList ++ (strip note.text).toList ++ rest) :
    Keeps .joined fun note => writes [family note, last] := by
  apply Keeps.joined
  intro output
  refine ⟨output.written ++ front.toList, fun note => ?_⟩
  obtain ⟨rest, ink, shape⟩ := each note
  rw [String.toList_append] at shape
  refine ⟨rest, ink, ?_⟩
  simp [writes, Output.step, shape]

/-- Commands that write ink before any line break. -/
def Opens (commands : List Command) : Prop :=
  ∀ output : Output, ∃ added, InkFirst added ∧ (output.after commands).written = output.written ++ added

theorem opens_write {text : String} (ink : InkFirst text.toList) (later : List Command) :
    Opens (.write text :: later) := by
  intro output
  obtain ⟨added, adds⟩ := after_adds later (output.write text)
  refine ⟨text.toList ++ added, ink.append added, ?_⟩
  rw [Output.after_cons, Output.step, adds, Output.written_write, List.append_assoc]

theorem Opens.append {commands : List Command} (opens : Opens commands) (later : List Command) :
    Opens (commands ++ later) := by
  intro output
  obtain ⟨added, ink, adds⟩ := opens output
  obtain ⟨more, further⟩ := after_adds later (output.after commands)
  refine ⟨added ++ more, ink.append more, ?_⟩
  rw [Output.after_append, further, adds, List.append_assoc]

/-- Commands that begin by writing ink, and the token of `first` if it is a word. -/
def Leads (first : Tree) (commands : List Command) : Prop :=
  ∃ text later, commands = .write text :: later ∧ InkFirst text.toList ∧
    (first.kind.isSymbol = false → first.token.toList <+: text.toList)

theorem Leads.append {first : Tree} {commands : List Command} (leads : Leads first commands)
    (more : List Command) : Leads first (commands ++ more) := by
  obtain ⟨text, later, rfl, ink, word⟩ := leads
  exact ⟨text, later ++ more, rfl, ink, word⟩

theorem Leads.opens {first : Tree} {commands : List Command} (leads : Leads first commands) :
    Opens commands := by
  obtain ⟨text, later, rfl, ink, _⟩ := leads
  exact opens_write ink later

theorem leads_symbol {first : Tree} (symbol : first.kind.isSymbol = true) (text : String)
    (ink : InkFirst text.toList) (later : List Command) : Leads first (.write text :: later) := by
  refine ⟨text, later, rfl, ink, fun word => ?_⟩
  rw [symbol] at word
  cases word

theorem leads_token {first : Tree} (line : OneLine first.text) (later : List Command) :
    Leads first (.write first.token :: later) :=
  ⟨_, later, rfl, line.ink_first, fun _ => List.prefix_rfl⟩

/-- A comment with commands after it that go on on its line. -/
theorem joined_before {gap : String} (unbroken : '\n' ∉ gap.toList) {later : List Command}
    (opens : Opens later) : Keeps .joined fun note => .write (strip note.text ++ gap) :: later := by
  apply Keeps.joined
  intro output
  refine ⟨output.written, fun note => ?_⟩
  obtain ⟨added, ink, adds⟩ := opens (output.write (strip note.text ++ gap))
  refine ⟨gap.toList ++ added, ink.behind unbroken, ?_⟩
  rw [Output.after_cons, Output.step, adds, Output.written_write, String.toList_append]
  simp

end Printer

end DevicetreeFormat
