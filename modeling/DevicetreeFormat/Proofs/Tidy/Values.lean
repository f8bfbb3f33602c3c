import DevicetreeFormat.Proofs.Rules
import DevicetreeFormat.Proofs.Table.Columns

/-!
# Where values break lines

A line ends well if the character before its break is ink. Texts in which all lines
end well can be joined in any way, because neither of them begins with a break. In
a binding table a line may also be empty, so there the character before a break may
be a break itself, but not at the very beginning.

The lines of cell lists and byte strings end well, and those of tables do so or are
empty.
-/

namespace DevicetreeFormat.Text

set_option autoImplicit false

/-- Every line break stands right behind an allowed character. -/
def BreaksBehind (allowed : Char → Prop) (text : List Char) : Prop :=
  ∀ front rest, text = front ++ '\n' :: rest → EndsIn allowed front

/-- All lines but the last end in ink. -/
abbrev Neat (text : List Char) : Prop :=
  BreaksBehind IsInk text

/-- All lines but the last end in ink or are empty, and the first is not empty. -/
abbrev Trimmed (text : List Char) : Prop :=
  BreaksBehind (fun c => c = '\n' ∨ IsInk c) text

section

variable {allowed : Char → Prop} {text : List Char}

theorem breaks_behind_mono {weaker : Char → Prop} (weaken : ∀ c, allowed c → weaker c)
    (breaks : BreaksBehind allowed text) : BreaksBehind weaker text :=
  fun front rest shape => ends_in_mono weaken (breaks front rest shape)

theorem breaks_behind_unbroken (unbroken : '\n' ∉ text) : BreaksBehind allowed text := by
  intro front rest shape
  exact absurd (by simp [shape]) unbroken

theorem breaks_behind_append {first second : List Char} (left : BreaksBehind allowed first)
    (right : BreaksBehind allowed second) : BreaksBehind allowed (first ++ second) := by
  intro front rest shape
  rcases List.append_eq_append_iff.mp shape with ⟨middle, before, after⟩ | ⟨middle, before, after⟩
  · rw [before]
    exact ends_in_append first (right middle rest after)
  · cases middle with
    | nil => exact absurd (right [] rest (by simpa using after.symm)) not_ends_in_nil
    | cons c later =>
        obtain ⟨rfl, _⟩ := List.cons.inj after
        exact left front later before

theorem breaks_behind_break (breaks : BreaksBehind allowed text) (ends : EndsIn allowed text) :
    BreaksBehind allowed (text ++ ['\n']) := by
  intro front rest shape
  rcases List.append_eq_append_iff.mp shape with ⟨middle, before, after⟩ | ⟨middle, before, after⟩
  · cases middle with
    | nil => simpa [before] using ends
    | cons c later => simp at after
  · cases middle with
    | nil => simpa [before] using ends
    | cons c later =>
        obtain ⟨rfl, _⟩ := List.cons.inj after
        exact breaks front later before

/-- A line break and a new line behind a text. -/
theorem breaks_behind_line (breaks : BreaksBehind allowed text) (ends : EndsIn allowed text)
    {line : List Char} (unbroken : '\n' ∉ line) : BreaksBehind allowed (text ++ '\n' :: line) := by
  have whole := breaks_behind_append (breaks_behind_break breaks ends) (breaks_behind_unbroken unbroken)
  simpa using whole

end

theorem intercalate_breaks (first : String) (lines : List String) :
    ("\n".intercalate (first :: lines)).toList =
      first.toList ++ lines.flatMap fun line => '\n' :: line.toList := by
  induction lines generalizing first with
  | nil => simp
  | cons second rest induction =>
      rw [String.intercalate_cons_cons, String.toList_append, String.toList_append, induction]
      simp

/-- A text made of lines. Empty lines between the first and the last need a break
behind a break. -/
theorem breaks_behind_lines {allowed : Char → Prop} {first last : String} {lines : List String}
    (begins : '\n' ∉ first.toList) (ends : EndsIn allowed first.toList)
    (each : ∀ line ∈ lines, '\n' ∉ line.toList ∧
      (EndsIn allowed line.toList ∨ line = "" ∧ allowed '\n'))
    (unbroken : '\n' ∉ last.toList) :
    BreaksBehind allowed ("\n".intercalate (first :: (lines ++ [last]))).toList := by
  rw [intercalate_breaks, List.flatMap_append, List.flatMap_singleton, ← List.append_assoc]
  have breaks : BreaksBehind allowed first.toList := breaks_behind_unbroken begins
  generalize first.toList = text at ends breaks
  induction lines generalizing text with
  | nil => simpa using breaks_behind_line breaks ends unbroken
  | cons line rest induction =>
      obtain ⟨whole, closed⟩ := each line (by simp)
      have longer : EndsIn allowed (text ++ '\n' :: line.toList) := by
        apply ends_in_append
        rcases closed with inked | ⟨rfl, allowsBreak⟩
        · exact ends_in_append ['\n'] inked
        · exact ⟨[], '\n', rfl, allowsBreak⟩
      have step := induction (fun other member => each other (by simp [member]))
        (text ++ '\n' :: line.toList) longer (breaks_behind_line breaks ends whole)
      simpa using step

end DevicetreeFormat.Text

namespace DevicetreeFormat.Printer

set_option autoImplicit false

open Text

theorem write_cells_neat {context : Context} (unit : isIndentUnit context.indentUnit = true)
    {tokens : List String} (solid : ∀ token ∈ tokens, Solid token) {text : String} {gap : Gap}
    (neat : Neat text.toList) (ends : EndsIn IsInk text.toList) :
    Neat (writeCells context text gap tokens).toList := by
  induction tokens generalizing text gap with
  | nil =>
      cases gap with
      | none | space => simpa [writeCells] using neat
      | line =>
          have whole := breaks_behind_line neat ends (indentation_unbroken unit)
          simpa [writeCells] using whole
  | cons token rest induction =>
      have here : Solid token := solid token (by simp)
      rw [writeCells]
      apply induction fun other member => solid other (by simp [member])
      · rw [String.toList_append]
        apply breaks_behind_append _ (breaks_behind_unbroken here.unbroken)
        rw [String.toList_append]
        cases gapBefore text token gap with
        | none => simpa [Gap.text] using neat
        | space =>
            have blank : '\n' ∉ " ".toList := by decide
            exact breaks_behind_append neat (breaks_behind_unbroken blank)
        | line =>
            have deeper : isIndentUnit context.deeper.indentUnit = true := unit
            have whole := breaks_behind_line neat ends (indentation_unbroken deeper)
            simpa [Gap.text] using whole
      · rw [String.toList_append]
        exact ends_in_append _ here.ends

theorem cell_token_solid {cell : Cell} (line : OneLine cell.text) : Solid (cellToken cell) := by
  rw [cellToken]
  split
  · exact solid_normal_comment line
  · exact solid_strip line

section

variable {cells : List Cell} (lines : ∀ cell ∈ cells, cell.isAngle = true ∨ OneLine cell.text)
  {context : Context} (unit : isIndentUnit context.indentUnit = true)

include lines unit

theorem plain_cells_neat : Neat (plainCells cells context).toList := by
  rw [plainCells, String.toList_append]
  refine breaks_behind_append (write_cells_neat unit ?_ ?_ ?_) (breaks_behind_unbroken (by decide))
  · intro token member
    obtain ⟨cell, kept, rfl⟩ := List.mem_map.mp member
    obtain ⟨inside, plain⟩ := List.mem_filter.mp kept
    rcases lines cell inside with angle | line
    · simp [angle] at plain
    · exact cell_token_solid line
  · exact breaks_behind_unbroken (by decide)
  · exact ⟨[], '<', rfl, rfl⟩

/-- The lines of a table end in ink or are empty. -/
theorem table_trimmed (layout : Layout) :
    Trimmed ("\n".intercalate ("<" :: (Table.commentLines cells context ++
      Table.rowsOf cells layout context.indentation ++ [context.shallower.indentation ++ ">"]))).toList := by
  have indented := indentation_unbroken unit
  have closing : '\n' ∉ (context.shallower.indentation ++ ">").toList := by
    have shallower : isIndentUnit context.shallower.indentUnit = true := unit
    rw [String.toList_append, List.mem_append, not_or]
    exact ⟨indentation_unbroken shallower, by decide⟩
  refine breaks_behind_lines (by decide) ⟨[], '<', rfl, .inr rfl⟩ ?_ closing
  intro line member
  rcases List.mem_append.mp member with commented | row
  · obtain ⟨cell, kept, rfl⟩ := List.mem_map.mp commented
    obtain ⟨inside, comment⟩ := List.mem_filter.mp kept
    have plain : cell.isAngle ≠ true := by
      have kind : cell.kind = .comment := of_decide_eq_true comment
      rw [Cell.isAngle, kind]
      decide
    have solid := solid_append indented
      (solid_normal_comment ((lines cell inside).resolve_left plain))
    exact ⟨solid.unbroken, .inl (ends_in_mono (fun _ => .inr) solid.ends)⟩
  · refine ⟨Table.rows_of_unbroken lines layout indented line row, ?_⟩
    have stripped : ∀ c ∈ line.toList.getLast?, isBlank c = false := by
      obtain ⟨entries, _, rfl⟩ := List.mem_map.mp row
      exact Table.row_text_stripped _
    rcases List.eq_nil_or_concat line.toList with empty | ⟨front, c, shape⟩
    · exact .inr ⟨String.toList_eq_nil_iff.mp empty, .inl rfl⟩
    · rw [List.concat_eq_append] at shape
      exact .inl ⟨front, c, shape, .inr (stripped c (by simp [shape]))⟩

end

theorem pairs_solid {digits : List Char} (inked : ∀ c ∈ digits, isBlank c = false) :
    ∀ pair ∈ (Table.pieces 2 digits).map String.ofList, Solid pair := by
  intro pair member
  obtain ⟨piece, piecewise, rfl⟩ := List.mem_map.mp member
  have inside : ∀ c ∈ piece, isBlank c = false := fun c present =>
    inked c (Table.mem_of_mem_pieces (by decide) piecewise present)
  obtain ⟨front, c, rfl⟩ := List.eq_nil_or_concat piece |>.resolve_left
    (Table.ne_nil_of_mem_pieces (by decide) piecewise)
  rw [List.concat_eq_append] at inside ⊢
  rw [← String.toList_ofList (l := front ++ [c])] at inside
  refine ⟨fun present => absurd (inside '\n' present) (by decide), ?_⟩
  rw [String.toList_ofList] at inside ⊢
  exact ⟨front, c, rfl, inside c (by simp)⟩

theorem render_bytes_neat {digits : List Char} (inked : ∀ c ∈ digits, isBlank c = false)
    {context : Context} (unit : isIndentUnit context.indentUnit = true) :
    Neat (renderBytes digits context).toList := by
  simp only [renderBytes]
  have solid := pairs_solid inked
  generalize (Table.pieces 2 digits).map String.ofList = pairs at solid
  split
  · apply breaks_behind_unbroken
    rw [← within_ne_iff]
    have mark (text : String) (plain : '\n' ∉ text.toList) : Within (· ≠ '\n') text :=
      within_ne_iff.mpr plain
    refine within_append (within_append (mark "[" (by decide))
      (within_intercalate (mark " " (by decide)) ?_)) (mark "]" (by decide))
    exact fun pair member => within_ne_iff.mpr (solid pair member).unbroken
  · have closing : '\n' ∉ (context.indentation ++ "]").toList := by
      rw [String.toList_append, List.mem_append, not_or]
      exact ⟨indentation_unbroken unit, by decide⟩
    refine breaks_behind_lines (by decide) ⟨[], '[', rfl, rfl⟩ ?_ closing
    intro line member
    obtain ⟨piece, piecewise, rfl⟩ := List.mem_map.mp member
    have deeper : isIndentUnit context.deeper.indentUnit = true := unit
    have filled := Table.ne_nil_of_mem_pieces (by decide) piecewise
    have joined : Solid (" ".intercalate piece) := solid_intercalate (by decide) filled
      fun pair present => solid pair (Table.mem_of_mem_pieces (by decide) piecewise present)
    have whole := solid_append (indentation_unbroken deeper) joined
    exact ⟨whole.unbroken, .inl whole.ends⟩

end DevicetreeFormat.Printer
