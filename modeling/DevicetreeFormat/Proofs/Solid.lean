import DevicetreeFormat.Proofs.NormalForms
import DevicetreeFormat.Proofs.Word

/-!
# Words that end in ink

What is printed at the end of a line is a word whose last character is no blank, so
that the line ends well. Such words come out of tokens, and the rules that print a
line join them to such words again.
-/

namespace DevicetreeFormat.Text

set_option autoImplicit false

def IsInk (c : Char) : Prop :=
  isBlank c = false

/-- A text whose last character is allowed. -/
def EndsIn (allowed : Char → Prop) (text : List Char) : Prop :=
  ∃ front c, text = front ++ [c] ∧ allowed c

/-- A text on one line that ends in ink. -/
structure Solid (text : String) : Prop where
  unbroken : '\n' ∉ text.toList
  ends : EndsIn IsInk text.toList

section

variable {allowed : Char → Prop} {text : List Char}

theorem not_ends_in_nil : ¬ EndsIn allowed [] := by
  rintro ⟨front, c, shape, _⟩
  simp at shape

theorem ends_in_concat_iff {c : Char} : EndsIn allowed (text ++ [c]) ↔ allowed c := by
  constructor
  · rintro ⟨front, last, same, holds⟩
    obtain ⟨rfl⟩ := List.append_inj_right' same rfl
    exact holds
  · exact fun holds => ⟨text, c, rfl, holds⟩

theorem ends_in_append (first : List Char) {second : List Char} (ends : EndsIn allowed second) :
    EndsIn allowed (first ++ second) := by
  obtain ⟨front, c, rfl, holds⟩ := ends
  exact ⟨first ++ front, c, (List.append_assoc _ _ _).symm, holds⟩

theorem ends_in_mono {weaker : Char → Prop} (weaken : ∀ c, allowed c → weaker c)
    (ends : EndsIn allowed text) : EndsIn weaker text := by
  obtain ⟨front, c, shape, holds⟩ := ends
  exact ⟨front, c, shape, weaken c holds⟩

end

theorem Solid.word {text : String} (solid : Solid text) : IsWord text := by
  refine ⟨?_, solid.unbroken⟩
  rintro rfl
  exact not_ends_in_nil solid.ends

theorem solid_append {first second : String} (unbroken : '\n' ∉ first.toList) (solid : Solid second) :
    Solid (first ++ second) := by
  rw [← within_ne_iff] at unbroken
  refine ⟨within_ne_iff.mp (within_append unbroken (within_ne_iff.mpr solid.unbroken)), ?_⟩
  rw [String.toList_append]
  exact ends_in_append _ solid.ends

theorem solid_strip {text : String} (line : OneLine text) : Solid (strip text) :=
  ⟨line.2, strip_last text line.1⟩

theorem Flush.ends {text : String} (flush : Flush text) (filled : text ≠ "") :
    EndsIn IsInk text.toList := by
  obtain ⟨front, c, shape⟩ := List.eq_nil_or_concat text.toList |>.resolve_left
    (toList_ne_nil filled)
  rw [List.concat_eq_append] at shape
  exact ⟨front, c, shape, flush.last c (by simp [shape])⟩

theorem solid_normal_comment {text : String} (line : OneLine text) : Solid (normalComment text) := by
  have word := is_word_normal_comment line
  exact ⟨word.2, (normal_comment_is_normal text).toFlush.ends word.1⟩

/-- A keyword ends as its text does, because only what follows the hash is dropped. -/
theorem directive_keyword_ends {text : String} (filled : strip text ≠ "") :
    EndsIn IsInk (directiveKeyword text).toList := by
  apply (directive_keyword_is_keyword text).toFlush.ends
  intro empty
  have blank := ink_directive_keyword text
  rw [empty, ink_empty] at blank
  exact filled ((ink_eq_nil_iff text).mp blank.symm)

theorem solid_directive_keyword {text : String} (line : OneLine text) : Solid (directiveKeyword text) :=
  ⟨(is_word_directive_keyword line).2, directive_keyword_ends line.1⟩

theorem solid_join {texts : List String} (filled : texts ≠ []) (solid : ∀ text ∈ texts, Solid text) :
    Solid (String.join texts) := by
  constructor
  · exact within_ne_iff.mp (within_join fun text member => within_ne_iff.mpr (solid text member).unbroken)
  · obtain ⟨front, last, rfl⟩ := List.eq_nil_or_concat texts |>.resolve_left filled
    rw [List.concat_eq_append, String.toList_join, List.flatMap_append, List.flatMap_singleton]
    exact ends_in_append _ (solid last (by simp)).ends

theorem intercalate_ends {allowed : Char → Prop} (separator : String) {texts : List String}
    (filled : texts ≠ []) (ends : ∀ text ∈ texts, EndsIn allowed text.toList) :
    EndsIn allowed (separator.intercalate texts).toList := by
  obtain ⟨front, last, rfl⟩ := List.eq_nil_or_concat texts |>.resolve_left filled
  rw [List.concat_eq_append]
  obtain ⟨lead, shape⟩ := intercalate_last separator front last
  rw [shape]
  exact ends_in_append _ (ends last (by simp))

theorem solid_intercalate {separator : String} (between : '\n' ∉ separator.toList)
    {texts : List String} (filled : texts ≠ []) (solid : ∀ text ∈ texts, Solid text) :
    Solid (separator.intercalate texts) := by
  constructor
  · exact within_ne_iff.mp (within_intercalate (within_ne_iff.mpr between)
      fun text member => within_ne_iff.mpr (solid text member).unbroken)
  · exact intercalate_ends separator filled fun text member => (solid text member).ends

end DevicetreeFormat.Text

namespace DevicetreeFormat.Printer

set_option autoImplicit false

open Text

/-- The operands of a directive are tokens, or two of them side by side. -/
theorem directive_operands_all {good : String → Prop}
    (joins : ∀ first second, good first → good second → good (first ++ second)) (kind : Kind)
    {cells : List Cell} (each : ∀ cell ∈ cells, cell.token ≠ "" → good cell.token) :
    ∀ operand ∈ directiveOperands kind cells, good operand := by
  have shown : ∀ token ∈ (cells.map Cell.token).filter (fun token => !token.isEmpty), good token := by
    intro token member
    obtain ⟨inside, filled⟩ := List.mem_filter.mp member
    obtain ⟨cell, present, rfl⟩ := List.mem_map.mp inside
    exact each cell present (by simpa using filled)
  unfold directiveOperands
  split
  · next name parameters rest shape =>
      rw [shape] at shown
      intro operand member
      rcases List.mem_cons.mp member with rfl | later
      · exact joins name parameters (shown name (by simp)) (shown parameters (by simp))
      · exact shown operand (by simp [later])
  · exact shown

theorem directive_operands_solid (kind : Kind) {cells : List Cell}
    (unbroken : ∀ cell ∈ cells, Unbroken cell.text) :
    ∀ operand ∈ directiveOperands kind cells, Solid operand :=
  directive_operands_all (fun _ _ left right => solid_append left.unbroken right) kind
    fun cell member filled => solid_strip ⟨filled, unbroken cell member⟩

end DevicetreeFormat.Printer
