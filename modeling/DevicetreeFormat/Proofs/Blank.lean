import DevicetreeFormat.Cell
import DevicetreeFormat.Context
import DevicetreeFormat.Settings.Basic

/-!
# The ink of a text

The ink of a text is what remains of it without its blanks. Stripping, padding,
indenting and joining with blanks leave the ink as it is, and so do the normal
forms of comments and directive keywords. The second half of the module is about
the ends of a stripped text, where no blank stands.
-/

namespace DevicetreeFormat.Text

set_option autoImplicit false

/-- The characters of a text that are not blank. -/
def ink (text : String) : List Char :=
  text.toList.filter fun c => !isBlank c

theorem without_blanks_eq (text : String) : withoutBlanks text = String.ofList (ink text) := rfl

@[simp] theorem ink_empty : ink "" = [] := rfl

@[simp] theorem ink_append (first second : String) :
    ink (first ++ second) = ink first ++ ink second := by
  simp [ink]

theorem ink_ofList (characters : List Char) :
    ink (String.ofList characters) = characters.filter fun c => !isBlank c := by
  simp [ink]

theorem ink_join (texts : List String) : ink (String.join texts) = texts.flatMap ink := by
  rw [ink, String.toList_join, List.filter_flatMap]
  rfl

theorem ink_intercalate {separator : String} (blank : ink separator = []) (texts : List String) :
    ink (separator.intercalate texts) = texts.flatMap ink := by
  induction texts with
  | nil => simp
  | cons text rest induction =>
      cases rest with
      | nil => simp
      | cons next later =>
          rw [String.intercalate_cons_cons, ink_append, ink_append, induction, blank]
          simp

theorem filter_dropWhile_not (inClass : Char → Bool) (characters : List Char) :
    (characters.dropWhile inClass).filter (fun c => !inClass c) =
      characters.filter fun c => !inClass c := by
  induction characters with
  | nil => rfl
  | cons c rest induction =>
      by_cases member : inClass c = true
      · simp [member, induction]
      · simp [member]

theorem filter_drop_back (inClass : Char → Bool) (characters : List Char) :
    (dropBack inClass characters).filter (fun c => !inClass c) =
      characters.filter fun c => !inClass c := by
  rw [dropBack, List.filter_reverse, filter_dropWhile_not, List.filter_reverse,
    List.reverse_reverse]

@[simp] theorem ink_strip (text : String) : ink (strip text) = ink text := by
  rw [strip, ink_ofList, dropEnds, filter_drop_back]
  exact filter_dropWhile_not isBlank text.toList

@[simp] theorem ink_strip_back (text : String) : ink (stripBack text) = ink text := by
  rw [stripBack, ink_ofList, filter_drop_back]
  rfl

@[simp] theorem ink_pad_right (width : Nat) (text : String) : ink (padRight width text) = ink text := by
  rw [padRight, ink_append, ink_ofList, List.filter_replicate]
  simp [show isBlank ' ' = true from rfl]

theorem ink_times {unit : String} (blank : ink unit = []) (count : Nat) :
    ink (times count unit) = [] := by
  rw [times, ink_join, List.flatMap_eq_nil_iff]
  intro text member
  rw [(List.mem_replicate.mp member).2, blank]

theorem ink_indentation {context : Context} (blank : ink context.indentUnit = []) :
    ink context.indentation = [] :=
  ink_times blank context.depth.toNat

theorem ink_indent_unit {text : String} (unit : isIndentUnit text = true) : ink text = [] := by
  simp only [isIndentUnit, Bool.and_eq_true, List.all_eq_true, Bool.or_eq_true, beq_iff_eq] at unit
  rw [ink, List.filter_eq_nil_iff]
  intro c member
  rcases unit.2 c member with space | tab
  · simp [space, show isBlank ' ' = true from rfl]
  · simp [tab, show isBlank '\t' = true from rfl]

theorem mem_unit_of_mem_times {count : Nat} {unit : String} {c : Char}
    (member : c ∈ (times count unit).toList) : c ∈ unit.toList := by
  rw [times, String.toList_join, List.mem_flatMap] at member
  obtain ⟨text, copied, inside⟩ := member
  rw [(List.mem_replicate.mp copied).2] at inside
  exact inside

theorem indent_unit_char {unit : String} (valid : isIndentUnit unit = true) {c : Char}
    (member : c ∈ unit.toList) : c = ' ' ∨ c = '\t' := by
  simp only [isIndentUnit, Bool.and_eq_true, List.all_eq_true, Bool.or_eq_true, beq_iff_eq] at valid
  exact valid.2 c member

theorem indentation_unbroken {context : Context} (unit : isIndentUnit context.indentUnit = true) :
    '\n' ∉ context.indentation.toList := by
  intro member
  rcases indent_unit_char unit (mem_unit_of_mem_times member) with space | tab
  · exact absurd space (by decide)
  · exact absurd tab (by decide)

theorem toList_ne_nil {text : String} (filled : text ≠ "") : text.toList ≠ [] := by
  intro empty
  exact filled (by rw [← String.ofList_toList (s := text), empty])

/-! ### The ends of a stripped text -/

theorem drop_front_head {inClass : Char → Bool} {characters rest : List Char} {c : Char}
    (shape : dropFront inClass characters = c :: rest) : inClass c = false := by
  have head := List.head?_dropWhile_not inClass characters
  rw [dropFront] at shape
  rw [shape] at head
  simpa using head

theorem drop_back_last {inClass : Char → Bool} {characters rest : List Char} {c : Char}
    (shape : dropBack inClass characters = rest ++ [c]) : inClass c = false := by
  have reversed : dropFront inClass characters.reverse = c :: rest.reverse := by
    have flipped := congrArg List.reverse shape
    simpa [dropBack, dropFront] using flipped
  exact drop_front_head reversed

theorem strip_last (text : String) (filled : strip text ≠ "") :
    ∃ front c, (strip text).toList = front ++ [c] ∧ isBlank c = false := by
  obtain ⟨front, c, shape⟩ := List.eq_nil_or_concat (strip text).toList |>.resolve_left
    (toList_ne_nil filled)
  rw [List.concat_eq_append] at shape
  have dropped : dropBack isBlank (dropFront isBlank text.toList) = front ++ [c] := by
    simpa [strip, dropEnds] using shape
  exact ⟨front, c, shape, drop_back_last dropped⟩

/-- Dropping from the back keeps the front unless nothing is left. -/
theorem drop_back_begins (inClass : Char → Bool) (characters : List Char) :
    dropBack inClass characters <+: characters := by
  have tail : characters.reverse.dropWhile inClass <:+ characters.reverse :=
    List.dropWhile_suffix inClass
  simpa [dropBack] using List.reverse_prefix.mpr tail

/-- What is dropped from the back is of the class. -/
theorem exists_drop_back (inClass : Char → Bool) (characters : List Char) :
    ∃ trail, characters = dropBack inClass characters ++ trail ∧ ∀ c ∈ trail, inClass c = true := by
  have split := congrArg List.reverse
    (List.takeWhile_append_dropWhile (p := inClass) (l := characters.reverse))
  rw [List.reverse_append, List.reverse_reverse] at split
  refine ⟨(characters.reverse.takeWhile inClass).reverse, split.symm, ?_⟩
  intro c member
  exact List.all_eq_true.mp List.all_takeWhile c (List.mem_reverse.mp member)

theorem strip_first (text : String) (filled : strip text ≠ "") :
    ∃ c rest, (strip text).toList = c :: rest ∧ isBlank c = false := by
  obtain ⟨c, rest, shape⟩ := List.exists_cons_of_ne_nil (toList_ne_nil filled)
  have dropped : dropBack isBlank (dropFront isBlank text.toList) = c :: rest := by
    simpa [strip, dropEnds] using shape
  obtain ⟨later, front⟩ := drop_back_begins isBlank (dropFront isBlank text.toList)
  rw [dropped] at front
  exact ⟨c, rest, shape, drop_front_head front.symm⟩

theorem ink_eq_nil_iff (text : String) : ink text = [] ↔ strip text = "" := by
  constructor
  · intro blank
    apply Classical.byContradiction
    intro filled
    obtain ⟨c, rest, shape, inked⟩ := strip_first text filled
    rw [← ink_strip, ink, shape, List.filter_cons_of_pos (by simp [inked])] at blank
    exact List.cons_ne_nil _ _ blank
  · intro empty
    rw [← ink_strip, empty]
    rfl

theorem drop_front_eq_self {inClass : Char → Bool} {characters : List Char}
    (outside : ∀ c ∈ characters.head?, inClass c = false) : dropFront inClass characters = characters := by
  cases characters with
  | nil => rfl
  | cons c rest => rw [dropFront, List.dropWhile_cons_of_neg (by simp [outside c (by simp)])]

/-- A text with ink at both ends has nothing to strip. -/
theorem strip_eq_self {text : String} (first : ∀ c ∈ text.toList.head?, isBlank c = false)
    (last : ∀ c ∈ text.toList.getLast?, isBlank c = false) : strip text = text := by
  have back : dropBack isBlank text.toList = text.toList := by
    have reversed : dropFront isBlank text.toList.reverse = text.toList.reverse :=
      drop_front_eq_self (by simpa using last)
    rw [dropBack, ← dropFront, reversed, List.reverse_reverse]
  rw [strip, dropEnds, drop_front_eq_self first, back, String.ofList_toList]

theorem strip_of_plain {text : String} (plain : ∀ c ∈ text.toList, isBlank c = false) :
    strip text = text :=
  strip_eq_self (fun c head => plain c (List.mem_of_mem_head? head))
    fun c last => plain c (List.mem_of_mem_getLast? last)

theorem strip_cons_blank {c : Char} (blank : isBlank c = true) (rest : List Char) :
    strip (String.ofList (c :: rest)) = strip (String.ofList rest) := by
  rw [strip, strip, String.toList_ofList, String.toList_ofList, dropEnds, dropFront,
    List.dropWhile_cons_of_pos blank]
  rfl

end DevicetreeFormat.Text

namespace DevicetreeFormat

open Text

/-! ### Normal forms of comments and keywords -/

theorem is_line_comment_iff (text : String) :
    isLineComment text = true ↔ ∃ rest, text.toList = '/' :: '/' :: rest := by
  rw [isLineComment, beginsWith, List.isPrefixOf_iff_prefix]
  constructor
  · rintro ⟨rest, shape⟩
    exact ⟨rest, shape.symm⟩
  · rintro ⟨rest, shape⟩
    exact ⟨rest, shape.symm⟩

/-- The normal form of a line comment keeps the slashes and strips the body. -/
theorem normal_comment_of_line {text : String} {rest : List Char}
    (shape : (strip text).toList = '/' :: '/' :: rest) :
    normalComment text =
      if strip (String.ofList rest) = "" then "//" else "// " ++ strip (String.ofList rest) := by
  have line : isLineComment (strip text) = true := (is_line_comment_iff _).mpr ⟨rest, shape⟩
  simp only [normalComment, line, if_true, shape, List.drop_succ_cons, List.drop_zero,
    String.isEmpty_iff]

theorem normal_comment_of_block {text : String} (block : isLineComment (strip text) = false) :
    normalComment text = strip text := by
  simp only [normalComment, block, Bool.false_eq_true, if_false]

theorem ink_normal_comment (text : String) : ink (normalComment text) = ink text := by
  by_cases line : isLineComment (strip text) = true
  · obtain ⟨rest, shape⟩ := (is_line_comment_iff _).mp line
    have whole : ink text = '/' :: '/' :: ink (String.ofList rest) := by
      rw [← ink_strip, ink, shape, ink_ofList]
      rfl
    rw [normal_comment_of_line shape, whole]
    by_cases empty : strip (String.ofList rest) = ""
    · rw [if_pos empty, (ink_eq_nil_iff _).mpr empty]
      rfl
    · rw [if_neg empty, ink_append, ink_strip]
      rfl
  · rw [normal_comment_of_block (by simpa using line), ink_strip]

theorem ink_directive_keyword (text : String) : ink (directiveKeyword text) = ink text := by
  rw [← ink_strip text]
  unfold directiveKeyword
  split
  · next rest shape =>
      rw [ink, ink, shape, String.toList_ofList]
      simp only [List.filter_cons, dropFront]
      rw [filter_dropWhile_not]
  · rw [String.ofList_toList]

end DevicetreeFormat
