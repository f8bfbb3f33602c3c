import DevicetreeFormat.Printer.Lines
import DevicetreeFormat.Proofs.Blank

/-!
# Texts on one line

A word is a text that is not empty and has no line break. The rules that print a
line make it from words, and the line is a word again.
-/

namespace DevicetreeFormat.Text

set_option autoImplicit false

/-- A text that is not empty and has no line break. -/
def IsWord (text : String) : Prop :=
  text ≠ "" ∧ '\n' ∉ text.toList

/-- A text with no line break but at its ends. -/
def Unbroken (text : String) : Prop :=
  '\n' ∉ (strip text).toList

/-- A text that is a word without the blanks around it. -/
def OneLine (text : String) : Prop :=
  IsWord (strip text)

instance : DecidablePred IsWord := fun _ => inferInstanceAs (Decidable (_ ∧ _))

instance : DecidablePred Unbroken := fun _ => inferInstanceAs (Decidable (_ ∉ _))

instance : DecidablePred OneLine := fun text => inferInstanceAs (Decidable (IsWord (strip text)))

theorem IsWord.filled {text : String} (word : IsWord text) : text.toList ≠ [] :=
  toList_ne_nil word.1

theorem is_word_append {first second : String} (word : IsWord first)
    (unbroken : '\n' ∉ second.toList) : IsWord (first ++ second) := by
  constructor
  · intro empty
    have nothing := congrArg String.toList empty
    rw [String.toList_append] at nothing
    exact word.filled (List.append_eq_nil_iff.mp nothing).1
  · rw [String.toList_append, List.mem_append, not_or]
    exact ⟨word.2, unbroken⟩

/-- A word with words and other unbroken texts after it, one space between two. -/
theorem is_word_intercalate {first : String} {rest : List String} (word : IsWord first)
    (unbroken : ∀ text ∈ rest, '\n' ∉ text.toList) : IsWord (" ".intercalate (first :: rest)) := by
  induction rest generalizing first with
  | nil => simpa using word
  | cons second later induction =>
      have joined : IsWord (first ++ " " ++ second) :=
        is_word_append (is_word_append word (by decide)) (unbroken second (by simp))
      have step := induction joined fun text member => unbroken text (by simp [member])
      have same : " ".intercalate (first :: second :: later) =
          " ".intercalate ((first ++ " " ++ second) :: later) := by
        cases later with
        | nil => simp [String.intercalate_cons_cons]
        | cons third others => simp [String.intercalate_cons_cons, String.append_assoc]
      rw [same]
      exact step

theorem mem_intercalate {separator : String} {texts : List String} {c : Char}
    (member : c ∈ (separator.intercalate texts).toList) :
    c ∈ separator.toList ∨ ∃ text ∈ texts, c ∈ text.toList := by
  induction texts with
  | nil => simp at member
  | cons first rest induction =>
      cases rest with
      | nil => exact .inr ⟨first, by simp, by simpa using member⟩
      | cons second later =>
          rw [String.intercalate_cons_cons, String.toList_append, String.toList_append,
            List.mem_append, List.mem_append] at member
          rcases member with (inside | between) | further
          · exact .inr ⟨first, by simp, inside⟩
          · exact .inl between
          · rcases induction further with between | ⟨text, present, inside⟩
            · exact .inl between
            · exact .inr ⟨text, by simp [List.mem_cons.mp present], inside⟩

theorem intercalate_last (separator : String) (lines : List String) (last : String) :
    ∃ front, (separator.intercalate (lines ++ [last])).toList = front ++ last.toList := by
  cases lines with
  | nil => exact ⟨[], by simp⟩
  | cons line rest =>
      rw [String.intercalate_append_of_ne_nil (by simp) (by simp), String.intercalate_singleton,
        String.toList_append]
      exact ⟨_, rfl⟩

theorem intercalate_first (separator first : String) (lines : List String) :
    ∃ rest, (separator.intercalate (first :: lines)).toList = first.toList ++ rest := by
  have split := String.intercalate_cons_append (s := separator) (t := first) (u := "") (l := lines)
  rw [String.append_empty] at split
  rw [split, String.toList_append]
  exact ⟨_, rfl⟩

theorem ends_with_parenthesis (text : String) :
    endsWith "(" text = decide (text.toList.getLast? = some '(') := by
  rw [endsWith, Bool.eq_iff_iff, List.isSuffixOf_iff_suffix, decide_eq_true_eq]
  constructor
  · rintro ⟨lead, same⟩
    rw [← same]
    exact List.getLast?_concat
  · intro last
    obtain ⟨lead, same⟩ := List.getLast?_eq_some_iff.mp last
    exact ⟨lead, same.symm⟩

theorem mem_of_mem_drop_back {inClass : Char → Bool} {characters : List Char} {c : Char}
    (member : c ∈ dropBack inClass characters) : c ∈ characters :=
  (drop_back_begins inClass characters).subset member

theorem mem_of_mem_strip {text : String} {c : Char} (member : c ∈ (strip text).toList) :
    c ∈ text.toList := by
  rw [strip, String.toList_ofList, dropEnds] at member
  exact (List.dropWhile_suffix isBlank).subset (mem_of_mem_drop_back member)

/-! ### Texts of one class of characters -/

/-- A text with characters of one class only. -/
def Within (allowed : Char → Prop) (text : String) : Prop :=
  ∀ c ∈ text.toList, allowed c

theorem within_ne_iff {c : Char} {text : String} : Within (· ≠ c) text ↔ c ∉ text.toList := by
  constructor
  · intro within member
    exact within c member rfl
  · intro none other member same
    exact none (same ▸ member)

section

variable {allowed : Char → Prop}

theorem within_empty : Within allowed "" := by
  intro c member
  simp at member

theorem within_append {first second : String} (left : Within allowed first)
    (right : Within allowed second) : Within allowed (first ++ second) := by
  intro c member
  rw [String.toList_append, List.mem_append] at member
  rcases member with early | late
  · exact left c early
  · exact right c late

theorem within_join {texts : List String} (each : ∀ text ∈ texts, Within allowed text) :
    Within allowed (String.join texts) := by
  intro c member
  rw [String.toList_join, List.mem_flatMap] at member
  obtain ⟨text, present, inside⟩ := member
  exact each text present c inside

theorem within_intercalate {separator : String} {texts : List String}
    (between : Within allowed separator) (each : ∀ text ∈ texts, Within allowed text) :
    Within allowed (separator.intercalate texts) := by
  intro c member
  rcases mem_intercalate member with separating | ⟨text, present, inside⟩
  · exact between c separating
  · exact each text present c inside

theorem within_strip {text : String} (whole : Within allowed text) : Within allowed (strip text) :=
  fun c member => whole c (mem_of_mem_strip member)

theorem within_strip_back {text : String} (whole : Within allowed text) :
    Within allowed (stripBack text) := by
  intro c member
  rw [stripBack, String.toList_ofList] at member
  exact whole c (mem_of_mem_drop_back member)

theorem within_pad_right {width : Nat} {text : String} (space : allowed ' ')
    (whole : Within allowed text) : Within allowed (padRight width text) := by
  apply within_append whole
  intro c member
  rw [String.toList_ofList, List.mem_replicate] at member
  rw [member.2]
  exact space

theorem within_normal_comment {text : String} (slash : allowed '/') (space : allowed ' ')
    (stripped : Within allowed (strip text)) : Within allowed (normalComment text) := by
  by_cases line : isLineComment (strip text) = true
  · obtain ⟨rest, shape⟩ := (is_line_comment_iff _).mp line
    rw [normal_comment_of_line shape]
    split
    · simpa [Within] using slash
    · have slashes : Within allowed "// " := by simp [Within, slash, space]
      apply within_append slashes (within_strip _)
      intro c member
      rw [String.toList_ofList] at member
      exact stripped c (by rw [shape]; simp [member])
  · rw [normal_comment_of_block (by simpa using line)]
    exact stripped

theorem within_directive_keyword {text : String} (stripped : Within allowed (strip text)) :
    Within allowed (directiveKeyword text) := by
  intro c member
  unfold directiveKeyword at member
  split at member
  · next rest shape =>
      apply stripped
      rw [String.toList_ofList, List.mem_cons] at member
      rw [shape, List.mem_cons]
      rcases member with hash | later
      · exact .inl hash
      · exact .inr ((List.dropWhile_suffix isBlank).subset later)
  · rw [String.ofList_toList] at member
    exact stripped c member

end

/-! ### Words from texts -/

theorem OneLine.inked {text : String} (line : OneLine text) : ink text ≠ [] := by
  intro blank
  exact line.1 ((ink_eq_nil_iff text).mp blank)

theorem is_word_of_ink {text : String} (inked : ink text ≠ []) (unbroken : '\n' ∉ text.toList) :
    IsWord text := by
  refine ⟨?_, unbroken⟩
  rintro rfl
  exact inked rfl

theorem is_word_normal_comment {text : String} (line : OneLine text) : IsWord (normalComment text) := by
  apply is_word_of_ink
  · rw [ink_normal_comment]
    exact line.inked
  · exact within_ne_iff.mp
      (within_normal_comment (by decide) (by decide) (within_ne_iff.mpr line.2))

theorem is_word_directive_keyword {text : String} (line : OneLine text) :
    IsWord (directiveKeyword text) := by
  apply is_word_of_ink
  · rw [ink_directive_keyword]
    exact line.inked
  · exact within_ne_iff.mp (within_directive_keyword (within_ne_iff.mpr line.2))

end DevicetreeFormat.Text

namespace DevicetreeFormat.Printer

set_option autoImplicit false

open Text

/-! ### Lines made from tokens -/

theorem mem_join_word {words : List String} {cell : Cell} {word : String}
    (member : word ∈ joinWord words cell) :
    word ∈ words ∨ word = cell.token ∨
      ∃ first ∈ words, word = first ++ ":" ∨ word = first ++ cell.token := by
  unfold joinWord at member
  split at member
  · exact .inr (.inl (List.mem_singleton.mp member))
  · next first older =>
      split at member
      · rcases List.mem_cons.mp member with joined | later
        · exact .inr (.inr ⟨first, by simp, .inl joined⟩)
        · exact .inl (by simp [later])
      · split at member
        · rcases List.mem_cons.mp member with joined | later
          · exact .inr (.inr ⟨first, by simp, .inr joined⟩)
          · exact .inl (by simp [later])
        · rcases List.mem_cons.mp member with alone | later
          · exact .inr (.inl alone)
          · exact .inl later

theorem is_word_join_word {words : List String} {cell : Cell} (each : ∀ word ∈ words, IsWord word)
    (line : OneLine cell.text) : ∀ word ∈ joinWord words cell, IsWord word := by
  intro word member
  rcases mem_join_word member with present | same | ⟨first, present, joined⟩
  · exact each word present
  · rw [same]
    exact line
  · rcases joined with same | same <;> rw [same]
    · exact is_word_append (each first present) (by decide)
    · exact is_word_append (each first present) line.2

theorem is_word_foldl_join_word {cells : List Cell} {words : List String}
    (each : ∀ word ∈ words, IsWord word) (lines : ∀ cell ∈ cells, OneLine cell.text) :
    ∀ word ∈ cells.foldl joinWord words, IsWord word := by
  induction cells generalizing words with
  | nil => exact each
  | cons cell rest induction =>
      exact induction (is_word_join_word each (lines cell (by simp)))
        fun other member => lines other (by simp [member])

theorem join_word_ne_nil (words : List String) (cell : Cell) : joinWord words cell ≠ [] := by
  unfold joinWord
  split
  · simp
  · split
    · simp
    · split <;> simp

theorem foldl_join_word_ne_nil {cells : List Cell} {words : List String}
    (filled : words ≠ [] ∨ cells ≠ []) : cells.foldl joinWord words ≠ [] := by
  induction cells generalizing words with
  | nil => simpa using filled
  | cons cell rest induction => exact induction (.inl (join_word_ne_nil words cell))

theorem is_word_statement {first : Cell} {rest : List Cell} (begins : first.kind ≠ .semicolon)
    (lines : ∀ cell ∈ first :: rest, OneLine cell.text) :
    IsWord (" ".intercalate (statementWords (first :: rest))) := by
  have words : ∀ word ∈ statementWords (first :: rest), IsWord word := by
    intro word member
    rw [statementWords, List.mem_reverse] at member
    refine is_word_foldl_join_word (by simp) ?_ word member
    intro cell inside
    have begins := List.takeWhile_prefix (l := first :: rest) fun cell => decide (cell.kind ≠ .semicolon)
    exact lines cell (begins.subset inside)
  have filled : statementWords (first :: rest) ≠ [] := by
    rw [statementWords, ne_eq, List.reverse_eq_nil_iff]
    apply foldl_join_word_ne_nil
    simp [begins]
  obtain ⟨word, others, shape⟩ := List.exists_cons_of_ne_nil filled
  rw [shape] at words ⊢
  exact is_word_intercalate (words word (by simp)) fun text member => (words text (by simp [member])).2

theorem exists_included_path {parts : List Part} (filled : parts ≠ []) :
    ∃ path ∈ parts, includedPath parts = some path := by
  cases found : includedPath parts with
  | none =>
      rw [includedPath, Option.or_eq_none_iff] at found
      exact absurd (List.getLast?_eq_none_iff.mp found.2) filled
  | some path =>
      refine ⟨path, ?_, rfl⟩
      rw [includedPath, Option.or_eq_some_iff] at found
      rcases found with named | ⟨_, last⟩
      · exact (List.mem_filter.mp (List.mem_of_mem_getLast? named)).1
      · exact List.mem_of_mem_getLast? last

theorem directive_operands_within {allowed : Char → Prop} (kind : Kind) {cells : List Cell}
    (tokens : ∀ cell ∈ cells, Within allowed cell.token) :
    ∀ operand ∈ directiveOperands kind cells, Within allowed operand := by
  have shown : ∀ token ∈ (cells.map Cell.token).filter (fun token => !token.isEmpty),
      Within allowed token := by
    intro token member
    obtain ⟨cell, inside, rfl⟩ := List.mem_map.mp (List.mem_filter.mp member).1
    exact tokens cell inside
  unfold directiveOperands
  split
  · next name parameters rest shape =>
      rw [shape] at shown
      intro operand member
      rcases List.mem_cons.mp member with rfl | later
      · exact within_append (shown name (by simp)) (shown parameters (by simp))
      · exact shown operand (by simp [later])
  · exact shown

end DevicetreeFormat.Printer
