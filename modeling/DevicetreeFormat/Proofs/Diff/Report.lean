import DevicetreeFormat.Diff.Hunk
import DevicetreeFormat.Proofs.Diff.Edits
import DevicetreeFormat.Proofs.Lines

/-!
# Reading a report

A report of changes is read here by its text alone, line by line: headings with their two
ranges, and lines with a mark in front. The reader knows nothing of how a report is made.
What it reads in the text of hunks are their places and lengths, and the lines of their
edits.
-/

namespace DevicetreeFormat.Diff

set_option autoImplicit false

/-- A range of lines: how many lines come before it, and how many it has. -/
structure LineRange where
  before : Nat
  length : Nat
deriving DecidableEq

def LineRange.stop (range : LineRange) : Nat :=
  range.before + range.length

/-- A hunk as a text states it: the ranges of its heading, and its lines with their marks. -/
structure StatedHunk where
  old : LineRange
  new : LineRange
  body : List (Char × String)
deriving DecidableEq

namespace StatedHunk

/-- The lines that a hunk states to be there before it. -/
def oldLines (hunk : StatedHunk) : List String :=
  (hunk.body.filter fun marked => marked.1 ≠ '+').map Prod.snd

/-- The lines that a hunk states to be there after it. -/
def newLines (hunk : StatedHunk) : List String :=
  (hunk.body.filter fun marked => marked.1 ≠ '-').map Prod.snd

end StatedHunk

/-! ### Numbers and ranges -/

def readNumber (digits : List Char) : Option Nat :=
  if digits ≠ [] && digits.all Char.isDigit then some (Nat.ofDigitChars 10 digits 0) else none

/-- The range that a first line and a length name. Lines count from one, and an empty
range is named by the line before it. -/
def namedRange (first length : Nat) : Option LineRange :=
  if length = 0 then some ⟨first, 0⟩
  else if first = 0 then none
  else some ⟨first - 1, length⟩

def readRange (text : List Char) : Option LineRange :=
  match text.splitOn ',' with
  | [first] => do
      let first ← readNumber first
      namedRange first 1
  | [first, length] => do
      let first ← readNumber first
      let length ← readNumber length
      namedRange first length
  | _ => none

theorem isDigit_of_mem_number {number : Nat} {c : Char} (member : c ∈ Nat.toDigits 10 number) :
    c.isDigit = true :=
  Nat.isDigit_of_mem_toDigits (by decide) (by decide) member

theorem not_mem_number {number : Nat} {c : Char} (other : c.isDigit = false) :
    c ∉ Nat.toDigits 10 number := by
  intro member
  rw [isDigit_of_mem_number member] at other
  cases other

theorem read_number_digits (number : Nat) : readNumber (Nat.toDigits 10 number) = some number := by
  have digits : (Nat.toDigits 10 number).all Char.isDigit = true :=
    List.all_eq_true.mpr fun _ => isDigit_of_mem_number
  rw [readNumber, digits, Nat.ofDigitChars_ten_toDigits]
  simp [Nat.toDigits_ne_nil]

theorem splitOn_digits (number : Nat) :
    (Nat.toDigits 10 number).splitOn ',' = [Nat.toDigits 10 number] :=
  List.splitOn_eq_singleton (not_mem_number rfl)

/-- How a range is written: one number, or two with a comma between them. -/
theorem toList_range_text (before length : Nat) :
    (rangeText before length).toList =
      if length = 1 then Nat.toDigits 10 (before + 1)
      else Nat.toDigits 10 (if length = 0 then before else before + 1) ++
        ',' :: Nat.toDigits 10 length := by
  have written : rangeText before length =
      if length = 1 then toString (before + 1)
      else if length = 0 then toString before ++ "," ++ "0"
      else toString (before + 1) ++ "," ++ toString length := by
    rw [rangeText]
    split
    · rfl
    · split
      · rw [String.append_assoc]
        rfl
      · rfl
  rw [written]
  by_cases single : length = 1
  · simp [single]
  · by_cases empty : length = 0
    · simp [empty]
    · simp [single, empty]

theorem read_range_range_text (before length : Nat) :
    readRange (rangeText before length).toList = some ⟨before, length⟩ := by
  rw [readRange, toList_range_text]
  by_cases single : length = 1
  · subst single
    rw [if_pos rfl, splitOn_digits]
    simp [read_number_digits, namedRange]
  · rw [if_neg single, List.splitOn_append_cons_self_of_not_mem (not_mem_number rfl), splitOn_digits]
    by_cases empty : length = 0
    · simp only [empty, if_true, read_number_digits]
      rfl
    · simp [read_number_digits, namedRange, empty]

theorem range_text_plain {before length : Nat} {c : Char} (other : c.isDigit = false)
    (noComma : c ≠ ',') : c ∉ (rangeText before length).toList := by
  rw [toList_range_text]
  split
  · exact not_mem_number other
  · simp [not_mem_number other, noComma]

/-! ### Headings -/

def readHeading (line : List Char) : Option (LineRange × LineRange) :=
  match line.splitOn ' ' with
  | [['@', '@'], '-' :: old, '+' :: new, ['@', '@', '\n']] => do
      let old ← readRange old
      let new ← readRange new
      return (old, new)
  | _ => none

/-- The words of a heading. -/
def headingWords (hunk : Hunk) : List (List Char) :=
  [['@', '@'], '-' :: (rangeText hunk.old hunk.oldLength).toList,
    '+' :: (rangeText hunk.new hunk.newLength).toList, ['@', '@', '\n']]

theorem heading_eq (hunk : Hunk) :
    hunk.heading = "@@ -" ++ rangeText hunk.old hunk.oldLength ++ " +" ++
      rangeText hunk.new hunk.newLength ++ " @@" ++ "\n" := by
  rw [String.append_assoc]
  rfl

theorem toList_heading (hunk : Hunk) :
    hunk.heading.toList = [' '].intercalate (headingWords hunk) := by
  simp [heading_eq, headingWords, List.intercalate]

theorem read_heading_heading (hunk : Hunk) :
    readHeading hunk.heading.toList =
      some (⟨hunk.old, hunk.oldLength⟩, ⟨hunk.new, hunk.newLength⟩) := by
  have apart : ∀ word ∈ headingWords hunk, ' ' ∉ word := by
    have plain : ∀ before length, ' ' ∉ (rangeText before length).toList :=
      fun _ _ => range_text_plain rfl (by decide)
    simp [headingWords, plain]
  rw [readHeading, toList_heading, List.splitOn_intercalate ' ' apart (by simp [headingWords]),
    headingWords]
  simp [read_range_range_text]

/-- Only a line that begins with an at sign is a heading. -/
theorem read_heading_eq_none {mark : Char} (other : mark ≠ '@') (rest : List Char) :
    readHeading (mark :: rest) = none := by
  unfold readHeading
  split
  · next old new words =>
      have whole : [' '].intercalate ((mark :: rest).splitOn ' ') = mark :: rest :=
        List.intercalate_splitOn ' '
      rw [words, List.intercalate] at whole
      exact absurd (List.cons.inj whole).1.symm other
  · rfl

theorem is_line_heading (hunk : Hunk) : Text.IsLine hunk.heading := by
  have plain : ∀ before length, '\n' ∉ (rangeText before length).toList :=
    fun _ _ => range_text_plain rfl (by decide)
  refine ⟨_, heading_eq hunk, ?_⟩
  simp [plain]

/-! ### Hunks -/

/-- A line of a hunk: a blank before a line that stays, a minus before a line that goes
and a plus before a line that comes. -/
def readMarked : List Char → Option (Char × String)
  | [] => none
  | mark :: line =>
      if mark = ' ' || mark = '-' || mark = '+' then some (mark, String.ofList line) else none

/-- The lines of the open hunk, and the hunks behind it. -/
def readLines : List String → Option (List (Char × String) × List StatedHunk)
  | [] => some ([], [])
  | line :: rest => do
      let (body, hunks) ← readLines rest
      match readHeading line.toList with
      | some (old, new) => return ([], ⟨old, new, body⟩ :: hunks)
      | none =>
          let marked ← readMarked line.toList
          return (marked :: body, hunks)

/-- The hunks of a text. No line may stand before the first heading. -/
def readHunks (text : String) : Option (List StatedHunk) :=
  match readLines (Text.feedLines text) with
  | some ([], hunks) => some hunks
  | _ => none

def Edit.marked : Edit → List (Char × String)
  | .keep lines => lines.map (' ', ·)
  | .change old new => old.map ('-', ·) ++ new.map ('+', ·)

/-- What the text of a hunk states. -/
def Hunk.stated (hunk : Hunk) : StatedHunk :=
  ⟨⟨hunk.old, hunk.oldLength⟩, ⟨hunk.new, hunk.newLength⟩, hunk.edits.flatMap Edit.marked⟩

/-- A line with its mark in front. -/
def markedLine (marked : Char × String) : String :=
  String.ofList [marked.1] ++ marked.2

theorem report_lines_eq (edit : Edit) : edit.reportLines = edit.marked.map markedLine := by
  cases edit with
  | keep lines => simp [Edit.reportLines, Edit.marked, markedLine, Function.comp_def]
  | change old new => simp [Edit.reportLines, Edit.marked, markedLine, Function.comp_def]

theorem mem_marked {edits : List Edit} {marked : Char × String}
    (member : marked ∈ edits.flatMap Edit.marked) :
    (marked.1 = ' ' ∨ marked.1 = '-' ∨ marked.1 = '+') ∧
      (marked.2 ∈ oldLines edits ∨ marked.2 ∈ newLines edits) := by
  obtain ⟨edit, present, inside⟩ := List.mem_flatMap.mp member
  have old : ∀ line ∈ edit.old, line ∈ oldLines edits := fun line listed =>
    List.mem_flatMap.mpr ⟨edit, present, listed⟩
  have new : ∀ line ∈ edit.new, line ∈ newLines edits := fun line listed =>
    List.mem_flatMap.mpr ⟨edit, present, listed⟩
  cases edit with
  | keep lines =>
      obtain ⟨line, listed, rfl⟩ := List.mem_map.mp inside
      exact ⟨.inl rfl, .inl (old line listed)⟩
  | change before after =>
      rcases List.mem_append.mp inside with goes | comes
      · obtain ⟨line, listed, rfl⟩ := List.mem_map.mp goes
        exact ⟨.inr (.inl rfl), .inl (old line listed)⟩
      · obtain ⟨line, listed, rfl⟩ := List.mem_map.mp comes
        exact ⟨.inr (.inr rfl), .inr (new line listed)⟩

/-- Leaving out one mark leaves lines of one mark as they are or drops them all. -/
theorem lines_without (other mark : Char) (lines : List String) :
    ((lines.map fun line => (mark, line)).filter fun marked => marked.1 ≠ other).map Prod.snd =
      if mark = other then [] else lines := by
  rw [List.filter_map, List.map_map]
  by_cases same : mark = other
  · simp [same, Function.comp_def]
  · simp [same, Function.comp_def]

theorem marked_without (other : Char) (edit : Edit) :
    (edit.marked.filter fun marked => marked.1 ≠ other).map Prod.snd =
      match edit with
      | .keep lines => if ' ' = other then [] else lines
      | .change before after =>
          (if '-' = other then [] else before) ++ if '+' = other then [] else after := by
  cases edit with
  | keep lines => exact lines_without other ' ' lines
  | change before after =>
      rw [Edit.marked, List.filter_append, List.map_append, lines_without, lines_without]

theorem stated_old_lines (hunk : Hunk) : hunk.stated.oldLines = oldLines hunk.edits := by
  rw [StatedHunk.oldLines, Hunk.stated, List.filter_flatMap, List.map_flatMap]
  apply congrArg (List.flatMap · hunk.edits)
  funext edit
  rw [marked_without]
  cases edit with
  | keep lines => rfl
  | change before after => exact List.append_nil before

theorem stated_new_lines (hunk : Hunk) : hunk.stated.newLines = newLines hunk.edits := by
  rw [StatedHunk.newLines, Hunk.stated, List.filter_flatMap, List.map_flatMap]
  apply congrArg (List.flatMap · hunk.edits)
  funext edit
  rw [marked_without]
  cases edit with
  | keep lines => rfl
  | change before after => rfl

/-! ### What is read back -/

theorem toList_marked_line (marked : Char × String) :
    (markedLine marked).toList = marked.1 :: marked.2.toList := by
  simp [markedLine]

theorem read_lines_marked (body : List (Char × String))
    (marks : ∀ marked ∈ body, marked.1 = ' ' ∨ marked.1 = '-' ∨ marked.1 = '+')
    {lines : List String} {behind : List (Char × String)} {hunks : List StatedHunk}
    (read : readLines lines = some (behind, hunks)) :
    readLines (body.map markedLine ++ lines) = some (body ++ behind, hunks) := by
  induction body with
  | nil => exact read
  | cons marked rest induction =>
      have mark := marks marked List.mem_cons_self
      have plain : readHeading (markedLine marked).toList = none := by
        rw [toList_marked_line]
        apply read_heading_eq_none
        rcases mark with blank | minus | plus
        · simp [blank]
        · simp [minus]
        · simp [plus]
      have line : readMarked (markedLine marked).toList = some marked := by
        rw [toList_marked_line, readMarked, if_pos (by simpa [or_assoc] using mark),
          String.ofList_toList]
      rw [List.map_cons, List.cons_append, readLines,
        induction fun other member => marks other (List.mem_cons_of_mem _ member)]
      simp [plain, line]

theorem lines_eq (hunk : Hunk) :
    hunk.lines = hunk.heading :: (hunk.edits.flatMap Edit.marked).map markedLine := by
  rw [Hunk.lines, List.map_flatMap]
  exact congrArg (fun report => hunk.heading :: hunk.edits.flatMap report) (funext report_lines_eq)

theorem read_lines_hunks (found : List Hunk) :
    readLines (found.flatMap Hunk.lines) = some ([], found.map Hunk.stated) := by
  induction found with
  | nil => rfl
  | cons hunk rest induction =>
      have body := read_lines_marked (hunk.edits.flatMap Edit.marked)
        (fun _ member => (mem_marked member).1) induction
      rw [List.flatMap_cons, lines_eq, List.cons_append, readLines, body]
      simp [read_heading_heading, Hunk.stated]

theorem is_line_of_mem_lines {hunk : Hunk} (old : ∀ line ∈ oldLines hunk.edits, Text.IsLine line)
    (new : ∀ line ∈ newLines hunk.edits, Text.IsLine line) :
    ∀ line ∈ hunk.lines, Text.IsLine line := by
  intro line member
  rw [lines_eq] at member
  rcases List.mem_cons.mp member with rfl | inside
  · exact is_line_heading hunk
  · obtain ⟨marked, listed, rfl⟩ := List.mem_map.mp inside
    obtain ⟨mark, source⟩ := mem_marked listed
    apply Text.is_line_append
    · rcases mark with blank | minus | plus
      · simp [blank]
      · simp [minus]
      · simp [plus]
    · exact source.elim (old _) (new _)

/-- The text of hunks states these hunks and no others. -/
theorem read_hunks_lines {found : List Hunk}
    (full : ∀ line ∈ found.flatMap Hunk.lines, Text.IsLine line) :
    readHunks (String.join (found.flatMap Hunk.lines)) = some (found.map Hunk.stated) := by
  rw [readHunks, Text.feed_lines_join full, read_lines_hunks]

example : readHunks "@@ -2 +1,0 @@\n-a\n" = some [⟨⟨1, 1⟩, ⟨1, 0⟩, [('-', "a\n")]⟩] := by decide

end DevicetreeFormat.Diff
