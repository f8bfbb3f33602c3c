import DevicetreeFormat.Proofs.Table
import Mathlib.Data.List.TakeWhile

/-!
# The words of a binding table

The words of a text are what stands between its blanks. Every cell of a row but
the last is padded beyond its column, so a blank stands between two cells and the
words of a row are the words of its cells in order. Nothing is said here about
which binding a cell holds.
-/

namespace DevicetreeFormat.Text

set_option autoImplicit false

/-- The longest runs of characters without a blank. -/
def wordsIn (characters : List Char) : List String :=
  ((characters.splitOnP isBlank).filter fun word => !word.isEmpty).map String.ofList

def words (text : String) : List String :=
  wordsIn text.toList

/-- A blank ends the words before it. -/
theorem words_in_break {c : Char} (blank : isBlank c = true) (front back : List Char) :
    wordsIn (front ++ c :: back) = wordsIn front ++ wordsIn back := by
  rw [wordsIn, List.splitOnP_append_cons front back blank, List.filter_append, List.map_append]
  rfl

theorem words_in_between {gap : List Char} (blank : ∀ c ∈ gap, isBlank c = true) (filled : gap ≠ [])
    (front back : List Char) : wordsIn (front ++ gap ++ back) = wordsIn front ++ wordsIn back := by
  induction gap generalizing front with
  | nil => exact absurd rfl filled
  | cons c gap induction =>
      rw [List.append_assoc, List.cons_append, words_in_break (blank c (by simp))]
      have later : ∀ other ∈ gap, isBlank other = true := fun other member => blank other (by simp [member])
      cases gap with
      | nil => rfl
      | cons next gap =>
          have skipped := induction later (by simp) []
          rw [List.nil_append] at skipped
          rw [skipped]
          rfl

theorem words_in_behind {gap : List Char} (blank : ∀ c ∈ gap, isBlank c = true) (back : List Char) :
    wordsIn (gap ++ back) = wordsIn back := by
  by_cases filled : gap = []
  · rw [filled, List.nil_append]
  · exact words_in_between blank filled [] back

theorem words_in_before {gap : List Char} (blank : ∀ c ∈ gap, isBlank c = true) (front : List Char) :
    wordsIn (front ++ gap) = wordsIn front := by
  by_cases filled : gap = []
  · rw [filled, List.append_nil]
  · have ended := words_in_between blank filled front []
    rw [List.append_nil] at ended
    rw [ended]
    exact List.append_nil _

theorem words_in_drop_back (characters : List Char) :
    wordsIn (dropBack isBlank characters) = wordsIn characters := by
  obtain ⟨trail, split, faded⟩ := exists_drop_back isBlank characters
  conv_rhs => rw [split]
  rw [words_in_before faded]

@[simp] theorem words_empty : words "" = [] := rfl

theorem words_strip_back (text : String) : words (stripBack text) = words text := by
  rw [words, stripBack, String.toList_ofList, words_in_drop_back, words]

/-- Text behind a cell that is padded beyond its length begins a new word. -/
theorem words_pad_right_append {width : Nat} {cell : String} (room : cell.toList.length < width)
    (rest : String) : words (padRight width cell ++ rest) = words cell ++ words rest := by
  have blank : ∀ c ∈ List.replicate (width - cell.toList.length) ' ', isBlank c = true := by
    intro c member
    rw [(List.mem_replicate.mp member).2]
    rfl
  have filled : List.replicate (width - cell.toList.length) ' ' ≠ [] := by
    rw [ne_eq, List.replicate_eq_nil_iff]
    omega
  rw [words, padRight, String.toList_append, String.toList_append, String.toList_ofList,
    words_in_between blank filled]
  rfl

theorem words_intercalate (texts : List String) :
    words (" ".intercalate texts) = texts.flatMap words := by
  induction texts with
  | nil => rfl
  | cons text rest induction =>
      cases rest with
      | nil => simp
      | cons next later =>
          have spaced : words (text ++ " " ++ " ".intercalate (next :: later)) =
              words text ++ words (" ".intercalate (next :: later)) := by
            rw [words, String.toList_append, String.toList_append, List.append_assoc]
            exact words_in_break (c := ' ') rfl _ _
          rw [String.intercalate_cons_cons, spaced, induction]
          rfl

/-- A text without blanks is a single word. -/
theorem words_of_plain {text : String} (filled : text ≠ "")
    (plain : ∀ c ∈ text.toList, isBlank c = false) : words text = [text] := by
  have kept : [text.toList].filter (fun word => !word.isEmpty) = [text.toList] := by
    simpa using filled
  rw [words, wordsIn, List.splitOnP_eq_singleton plain, kept, List.map_singleton, String.ofList_toList]

end DevicetreeFormat.Text

namespace DevicetreeFormat.Table

set_option autoImplicit false

open Text

/-- Each cell is no longer than its column is wide. -/
def Fits : List String → List Nat → Prop
  | [], _ => True
  | _ :: _, [] => False
  | cell :: cells, width :: columns => cell.toList.length ≤ width ∧ Fits cells columns

theorem fits_of_getElem? {cells : List String} {columns : List Nat}
    (each : ∀ (index : Nat) (cell : String), cells[index]? = some cell →
      ∃ width, columns[index]? = some width ∧ cell.toList.length ≤ width) : Fits cells columns := by
  induction cells generalizing columns with
  | nil => trivial
  | cons cell cells induction =>
      obtain ⟨width, found, bounded⟩ := each 0 cell rfl
      cases columns with
      | nil => cases found
      | cons first columns =>
          cases found
          exact ⟨bounded, induction fun index => each (index + 1)⟩

theorem le_widest {cells : List String} {cell : String} (member : cell ∈ cells) :
    cell.toList.length ≤ widest cells :=
  List.le_max?_getD_of_mem (List.mem_map.mpr ⟨cell, member, rfl⟩)

/-- The rows of a grid fit the columns measured from it. -/
theorem row_fits {grid row : List String} {rowSize : Nat} (sized : 0 < rowSize)
    (member : row ∈ pieces rowSize grid) : Fits row (widths grid rowSize) := by
  apply fits_of_getElem?
  intro index cell found
  have inside : index < rowSize :=
    Nat.lt_of_lt_of_le (List.getElem?_eq_some_iff.mp found).1 (length_of_mem_pieces sized member)
  refine ⟨widest (column grid rowSize index), ?_, ?_⟩
  · rw [widths, List.getElem?_map, List.getElem?_range inside]
    rfl
  · apply le_widest
    exact List.mem_filterMap.mpr ⟨row, member, found⟩

theorem fits_dropLast {row : List String} {columns : List Nat} (fits : Fits row columns) :
    Fits row.dropLast columns := by
  induction row generalizing columns with
  | nil => trivial
  | cons cell row induction =>
      cases columns with
      | nil => exact fits.elim
      | cons width columns =>
          cases row with
          | nil => trivial
          | cons next row => exact ⟨fits.1, induction fits.2⟩

theorem padded_cells_words {cells : List String} {columns : List Nat} (fits : Fits cells columns)
    (rest : String) :
    words (String.join (List.zipWith paddedCell cells columns) ++ rest) =
      cells.flatMap words ++ words rest := by
  induction cells generalizing columns with
  | nil => simp
  | cons cell cells induction =>
      cases columns with
      | nil => exact fits.elim
      | cons width columns =>
          have room : cell.toList.length < width + columnGap := by
            have bounded := fits.1
            simp only [columnGap]
            omega
          rw [List.zipWith_cons_cons, String.join_cons, String.append_assoc, paddedCell,
            words_pad_right_append room, induction fits.2, List.flatMap_cons, List.append_assoc]

theorem row_text_words {columns : List Nat} {indentation : String}
    (blank : ∀ c ∈ indentation.toList, isBlank c = true) {row : List String}
    (fits : Fits row columns) : words (rowText columns indentation row) = row.flatMap words := by
  rw [rowText, words_strip_back, String.append_assoc, words, String.toList_append,
    words_in_behind blank]
  refine (padded_cells_words (fits_dropLast fits) _).trans ?_
  rcases List.eq_nil_or_concat row with rfl | ⟨front, last, rfl⟩
  · rfl
  · simp

end DevicetreeFormat.Table
