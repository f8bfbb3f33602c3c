import DevicetreeFormat.Text.Blank
import DevicetreeFormat.Text.Lines

/-!
# The lines of a text

Splitting a text at its line feeds loses nothing. In a text that is empty or ends in a
line feed, and in which no other character ends a line, the lines that are compared are
those between the line feeds, each with its own.
-/

namespace DevicetreeFormat.Text

set_option autoImplicit false

/-! ### Pieces between line feeds -/

theorem unbroken_of_mem_splitOn {text line : List Char} (member : line ∈ text.splitOn '\n') :
    '\n' ∉ line := by
  induction text generalizing line with
  | nil =>
      have empty : line = [] := by simpa [List.splitOn] using member
      simp [empty]
  | cons c rest induction =>
      obtain ⟨first, others, split⟩ :=
        List.exists_cons_of_ne_nil (List.splitOnP_ne_nil (· == '\n') rest)
      rw [List.splitOn, split] at induction
      rw [List.splitOn, List.splitOnP_cons_eq_if_modifyHead, split] at member
      split at member
      · rcases List.mem_cons.mp member with rfl | later
        · simp
        · exact induction later
      · next other =>
          have apart : c ≠ '\n' := by simpa using other
          rw [List.modifyHead_cons] at member
          rcases List.mem_cons.mp member with rfl | later
          · simpa [apart.symm] using induction List.mem_cons_self
          · exact induction (List.mem_cons_of_mem _ later)

/-- With a break behind each of them the lines make up the text and one more break. -/
theorem flatMap_splitOn (text : List Char) :
    (text.splitOn '\n').flatMap (fun line => line ++ ['\n']) = text ++ ['\n'] := by
  induction text with
  | nil => rfl
  | cons c rest induction =>
      obtain ⟨first, others, split⟩ :=
        List.exists_cons_of_ne_nil (List.splitOnP_ne_nil (· == '\n') rest)
      rw [List.splitOn, split, List.flatMap_cons] at induction
      rw [List.splitOn, List.splitOnP_cons_eq_if_modifyHead, split, List.cons_append, ← induction]
      split
      · next breaks => simp [eq_of_beq breaks]
      · simp

/-! ### Lines with their line feeds -/

/-- The lines of a text, each with the line feed that ends it; the last may have none. -/
def feedLines (text : String) : List String :=
  (splitLineFeeds text).dropLast.map (· ++ "\n") ++
    (splitLineFeeds text).getLast?.toList.filter (· ≠ "")

/-- A text of one line with its line feed. -/
def IsLine (line : String) : Prop :=
  ∃ body, line = body ++ "\n" ∧ '\n' ∉ body.toList

theorem is_line_append {lead line : String} (unbroken : '\n' ∉ lead.toList) (full : IsLine line) :
    IsLine (lead ++ line) := by
  obtain ⟨body, rfl, whole⟩ := full
  refine ⟨lead ++ body, String.append_assoc.symm, ?_⟩
  rw [String.toList_append, List.mem_append, not_or]
  exact ⟨unbroken, whole⟩

theorem feed_lines_append {line : String} (full : IsLine line) (text : String) :
    feedLines (line ++ text) = line :: feedLines text := by
  obtain ⟨body, rfl, unbroken⟩ := full
  have split : splitLineFeeds (body ++ "\n" ++ text) = body :: splitLineFeeds text := by
    have shape : (body ++ "\n" ++ text).toList = body.toList ++ '\n' :: text.toList := by simp
    rw [splitLineFeeds, shape, List.splitOn_append_cons_self_of_not_mem unbroken, List.map_cons,
      String.ofList_toList]
    rfl
  have more : splitLineFeeds text ≠ [] := by
    simp [splitLineFeeds]
  rw [feedLines, split, List.dropLast_cons_of_ne_nil more, List.getLast?_cons_of_ne_nil more]
  rfl

theorem feed_lines_join {lines : List String} (each : ∀ line ∈ lines, IsLine line) :
    feedLines (String.join lines) = lines := by
  induction lines with
  | nil => decide
  | cons line rest induction =>
      rw [String.join_cons, feed_lines_append (each line List.mem_cons_self),
        induction fun other member => each other (List.mem_cons_of_mem _ member)]

/-- A text that is empty or ends in a line feed, and in which nothing else ends a line. -/
structure IsLined (text : String) : Prop where
  closed : text = "" ∨ endsWith "\n" text = true
  plain : ∀ c ∈ text.toList, endsLine c = true → c = '\n'

/-- A line that holds no other character at which lines are cut. -/
structure IsPlainLine (line : String) : Prop where
  full : IsLine line
  plain : ∀ c ∈ line.toList, endsLine c = true → c = '\n'

theorem cut_lines_body {body : List Char} (plain : ∀ c ∈ body, endsLine c = false)
    (begun rest : List Char) :
    cutLines begun (body ++ '\n' :: rest) = (begun.reverse ++ body ++ ['\n']) :: cutLines [] rest := by
  induction body generalizing begun with
  | nil => simp [cutLines, endsLine]
  | cons c more induction =>
      have inside := plain c List.mem_cons_self
      have notReturn : c ≠ '\r' := by
        rintro rfl
        simp [endsLine] at inside
      rw [List.cons_append, cutLines, if_neg (by simp [inside]),
        induction fun d member => plain d (List.mem_cons_of_mem _ member)]
      · simp
      · exact fun _ same _ => notReturn same

theorem lines_with_ends_append {line : String} (single : IsPlainLine line) (text : String) :
    linesWithEnds (line ++ text) = line :: linesWithEnds text := by
  obtain ⟨⟨body, rfl, unbroken⟩, plain⟩ := single
  have inside : ∀ c ∈ body.toList, endsLine c = false := by
    intro c member
    rw [Bool.eq_false_iff]
    intro ends
    have feed := plain c (by simp [member]) ends
    exact unbroken (feed ▸ member)
  have shape : (body ++ "\n" ++ text).toList = body.toList ++ '\n' :: text.toList := by simp
  rw [linesWithEnds, shape, cut_lines_body inside, List.map_cons, linesWithEnds]
  simp

theorem lines_with_ends_join {lines : List String} (each : ∀ line ∈ lines, IsPlainLine line) :
    linesWithEnds (String.join lines) = lines := by
  induction lines with
  | nil => decide
  | cons line rest induction =>
      rw [String.join_cons, lines_with_ends_append (each line List.mem_cons_self),
        induction fun other member => each other (List.mem_cons_of_mem _ member)]

theorem exists_lines {text : String} (lined : IsLined text) :
    ∃ lines, text = String.join lines ∧ ∀ line ∈ lines, IsPlainLine line := by
  rcases lined.closed with rfl | ended
  · exact ⟨[], rfl, by simp⟩
  · obtain ⟨front, shape⟩ := List.isSuffixOf_iff_suffix.mp ended
    have whole := flatMap_splitOn front
    refine ⟨(front.splitOn '\n').map fun piece => String.ofList (piece ++ ['\n']), ?_, ?_⟩
    · rw [← String.toList_inj, String.toList_join, List.flatMap_map, ← shape]
      simpa using whole.symm
    · intro line member
      obtain ⟨piece, inside, rfl⟩ := List.mem_map.mp member
      refine ⟨⟨String.ofList piece, by simp, by simpa using unbroken_of_mem_splitOn inside⟩, ?_⟩
      intro c found
      apply lined.plain
      rw [← shape, show "\n".toList = ['\n'] from rfl, ← whole]
      exact List.mem_flatMap.mpr ⟨piece, inside, by simpa using found⟩

theorem lines_with_ends_eq_feed_lines {text : String} (lined : IsLined text) :
    linesWithEnds text = feedLines text := by
  obtain ⟨lines, rfl, each⟩ := exists_lines lined
  rw [lines_with_ends_join each, feed_lines_join fun line member => (each line member).full]

theorem is_line_of_mem_feed_lines {text line : String} (lined : IsLined text)
    (member : line ∈ feedLines text) : IsLine line := by
  obtain ⟨lines, rfl, each⟩ := exists_lines lined
  rw [feed_lines_join fun line member => (each line member).full] at member
  exact (each line member).full

theorem join_feed_lines {text : String} (lined : IsLined text) :
    String.join (feedLines text) = text := by
  obtain ⟨lines, rfl, each⟩ := exists_lines lined
  rw [feed_lines_join fun line member => (each line member).full]

end DevicetreeFormat.Text
